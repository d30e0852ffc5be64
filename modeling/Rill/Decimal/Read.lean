-- SUMMARY: Reading integers and floating-point numbers from text.

/-!
# Reading numbers

`readInt` and `readNat` accept an optional sign and decimal digits, `readFloat` also a point, an
exponent and the names of the special values. Nothing else may surround the number.
-/

namespace Rill.Decimal

/-- The value of decimal digits, or nothing when there are none or another character occurs. -/
def readDigits (cs : List Char) : Option Nat :=
  if cs.isEmpty || !cs.all Char.isDigit then none
  else some (cs.foldl (fun n c => 10 * n + (c.toNat - 48)) 0)

/-- A leading sign and the rest: `true` for minus. -/
def splitSign : List Char → Bool × List Char
  | '-' :: rest => (true, rest)
  | '+' :: rest => (false, rest)
  | cs => (false, cs)

/-- An integer of 64 signed bits. -/
def readInt (cs : List Char) : Option Int64 :=
  let (negative, rest) := splitSign cs
  match readDigits rest with
  | none => none
  | some n =>
    if negative then (if n ≤ 0x8000000000000000 then some (Int64.ofInt (-n)) else none)
    else if n < 0x8000000000000000 then some (Int64.ofNat n) else none

/-- A natural number of 64 bits. A minus sign is refused. -/
def readNat (cs : List Char) : Option Nat :=
  match splitSign cs with
  | (true, _) => none
  | (false, rest) =>
    match readDigits rest with
    | some n => if n < 0x10000000000000000 then some n else none
    | none => none

/-- The double nearest to `digits * 10 ^ exponent`. Magnitudes far outside the range are cut first. -/
def floatOfDecimal (digits : Nat) (exponent : Int) : Float :=
  let power : Int := (Nat.toDigits 10 digits).length + exponent
  if digits = 0 || power < -400 then 0.0
  else if power > 400 then Float.ofBits 0x7ff0000000000000
  else if exponent < 0 then Float.ofScientific digits true (-exponent).toNat
  else Float.ofScientific digits false exponent.toNat

/-- Digits with an optional point, at least one digit on either side of it: the digits together and how
many stand after the point. -/
def readMantissa (cs : List Char) : Option (List Char × Nat) :=
  let whole := cs.takeWhile Char.isDigit
  match cs.dropWhile Char.isDigit with
  | [] => if whole.isEmpty then none else some (whole, 0)
  | '.' :: fraction =>
    if fraction.all Char.isDigit && !(whole.isEmpty && fraction.isEmpty) then
      some (whole ++ fraction, fraction.length)
    else none
  | _ => none

/-- The exponent part after `e`: an optional sign and digits. -/
def readExponent (cs : List Char) : Option Int :=
  let (negative, rest) := splitSign cs
  (readDigits rest).map fun n => if negative then -n else (n : Int)

/-- An unsigned number: mantissa and optional exponent. -/
def readMagnitude (cs : List Char) : Option Float :=
  let isMark (c : Char) := c == 'e' || c == 'E'
  let exponent : Option Int :=
    match cs.dropWhile (!isMark ·) with
    | [] => some 0
    | _ :: tail => readExponent tail
  match readMantissa (cs.takeWhile (!isMark ·)), exponent with
  | some (digits, places), some e =>
    some (floatOfDecimal (digits.foldl (fun n c => 10 * n + (c.toNat - 48)) 0) (e - places))
  | _, _ => none

/-- A float: an optional sign, then a number, `inf`, `infinity` or `nan` in any case. -/
def readFloat (cs : List Char) : Option Float :=
  let (negative, rest) := splitSign cs
  let word := String.ofList (rest.map Char.toLower)
  let magnitude :=
    if word == "inf" || word == "infinity" then some (Float.ofBits 0x7ff0000000000000)
    else if word == "nan" then some (Float.ofBits 0x7ff8000000000000)
    else readMagnitude rest
  magnitude.map fun x => if negative then -x else x

end Rill.Decimal
