-- SUMMARY: Exact integer powers and the remainder and rounding of floats.
import Rill.Decimal.Shortest

/-!
# Arithmetic

Operations on numbers that the language defines and the standard library does not have.
-/

namespace Rill.Decimal

/-- An integer as a word, if it fits. -/
def word? (n : Int) : Option Int64 := if -0x8000000000000000 ≤ n ∧ n < 0x8000000000000000 then some (Int64.ofInt n) else none

/-- The power of two words, if the exponent is an unsigned word of 32 bits and the power fits. A base
beyond one to an exponent beyond 63 never fits. -/
def intPower? (base exponent : Int64) : Option Int64 :=
  let b := base.toInt
  let e := exponent.toInt
  if e < 0 ∨ e ≥ 0x100000000 then none
  else if b.natAbs ≤ 1 then word? (if b = -1 ∧ e % 2 = 0 then 1 else if e = 0 then 1 else b)
  else if e > 63 then none
  else word? (Int.pow b e.toNat)

/-- The remainder of floats, with the sign of the first one. It is exact. -/
def floatRemainder (a b : Float) : Float :=
  if a.isNaN || b.isNaN || a.isInf || b == 0 then 0.0 / 0.0
  else if b.isInf || a == 0 then a
  else
    let x := Dyadic.ofBits a.abs.toBits
    let y := Dyadic.ofBits b.abs.toBits
    let unit := min x.exponent y.exponent
    let scaled (d : Dyadic) : Nat := d.mantissa * Nat.pow 2 (d.exponent - unit).toNat
    let r := (Float.ofNat (scaled x % scaled y)).scaleB unit
    if a < 0 then -r else r

/-- The power of ten for a number of places, by repeated squaring. -/
def squarings : Nat → Nat → Float → Float → Float
  | 0, _, _, result => result
  | fuel + 1, n, base, result =>
    let result := if n % 2 = 1 then result * base else result
    if n / 2 = 0 then result else squarings fuel (n / 2) (base * base) result

def powerOfTen (n : Int) : Float :=
  let p := squarings 64 n.natAbs 10 1
  if n < 0 then 1 / p else p

/-- A number rounded to decimal places; a negative number of places rounds to tens, hundreds and so on. -/
def roundTo (x : Float) (places : Int64) : Float :=
  let scale := powerOfTen (max (-308) (min 308 places.toInt))
  (x * scale).round / scale

/-- The smaller number; nan only if both are. -/
def floatMin (a b : Float) : Float := if a.isNaN then b else if b.isNaN then a else if b < a then b else a

/-- The larger number; nan only if both are. -/
def floatMax (a b : Float) : Float := if a.isNaN then b else if b.isNaN then a else if b > a then b else a

end Rill.Decimal
