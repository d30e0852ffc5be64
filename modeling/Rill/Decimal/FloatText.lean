-- SUMMARY: The written forms of floating-point numbers: script text, plain text and JSON.
import Rill.Decimal.Shortest

/-!
# Float texts

Three written forms share the shortest digits and differ in where positional notation ends, in whether
a whole number keeps a `.0`, and in the sign of the exponent. `FloatForm` holds these decisions.
-/

namespace Rill.Decimal

/-- The decisions of one written form. `least` and `most` bound the scientific exponents written
positionally; without bounds every number is. -/
structure FloatForm where
  range : Option (Int × Int)
  keepsPoint : Bool
  plusSign : Bool
  nan : String

/-- The text scripts see: positional from `1e-4` up to below `1e16`, always with a point. -/
def scriptForm : FloatForm := ⟨some (-4, 15), true, false, "nan"⟩

/-- The text inside messages: always positional, a whole number without a point. -/
def plainForm : FloatForm := ⟨none, false, false, "NaN"⟩

/-- The text in JSON: positional from `1e-5` up to below `1e16`, the sign of an exponent always written. -/
def jsonForm : FloatForm := ⟨some (-5, 15), true, true, "null"⟩

/-- A text of `n` zeros. -/
def zeros (n : Nat) : String := String.ofList (List.replicate n '0')

/-- `digits * 10 ^ exponent` without an exponent part. -/
def positional (form : FloatForm) (digits : String) (exponent : Int) : String :=
  let count : Int := digits.length
  if exponent ≥ 0 then
    digits ++ zeros exponent.toNat ++ (if form.keepsPoint then ".0" else "")
  else if count + exponent > 0 then
    let whole := (count + exponent).toNat
    String.ofList (digits.toList.take whole) ++ "." ++ String.ofList (digits.toList.drop whole)
  else
    "0." ++ zeros (-(count + exponent)).toNat ++ digits

/-- `d.ddde±x`, with the point only before further digits. -/
def scientific (form : FloatForm) (digits : String) (power : Int) : String :=
  let sign := if power ≥ 0 && form.plusSign then "+" else ""
  let tail := digits.toList.drop 1
  let point := if tail.isEmpty then "" else "."
  String.ofList (digits.toList.take 1) ++ point ++ String.ofList tail ++ "e" ++ sign ++ toString power

/-- The text of a finite magnitude. -/
def magnitudeText (form : FloatForm) (x : Dyadic) : String :=
  if x.mantissa = 0 then (if form.keepsPoint then "0.0" else "0")
  else
    let (d, e) := shortest x
    let digits := toString d
    let power : Int := e + digits.length - 1
    match form.range with
    | none => positional form digits e
    | some (least, most) =>
      if least ≤ power && power ≤ most then positional form digits e else scientific form digits power

/-- The text of a float in a given form. -/
def FloatForm.write (form : FloatForm) (x : Float) : String :=
  let bits := x.toBits
  let negative := bits >>> 63 == 1
  if x.isNaN then form.nan
  else if x.isInf then (if negative then "-inf" else "inf")
  else (if negative then "-" else "") ++ magnitudeText form (.ofBits bits)

end Rill.Decimal
