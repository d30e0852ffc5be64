-- SUMMARY: The fewest decimal digits that read back as a given binary floating-point number.

/-!
# Shortest digits

A finite double is a dyadic number `mantissa * 2 ^ exponent`. The reals that round to it form an
interval around it; of all decimals in that interval the one with the fewest digits is printed, and of
several with that many digits the nearest. All arithmetic is exact, on natural numbers.
-/

namespace Rill.Decimal

-- ---------------------------------------------------------------------------
-- Dyadic numbers
-- ---------------------------------------------------------------------------

/-- A non-negative number `mantissa * 2 ^ exponent`. -/
structure Dyadic where
  mantissa : Nat
  exponent : Int
  deriving Repr, DecidableEq

/-- The magnitude of the finite double with the given bits. -/
def Dyadic.ofBits (bits : UInt64) : Dyadic :=
  let field := ((bits >>> 52) &&& 0x7ff).toNat
  let fraction := (bits &&& 0xfffffffffffff).toNat
  if field = 0 then ⟨fraction, -1074⟩ else ⟨fraction + 0x10000000000000, (field : Int) - 1075⟩

/-- A non-negative rational number. -/
structure Ratio where
  num : Nat
  den : Nat

/-- `mantissa * 2 ^ exponent` as a quotient. -/
def Ratio.ofDyadic (mantissa : Nat) (exponent : Int) : Ratio :=
  if exponent ≥ 0 then ⟨mantissa * Nat.pow 2 exponent.toNat, 1⟩ else ⟨mantissa, Nat.pow 2 (-exponent).toNat⟩

/-- `digits * 10 ^ exponent` as a quotient. -/
def Ratio.ofDecimal (digits : Nat) (exponent : Int) : Ratio :=
  if exponent ≥ 0 then ⟨digits * Nat.pow 10 exponent.toNat, 1⟩ else ⟨digits, Nat.pow 10 (-exponent).toNat⟩

def Ratio.le (a b : Ratio) : Bool := a.num * b.den ≤ b.num * a.den

def Ratio.lt (a b : Ratio) : Bool := a.num * b.den < b.num * a.den

/-- The distance of two quotients. -/
def Ratio.dist (a b : Ratio) : Ratio :=
  let x := a.num * b.den
  let y := b.num * a.den
  ⟨if x ≤ y then y - x else x - y, a.den * b.den⟩

/-- The largest natural number not above `a / 10 ^ scale`. -/
def Ratio.floorScaled (a : Ratio) (scale : Int) : Nat :=
  if scale ≥ 0 then a.num / (a.den * Nat.pow 10 scale.toNat) else a.num * Nat.pow 10 (-scale).toNat / a.den

-- ---------------------------------------------------------------------------
-- The rounding interval
-- ---------------------------------------------------------------------------

/-- The reals that round to a double: both ends belong to it exactly when the mantissa is even. -/
structure Interval where
  lower : Ratio
  upper : Ratio
  closed : Bool

/-- Below a power of two the neighbouring double is only half as far away as above it. -/
def Interval.around (x : Dyadic) : Interval :=
  let narrow := x.mantissa = 0x10000000000000 ∧ x.exponent > -1074
  { lower := .ofDyadic (4 * x.mantissa - if narrow then 1 else 2) (x.exponent - 2)
    upper := .ofDyadic (4 * x.mantissa + 2) (x.exponent - 2)
    closed := x.mantissa % 2 = 0 }

def Interval.contains (i : Interval) (r : Ratio) : Bool :=
  if i.closed then i.lower.le r && r.le i.upper else i.lower.lt r && r.lt i.upper

-- ---------------------------------------------------------------------------
-- The search
-- ---------------------------------------------------------------------------

/-- Number of decimal digits of a natural number; one for zero. -/
def digitCount (n : Nat) : Nat := (Nat.toDigits 10 n).length

/-- The least `k` with `x < 10 ^ k`, for a positive `x` above `10 ^ -400`. -/
def magnitude (x : Ratio) : Int := (digitCount (x.floorScaled (-400)) : Int) - 400

/-- The point of the grid `10 ^ scale * ℕ` inside the interval that is nearest to `x`, if any: it is one
of the two neighbours of `x` on the grid. -/
def nearestOnGrid (i : Interval) (x : Ratio) (scale : Int) : Option Nat :=
  let below := x.floorScaled scale
  let above := below + 1
  let point (d : Nat) : Ratio := .ofDecimal d scale
  match i.contains (point below) && 0 < below, i.contains (point above) with
  | true, true =>
    let down := Ratio.dist x (point below)
    let up := Ratio.dist x (point above)
    if down.lt up then some below
    else if up.lt down then some above
    else if below % 2 = 0 then some below else some above
  | true, false => some below
  | false, true => some above
  | false, false => none

/-- Tries ever finer grids, from `digits` digits on, `tries` times at most. -/
def searchGrids (i : Interval) (x : Ratio) (k : Int) : Nat → Nat → Nat × Int
  | 0, digits => (x.floorScaled (k - digits), k - digits)
  | tries + 1, digits =>
    match nearestOnGrid i x (k - digits) with
    | some d => (d, k - digits)
    | none => searchGrids i x k tries (digits + 1)

/-- Moves zeros at the end of the digits into the exponent, `tries` at most. -/
def dropZeros : Nat → Nat × Int → Nat × Int
  | 0, r => r
  | tries + 1, (d, e) => if d % 10 = 0 && d ≠ 0 then dropZeros tries (d / 10, e + 1) else (d, e)

/-- The shortest decimal `digits * 10 ^ exponent` that reads back as the positive number `x`. -/
def shortest (x : Dyadic) : Nat × Int :=
  let r := Ratio.ofDyadic x.mantissa x.exponent
  dropZeros 20 (searchGrids (.around x) r (magnitude r) 17 1)

end Rill.Decimal
