-- SUMMARY: The shortest digits of a double stand for a number that rounds to this double and to no other.
import Mathlib.Algebra.Order.Field.Power
import Mathlib.Algebra.Order.Floor.Semifield
import Mathlib.Data.Rat.Floor
import Mathlib.Tactic.FieldSimp
import Mathlib.Tactic.Linarith
import Mathlib.Tactic.Positivity
import Mathlib.Tactic.Ring
import Rill.Decimal.Shortest

/-!
# Digits that tell doubles apart

A number is covered by a double if it rounds to it, ties going to the even mantissa. No number is covered by
two doubles. The search for the shortest digits only takes numbers that are covered, and it finds one among
those of 17 digits at the latest, because they lie closer together than the doubles do.
-/

namespace Rill.Decimal

-- ---------------------------------------------------------------------------
-- Numbers
-- ---------------------------------------------------------------------------

/-- The number that a quotient stands for. -/
def Ratio.value (r : Ratio) : ℚ := r.num / r.den

/-- The number that decimal digits stand for. -/
def decimalValue (digits : Nat) (exponent : Int) : ℚ := digits * 10 ^ exponent

/-- The number that a mantissa and an exponent stand for. -/
def Dyadic.value (x : Dyadic) : ℚ := x.mantissa * 2 ^ x.exponent

section Ratios

variable {a b : Ratio}

theorem Ratio.le_iff (ha : 0 < a.den) (hb : 0 < b.den) : a.le b = true ↔ a.value ≤ b.value := by
  have ha' : (0 : ℚ) < a.den := by exact_mod_cast ha
  have hb' : (0 : ℚ) < b.den := by exact_mod_cast hb
  rw [Ratio.le, decide_eq_true_eq, value, value, div_le_div_iff₀ ha' hb']
  exact_mod_cast Iff.rfl

theorem Ratio.lt_iff (ha : 0 < a.den) (hb : 0 < b.den) : a.lt b = true ↔ a.value < b.value := by
  have ha' : (0 : ℚ) < a.den := by exact_mod_cast ha
  have hb' : (0 : ℚ) < b.den := by exact_mod_cast hb
  rw [Ratio.lt, decide_eq_true_eq, value, value, div_lt_div_iff₀ ha' hb']
  exact_mod_cast Iff.rfl

/-- A natural number times a power of a base. -/
theorem Ratio.value_scaled {base : Nat} (hbase : base ≠ 0) (n : Nat) (e : Int) :
    (if e ≥ 0 then Ratio.mk (n * Nat.pow base e.toNat) 1 else ⟨n, Nat.pow base (-e).toNat⟩).value =
      n * (base : ℚ) ^ e := by
  have hcast : (base : ℚ) ≠ 0 := by exact_mod_cast hbase
  split
  · obtain ⟨k, rfl⟩ := Int.eq_ofNat_of_zero_le ‹_›
    simp [value]
  · obtain ⟨k, hk⟩ := Int.eq_ofNat_of_zero_le (show 0 ≤ -e by omega)
    obtain rfl : e = -k := by omega
    simp [value, div_eq_mul_inv]

theorem Ratio.den_scaled {base : Nat} (hbase : base ≠ 0) (n : Nat) (e : Int) :
    0 < (if e ≥ 0 then Ratio.mk (n * Nat.pow base e.toNat) 1 else ⟨n, Nat.pow base (-e).toNat⟩).den := by
  split
  · exact Nat.one_pos
  · exact Nat.pow_pos (Nat.pos_of_ne_zero hbase)

theorem Ratio.value_ofDyadic (m : Nat) (e : Int) : (Ratio.ofDyadic m e).value = m * 2 ^ e :=
  Ratio.value_scaled (by decide) m e

theorem Ratio.value_ofDecimal (n : Nat) (e : Int) : (Ratio.ofDecimal n e).value = decimalValue n e :=
  Ratio.value_scaled (by decide) n e

theorem Ratio.den_ofDyadic (m : Nat) (e : Int) : 0 < (Ratio.ofDyadic m e).den :=
  Ratio.den_scaled (by decide) m e

theorem Ratio.den_ofDecimal (n : Nat) (e : Int) : 0 < (Ratio.ofDecimal n e).den :=
  Ratio.den_scaled (by decide) n e

theorem Ratio.floorScaled_eq (a : Ratio) (scale : Int) : a.floorScaled scale = ⌊a.value / 10 ^ scale⌋₊ := by
  rw [floorScaled]
  split
  · obtain ⟨k, rfl⟩ := Int.eq_ofNat_of_zero_le ‹_›
    rw [← Nat.floor_div_eq_div (K := ℚ)]
    simp [value, div_div]
  · obtain ⟨k, hk⟩ := Int.eq_ofNat_of_zero_le (show 0 ≤ -scale by omega)
    obtain rfl : scale = -k := by omega
    rw [← Nat.floor_div_eq_div (K := ℚ)]
    simp [value, div_mul_eq_mul_div]

end Ratios

/-- The place of the first digit of a number. -/
theorem pow_magnitude_le {r : Ratio} (hr : 10 ^ (-400 : ℤ) ≤ r.value) : (10 : ℚ) ^ (magnitude r - 1) ≤ r.value := by
  have hunit : (0 : ℚ) < 10 ^ (-400 : ℤ) := by positivity
  set n := r.floorScaled (-400) with hn
  rw [Ratio.floorScaled_eq] at hn
  have hpos : 1 ≤ n := hn ▸ (Nat.one_le_floor_iff _).mpr ((one_le_div hunit).mpr hr)
  have hfloor : (n : ℚ) * 10 ^ (-400 : ℤ) ≤ r.value := by
    rw [← le_div_iff₀ hunit, hn]
    exact Nat.floor_le (div_nonneg (hunit.le.trans hr) hunit.le)
  obtain ⟨c, hc⟩ : ∃ c, digitCount n = c + 1 :=
    ⟨_, (Nat.succ_pred_eq_of_pos (List.length_pos_iff.mpr Nat.toDigits_ne_nil)).symm⟩
  have hdigits : 10 ^ c ≤ n := by
    rcases Nat.eq_zero_or_pos c with rfl | hcpos
    · exact hpos
    · rw [← Nat.not_lt, ← Nat.length_toDigits_le_iff (by decide) hcpos]
      rw [digitCount] at hc
      omega
  have hexponent : magnitude r - 1 = c + (-400 : ℤ) := by
    rw [magnitude, ← show n = r.floorScaled (-400) from rfl, hc]
    push_cast
    ring
  calc (10 : ℚ) ^ (magnitude r - 1) = (10 ^ c : ℕ) * 10 ^ (-400 : ℤ) := by
        rw [hexponent, zpow_add₀ (by norm_num), zpow_natCast, Nat.cast_pow, Nat.cast_ofNat]
    _ ≤ n * 10 ^ (-400 : ℤ) := mul_le_mul_of_nonneg_right (by exact_mod_cast hdigits) hunit.le
    _ ≤ r.value := hfloor

-- ---------------------------------------------------------------------------
-- Doubles
-- ---------------------------------------------------------------------------

/-- The number is a positive double: its mantissa has all of its 53 bits, or the exponent is the least. -/
structure Dyadic.Positive (x : Dyadic) : Prop where
  pos : 0 < x.mantissa
  lt : x.mantissa < 2 ^ 53
  least : -1074 ≤ x.exponent
  full : x.exponent = -1074 ∨ 2 ^ 52 ≤ x.mantissa

/-- How far the numbers that round to a double reach below it, in units of its last bit. -/
def Dyadic.reach (x : Dyadic) : ℚ := if x.mantissa = 0x10000000000000 ∧ x.exponent > -1074 then 1 / 4 else 1 / 2

/-- The number rounds to the double. -/
def Dyadic.Covers (x : Dyadic) (r : ℚ) : Prop :=
  if x.mantissa % 2 = 0 then (x.mantissa - x.reach) * 2 ^ x.exponent ≤ r ∧ r ≤ (x.mantissa + 1 / 2) * 2 ^ x.exponent
  else (x.mantissa - x.reach) * 2 ^ x.exponent < r ∧ r < (x.mantissa + 1 / 2) * 2 ^ x.exponent

namespace Dyadic

variable {x y : Dyadic} {r : ℚ}

theorem reach_bounds (x : Dyadic) : 1 / 4 ≤ x.reach ∧ x.reach ≤ 1 / 2 := by
  rw [reach]
  split <;> norm_num

theorem Covers.bounds (h : x.Covers r) :
    (x.mantissa - x.reach) * 2 ^ x.exponent ≤ r ∧ r ≤ (x.mantissa + 1 / 2) * 2 ^ x.exponent := by
  rw [Covers] at h
  split at h
  · exact h
  · exact ⟨h.1.le, h.2.le⟩

theorem covers_of_lt (hlower : (x.mantissa - x.reach) * 2 ^ x.exponent < r)
    (hupper : r < (x.mantissa + 1 / 2) * 2 ^ x.exponent) : x.Covers r := by
  rw [Covers]
  split
  · exact ⟨hlower.le, hupper.le⟩
  · exact ⟨hlower, hupper⟩

/-- A positive double covers only positive numbers. -/
theorem Covers.pos (hx : x.Positive) (h : x.Covers r) : 0 < r := by
  have hm : (1 : ℚ) ≤ x.mantissa := by exact_mod_cast hx.pos
  have hreach := x.reach_bounds.2
  have hunit : (0 : ℚ) < 2 ^ x.exponent := by positivity
  exact lt_of_lt_of_le (mul_pos (by linarith) hunit) h.bounds.1

/-- The second double begins where the first one ends, or above. If it begins there, one of them has an odd
mantissa. -/
def Separated (x y : Dyadic) : Prop :=
  (x.mantissa + 1 / 2) * 2 ^ x.exponent ≤ (y.mantissa - y.reach) * (2 : ℚ) ^ y.exponent ∧
    ((x.mantissa + 1 / 2) * 2 ^ x.exponent = (y.mantissa - y.reach) * (2 : ℚ) ^ y.exponent →
      x.mantissa % 2 = 1 ∨ y.mantissa % 2 = 1)

/-- A double with a larger exponent has a full mantissa, and its unit is at least twice the other one. -/
theorem separated_of_exponent_lt (hx : x.Positive) (hy : y.Positive) (hlt : x.exponent < y.exponent) :
    Separated x y := by
  have hunit : (0 : ℚ) < 2 ^ x.exponent := by positivity
  have hfull : 2 ^ 52 ≤ y.mantissa := hy.full.resolve_left (by have := hx.least; omega)
  obtain ⟨k, hk⟩ : ∃ k : Nat, y.exponent = x.exponent + 1 + k := ⟨(y.exponent - x.exponent - 1).toNat, by omega⟩
  have hlow : (2 : ℚ) ^ 53 - 1 / 2 ≤ (y.mantissa - y.reach) * 2 := by
    rw [reach]
    split
    · rename_i hnarrow
      rw [hnarrow.1]
      norm_num
    · rename_i hwide
      have hmore : 2 ^ 52 + 1 ≤ y.mantissa := by
        have := hx.least
        omega
      have hmore : (2 : ℚ) ^ 52 + 1 ≤ y.mantissa := by exact_mod_cast hmore
      linarith
  have hhigh : (x.mantissa : ℚ) + 1 / 2 ≤ 2 ^ 53 - 1 / 2 := by
    have hx' : (x.mantissa : ℚ) + 1 ≤ 2 ^ 53 := by exact_mod_cast hx.lt
    linarith
  have hwhole : (2 : ℚ) ^ 53 - 1 / 2 ≤ (y.mantissa - y.reach) * 2 * 2 ^ k :=
    hlow.trans (le_mul_of_one_le_right (by linarith) (one_le_pow₀ (by norm_num)))
  have hlower :
      (y.mantissa - y.reach) * (2 : ℚ) ^ y.exponent = (y.mantissa - y.reach) * 2 * 2 ^ k * 2 ^ x.exponent := by
    rw [hk, zpow_add₀ (by norm_num), zpow_add₀ (by norm_num), zpow_one, zpow_natCast]
    ring
  rw [Separated, hlower]
  refine ⟨mul_le_mul_of_nonneg_right (hhigh.trans hwhole) hunit.le, fun heq => .inl ?_⟩
  have heq := mul_right_cancel₀ hunit.ne' heq
  have hlast : (x.mantissa : ℚ) = (2 ^ 53 - 1 : ℕ) := by
    push_cast
    linarith
  have hlast : x.mantissa = 2 ^ 53 - 1 := by exact_mod_cast hlast
  omega

/-- Neighbours with the same exponent meet, and one of their mantissas is odd. -/
theorem separated_of_mantissa_lt (hx : x.Positive) (hexponent : x.exponent = y.exponent)
    (hlt : x.mantissa < y.mantissa) : Separated x y := by
  have hunit : (0 : ℚ) < 2 ^ x.exponent := by positivity
  have hreach : y.reach = 1 / 2 := by
    refine if_neg fun hnarrow => ?_
    have hfull := hx.full.resolve_left (by omega)
    omega
  have hnext : (x.mantissa : ℚ) + 1 ≤ y.mantissa := by exact_mod_cast hlt
  rw [Separated, hreach, ← hexponent]
  refine ⟨mul_le_mul_of_nonneg_right (by linarith) hunit.le, fun heq => ?_⟩
  have heq := mul_right_cancel₀ hunit.ne' heq
  have hlast : (y.mantissa : ℚ) = (x.mantissa + 1 : ℕ) := by
    push_cast
    linarith
  have hlast : y.mantissa = x.mantissa + 1 := by exact_mod_cast hlast
  omega

/-- Doubles that are separated do not cover the same number: an odd mantissa excludes the only one that both
could cover. -/
theorem Separated.not_covers (h : Separated x y) (hxr : x.Covers r) : ¬y.Covers r := by
  intro hyr
  have hmeet : (x.mantissa + 1 / 2) * 2 ^ x.exponent = (y.mantissa - y.reach) * (2 : ℚ) ^ y.exponent :=
    le_antisymm h.1 (hyr.bounds.1.trans hxr.bounds.2)
  rcases h.2 hmeet with hodd | hodd
  · rw [Covers, if_neg (by omega)] at hxr
    exact absurd (hmeet ▸ hyr.bounds.1) (not_le.mpr hxr.2)
  · rw [Covers, if_neg (by omega)] at hyr
    exact absurd (hmeet ▸ hxr.bounds.2) (not_le.mpr hyr.1)

/-- A number rounds to one double only. -/
theorem Covers.unique (hx : x.Positive) (hy : y.Positive) (hxr : x.Covers r) (hyr : y.Covers r) : x = y := by
  rcases lt_trichotomy x.exponent y.exponent with hlt | hexponent | hlt
  · exact absurd hyr ((separated_of_exponent_lt hx hy hlt).not_covers hxr)
  · rcases lt_trichotomy x.mantissa y.mantissa with hlt | hmantissa | hlt
    · exact absurd hyr ((separated_of_mantissa_lt hx hexponent hlt).not_covers hxr)
    · cases x
      cases y
      exact congrArg₂ Dyadic.mk hmantissa hexponent
    · exact absurd hxr ((separated_of_mantissa_lt hy hexponent.symm hlt).not_covers hyr)
  · exact absurd hxr ((separated_of_exponent_lt hy hx hlt).not_covers hyr)

/-- The interval that is searched holds the numbers that the double covers. -/
theorem contains_around (hx : x.Positive) {q : Ratio} (hq : 0 < q.den) :
    (Interval.around x).contains q = true ↔ x.Covers q.value := by
  have hquarter : (2 : ℚ) ^ x.exponent = 4 * 2 ^ (x.exponent - 2) := by
    rw [zpow_sub₀ (by norm_num)]
    ring
  have hupper : (Interval.around x).upper.value = (x.mantissa + 1 / 2) * 2 ^ x.exponent := by
    rw [Interval.around, Ratio.value_ofDyadic, hquarter]
    push_cast
    ring
  have hlower : (Interval.around x).lower.value = (x.mantissa - x.reach) * 2 ^ x.exponent := by
    have hpos := hx.pos
    rw [Interval.around, Ratio.value_ofDyadic, hquarter, reach]
    split
    · rw [Nat.cast_sub (by omega)]
      push_cast
      ring
    · rw [Nat.cast_sub (by omega)]
      push_cast
      ring
  have hlowerDen : 0 < (Interval.around x).lower.den := Ratio.den_ofDyadic ..
  have hupperDen : 0 < (Interval.around x).upper.den := Ratio.den_ofDyadic ..
  have hclosed : (Interval.around x).closed = true ↔ x.mantissa % 2 = 0 := decide_eq_true_iff
  rw [Interval.contains, Covers]
  by_cases heven : x.mantissa % 2 = 0
  · rw [if_pos (hclosed.mpr heven), if_pos heven, Bool.and_eq_true, Ratio.le_iff hlowerDen hq,
      Ratio.le_iff hq hupperDen, hlower, hupper]
  · rw [if_neg (mt hclosed.mp heven), if_neg heven, Bool.and_eq_true, Ratio.lt_iff hlowerDen hq,
      Ratio.lt_iff hq hupperDen, hlower, hupper]

end Dyadic

-- ---------------------------------------------------------------------------
-- The search
-- ---------------------------------------------------------------------------

variable {x : Dyadic}

/-- The multiples of a unit below the 17th digit of a double lie so close together that one of the two around it
rounds to it. -/
theorem Dyadic.covers_neighbour (hx : x.Positive) {unit : ℚ} {below : Nat} (hunit : 0 < unit)
    (hplace : 10 ^ 16 * unit ≤ x.value) (hbelow : below * unit ≤ x.value) (habove : x.value < (below + 1) * unit) :
    x.Covers (below * unit) ∨ x.Covers ((below + 1) * unit) := by
  have hlast : (0 : ℚ) < 2 ^ x.exponent := by positivity
  have hwidth : unit < (x.reach + 1 / 2) * 2 ^ x.exponent := by
    rw [value] at hplace
    rw [reach]
    split
    · rename_i hnarrow
      rw [hnarrow.1] at hplace
      norm_num at hplace
      linarith
    · have hlt : (x.mantissa : ℚ) ≤ 2 ^ 53 := by exact_mod_cast hx.lt.le
      have := mul_le_mul_of_nonneg_right hlt hlast.le
      norm_num at this
      linarith
  have hreach := mul_le_mul_of_nonneg_right x.reach_bounds.1 hlast.le
  rw [value] at hbelow habove
  by_cases hnear : (x.mantissa - x.reach) * 2 ^ x.exponent < below * unit
  · exact .inl (covers_of_lt hnear (by linarith))
  · exact .inr (covers_of_lt (by linarith) (by linarith))

section Search

variable {i : Interval} {r : Ratio} {k scale : Int} {d : Nat}

theorem nearestOnGrid_contains (h : nearestOnGrid i r scale = some d) :
    i.contains (.ofDecimal d scale) = true := by
  simp only [nearestOnGrid] at h
  split at h
  · rename_i hdown hup
    rw [Bool.and_eq_true] at hdown
    split_ifs at h
    all_goals
      obtain rfl := Option.some.inj h
      first | exact hdown.1 | exact hup
  · rename_i hdown _
    rw [Bool.and_eq_true] at hdown
    obtain rfl := Option.some.inj h
    exact hdown.1
  · rename_i hup
    obtain rfl := Option.some.inj h
    exact hup
  · cases h

/-- A grid has a neighbour of a number in the interval only if the search finds one. -/
theorem nearestOnGrid_none (h : nearestOnGrid i r scale = none) (hpos : 0 < r.floorScaled scale) :
    i.contains (.ofDecimal (r.floorScaled scale) scale) = false ∧
      i.contains (.ofDecimal (r.floorScaled scale + 1) scale) = false := by
  simp only [nearestOnGrid, hpos, decide_true, Bool.and_true] at h
  split at h
  · split_ifs at h
  · cases h
  · cases h
  · exact ⟨‹_›, ‹_›⟩

/-- If a grid of 17 digits has a number in the interval, the search ends with one. -/
theorem searchGrids_contains (hlast : nearestOnGrid i r (k - 17) ≠ none) :
    ∀ tries digits : Nat, digits + tries = 18 → digits ≤ 17 →
      i.contains (.ofDecimal (searchGrids i r k tries digits).1 (searchGrids i r k tries digits).2) = true
  | 0, digits, hsum, hle => by omega
  | tries + 1, digits, hsum, hle => by
    rw [searchGrids]
    cases hgrid : nearestOnGrid i r (k - digits) with
    | some d => exact nearestOnGrid_contains hgrid
    | none =>
      have hne : digits ≠ 17 := by
        rintro rfl
        exact hlast hgrid
      exact searchGrids_contains hlast tries (digits + 1) (by omega) (by omega)

end Search

/-- Zeros that move into the exponent do not change the number. -/
theorem decimalValue_dropZeros (tries : Nat) (r : Nat × Int) :
    decimalValue (dropZeros tries r).1 (dropZeros tries r).2 = decimalValue r.1 r.2 := by
  induction tries generalizing r with
  | zero => rfl
  | succ tries ih =>
    obtain ⟨d, e⟩ := r
    rw [dropZeros]
    split
    · rename_i hzero
      rw [Bool.and_eq_true, decide_eq_true_eq] at hzero
      obtain ⟨q, rfl⟩ := Nat.dvd_of_mod_eq_zero hzero.1
      rw [ih, Nat.mul_div_cancel_left _ (by decide), decimalValue, decimalValue, zpow_add₀ (by norm_num)]
      push_cast
      ring
    · rfl

/-- A power of ten below one is below the same power of eight. -/
theorem ten_pow_le_two_pow (n : Nat) : (10 : ℚ) ^ (-(n : ℤ)) ≤ 2 ^ (-(3 * n : ℤ)) := by
  rw [zpow_neg, zpow_neg, zpow_mul, zpow_natCast, zpow_natCast]
  exact inv_anti₀ (by positivity) (pow_le_pow_left₀ (by norm_num) (by norm_num) n)

/-- Every positive double has its first digit at one of the places that are looked at. -/
theorem Dyadic.Positive.place_le (hx : x.Positive) : (10 : ℚ) ^ (-400 : ℤ) ≤ x.value := by
  have hone : (1 : ℚ) ≤ x.mantissa := by exact_mod_cast hx.pos
  calc (10 : ℚ) ^ (-400 : ℤ) ≤ 2 ^ (-(3 * (400 : ℕ) : ℤ)) := ten_pow_le_two_pow 400
    _ ≤ 2 ^ x.exponent := zpow_le_zpow_right₀ (by norm_num) (by have := hx.least; omega)
    _ ≤ x.value := le_mul_of_one_le_left (by positivity) hone

/-- The shortest digits of a double stand for a number that rounds to it. -/
theorem shortest_covers (hx : x.Positive) : x.Covers (decimalValue (shortest x).1 (shortest x).2) := by
  set r := Ratio.ofDyadic x.mantissa x.exponent with hr
  have hvalue : r.value = x.value := Ratio.value_ofDyadic ..
  have hplace := pow_magnitude_le (hx.place_le.trans_eq hvalue.symm)
  have hunit : (0 : ℚ) < 10 ^ (magnitude r - 17) := by positivity
  have hdigits : 10 ^ 16 * (10 : ℚ) ^ (magnitude r - 17) ≤ x.value := by
    rw [hvalue] at hplace
    refine hplace.trans_eq' ?_
    rw [← zpow_natCast, ← zpow_add₀ (by norm_num)]
    congr 1
    push_cast
    ring
  set below := r.floorScaled (magnitude r - 17) with hfloor
  rw [Ratio.floorScaled_eq, hvalue] at hfloor
  have hbelow : (below : ℚ) * 10 ^ (magnitude r - 17) ≤ x.value := by
    rw [← le_div_iff₀ hunit, hfloor]
    exact Nat.floor_le (div_nonneg (by rw [Dyadic.value]; positivity) hunit.le)
  have habove : x.value < (below + 1) * 10 ^ (magnitude r - 17) := by
    rw [← div_lt_iff₀ hunit, hfloor]
    exact Nat.lt_floor_add_one _
  have hgrid : nearestOnGrid (.around x) r (magnitude r - 17) ≠ none := by
    intro hnone
    have hpos : 0 < below := by
      rw [hfloor, Nat.floor_pos, one_le_div hunit]
      exact (le_mul_of_one_le_left hunit.le (by norm_num)).trans hdigits
    obtain ⟨hdown, hup⟩ := nearestOnGrid_none hnone hpos
    rw [← Bool.not_eq_true, Dyadic.contains_around hx (Ratio.den_ofDecimal ..), Ratio.value_ofDecimal,
      decimalValue] at hdown hup
    push_cast at hup
    exact (Dyadic.covers_neighbour hx hunit hdigits hbelow habove).elim hdown hup
  have hfound := searchGrids_contains hgrid 17 1 rfl (by decide)
  rw [Dyadic.contains_around hx (Ratio.den_ofDecimal ..), Ratio.value_ofDecimal] at hfound
  rw [shortest, decimalValue_dropZeros]
  exact hfound

/-- Doubles with the same shortest digits are the same. -/
theorem eq_of_shortest {x y : Dyadic} (hx : x.Positive) (hy : y.Positive)
    (h : decimalValue (shortest x).1 (shortest x).2 = decimalValue (shortest y).1 (shortest y).2) : x = y :=
  Dyadic.Covers.unique hx hy (shortest_covers hx) (h ▸ shortest_covers hy)

-- ---------------------------------------------------------------------------
-- Words
-- ---------------------------------------------------------------------------

/-- The mantissa and the exponent in the word of a double. -/
theorem Dyadic.ofBits_eq (bits : UInt64) :
    Dyadic.ofBits bits =
      if bits.toNat / 2 ^ 52 % 2 ^ 11 = 0 then ⟨bits.toNat % 2 ^ 52, -1074⟩
      else ⟨bits.toNat % 2 ^ 52 + 2 ^ 52, (bits.toNat / 2 ^ 52 % 2 ^ 11 : Nat) - 1075⟩ := by
  have hfield : ((bits >>> 52) &&& 0x7ff).toNat = bits.toNat / 2 ^ 52 % 2 ^ 11 := by
    rw [UInt64.toNat_and, UInt64.toNat_shiftRight, ← Nat.and_two_pow_sub_one_eq_mod, ← Nat.shiftRight_eq_div_pow]
    rfl
  have hfraction : (bits &&& 0xfffffffffffff).toNat = bits.toNat % 2 ^ 52 := by
    rw [UInt64.toNat_and, ← Nat.and_two_pow_sub_one_eq_mod]
    rfl
  rw [ofBits, hfield, hfraction]
  rfl

theorem Dyadic.ofBits_positive {bits : UInt64} (h : (Dyadic.ofBits bits).mantissa ≠ 0) :
    (Dyadic.ofBits bits).Positive := by
  rw [ofBits_eq] at h ⊢
  split at h
  · rename_i hfield
    rw [if_pos hfield]
    exact ⟨Nat.pos_of_ne_zero h, by dsimp only; omega, Int.le_refl _, .inl rfl⟩
  · rename_i hfield
    rw [if_neg hfield]
    exact ⟨Nat.pos_of_ne_zero h, by dsimp only; omega, by dsimp only; omega, .inr (by dsimp only; omega)⟩

/-- There is only one zero, apart from its sign. -/
theorem Dyadic.ofBits_eq_zero {bits : UInt64} (h : (Dyadic.ofBits bits).mantissa = 0) :
    Dyadic.ofBits bits = ⟨0, -1074⟩ := by
  rw [ofBits_eq] at h ⊢
  split at h
  · rename_i hfield
    rw [if_pos hfield]
    exact congrArg (Dyadic.mk · _) h
  · exact absurd h (Nat.succ_ne_zero _)

/-- Apart from the sign, the word is what the mantissa and the exponent say. -/
theorem Dyadic.ofBits_inj {b c : UInt64} (hsign : b >>> 63 = c >>> 63) (h : Dyadic.ofBits b = Dyadic.ofBits c) :
    b = c := by
  have hsign : b.toNat / 2 ^ 63 = c.toNat / 2 ^ 63 := by
    have hshifted := congrArg UInt64.toNat hsign
    rw [UInt64.toNat_shiftRight, UInt64.toNat_shiftRight] at hshifted
    rwa [← Nat.shiftRight_eq_div_pow, ← Nat.shiftRight_eq_div_pow]
  rw [ofBits_eq, ofBits_eq] at h
  apply UInt64.toNat_inj.mp
  split at h <;> split at h
  all_goals
    obtain ⟨hmantissa, hexponent⟩ := Dyadic.mk.inj h
    omega

end Rill.Decimal
