-- SUMMARY: Powers of integers are exact if they fit and the exponent is one of 32 bits.
import Rill.Proofs.Loops.Rounds

/-!
# Powers

A power of two integers is computed exactly where it can be, and otherwise in floats. Exponents are cut to 32 bits
first. For a base beyond one that loses nothing, since such a power is beyond a word with an exponent of 63 already;
the powers of 0, 1 and -1 always fit, but with a larger exponent they become floats.
-/

namespace Rill

open Decimal

/-- The largest power of a base beyond one that fits has an exponent of 63. -/
theorem not_isWord_pow {b : Int} {e : Nat} (hb : 1 < b.natAbs) (he : 63 < e) : ¬IsWord (b ^ e) := by
  rintro ⟨hlo, hhi⟩
  have hsize : 2 ^ 64 ≤ (b ^ e).natAbs := by
    calc 2 ^ 64
        ≤ 2 ^ e := Nat.pow_le_pow_right (by decide) he
      _ ≤ b.natAbs ^ e := Nat.pow_le_pow_left hb e
      _ = (b ^ e).natAbs := (Int.natAbs_pow b e).symm
  omega

/-- The powers of 0, 1 and -1. -/
theorem pow_of_natAbs_le_one {b : Int} (hb : b.natAbs ≤ 1) (e : Nat) :
    b ^ e = if b = -1 ∧ e % 2 = 0 then 1 else if e = 0 then 1 else b := by
  obtain rfl | rfl | rfl : b = 0 ∨ b = 1 ∨ b = -1 := by omega
  · cases e <;> simp
  · simp
  · rcases Nat.even_or_odd e with he | he
    · simp [he.neg_one_pow, Nat.even_iff.mp he]
    · have hodd := Nat.odd_iff.mp he
      have hpos : e ≠ 0 := by omega
      simp [he.neg_one_pow, hodd, hpos]

/-- The two tests of the exponent let through what fits. -/
theorem intPower?_eq (base exponent : Int64) :
    intPower? base exponent =
      if 0 ≤ exponent.toInt ∧ exponent.toInt < 0x100000000 then word? (base.toInt ^ exponent.toInt.toNat)
      else none := by
  unfold intPower?
  by_cases hexponent : 0 ≤ exponent.toInt ∧ exponent.toInt < 0x100000000
  · have hinside : ¬(exponent.toInt < 0 ∨ exponent.toInt ≥ 0x100000000) := by omega
    obtain ⟨e, he⟩ := Int.eq_ofNat_of_zero_le hexponent.1
    simp only [if_neg hinside, if_pos hexponent]
    by_cases hbase : base.toInt.natAbs ≤ 1
    · have hparity : exponent.toInt % 2 = 0 ↔ e % 2 = 0 := by omega
      have hzero : exponent.toInt = 0 ↔ e = 0 := by omega
      simp only [if_pos hbase, hparity, hzero]
      rw [he, Int.toNat_natCast, pow_of_natAbs_le_one hbase]
    · rw [if_neg hbase]
      split
      · next hlarge =>
        rw [word?_eq, if_neg (not_isWord_pow (Nat.lt_of_not_le hbase) (by omega))]
      · rfl
  · have houtside : exponent.toInt < 0 ∨ exponent.toInt ≥ 0x100000000 := by omega
    simp only [if_pos houtside, if_neg hexponent]

namespace Heap

variable {h : Heap} {v w : Value} {a b : Int64}

theorem binary_pow_ints (hv : h.resolve v = .int a) (hw : h.resolve w = .int b) :
    h.binary .pow v w = match intPower? a b with
      | some n => .ok (.int n)
      | none => .ok (.float (widen a ^ widen b)) := by
  simp only [binary, power, operands, hv, hw, bind, Except.bind]
  cases intPower? a b <;> rfl

end Heap

/-- Powers of integers are exact whenever they fit. A power with an exponent that is not negative is the integer if it
is one of a word and a float otherwise, provided that the exponent has at most 32 bits or the base is beyond one; any
other power is a float. -/
theorem powers_of_integers {h : Heap} {v w : Value} {a b : Int64} (hv : h.resolve v = .int a)
    (hw : h.resolve w = .int b) :
    (0 ≤ b.toInt → b.toInt < 0x100000000 ∨ 1 < a.toInt.natAbs →
      h.binary .pow v w = .ok (if IsWord (a.toInt ^ b.toInt.toNat) then .int (Int64.ofInt (a.toInt ^ b.toInt.toNat))
        else .float (widen a ^ widen b))) ∧
    (b.toInt < 0 ∨ 0x100000000 ≤ b.toInt → h.binary .pow v w = .ok (.float (widen a ^ widen b))) := by
  rw [Heap.binary_pow_ints hv hw, intPower?_eq]
  constructor
  · intro hpos hexponent
    by_cases hsmall : b.toInt < 0x100000000
    · rw [if_pos ⟨hpos, hsmall⟩, word?_eq]
      by_cases hword : IsWord (a.toInt ^ b.toInt.toNat)
      · rw [if_pos hword, if_pos hword]
      · rw [if_neg hword, if_neg hword]
    · have hword : ¬IsWord (a.toInt ^ b.toInt.toNat) :=
        not_isWord_pow (hexponent.resolve_left hsmall) (by omega)
      rw [if_neg (fun hinside => hsmall hinside.2), if_neg hword]
  · intro houtside
    rw [if_neg (by omega)]

/-- The smallest integer is a power. -/
theorem powers_of_integers_smallest :
    let h : Heap := {}
    h.resolve (.int (-2)) = .int (-2) ∧ h.resolve (.int 63) = .int 63 ∧
      h.binary .pow (.int (-2)) (.int 63) = .ok (.int Int64.minValue) := by
  intro h
  refine ⟨rfl, rfl, ?_⟩
  have hpower := (powers_of_integers (h := h) (v := .int (-2)) (w := .int 63) rfl rfl).1 (by decide) (by decide)
  rw [hpower]
  decide

/-- The first power of one behind the exponents of 32 bits fits, but is a float. -/
example : IsWord (1 ^ 4294967296) ∧ ({} : Heap).binary .pow (.int 1) (.int 4294967296) =
    .ok (.float (widen 1 ^ widen 4294967296)) := ⟨by simp [IsWord], rfl⟩

end Rill
