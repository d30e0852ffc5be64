-- SUMMARY: Equality of floats, and the integers that come back from the floats they are widened to.
import Mathlib
import Rill.Value

/-!
# Floats by sign, mantissa and exponent

A float is determined by what its word holds, so that equal floats are the same but for the sign of zero. An
integer of at most 53 significant bits is a float: it comes back from the one that it is widened to.
-/

namespace Rill

open Float.Model Float.Model.UnpackedFloat

-- ---------------------------------------------------------------------------
-- Words
-- ---------------------------------------------------------------------------

theorem toBitVec_ofBitVec (b : BitVec 1) : (Sign.ofBitVec b).toBitVec = b := by
  revert b
  decide

/-- A word is put together from its sign, its exponent and its mantissa. -/
theorem packComponents_unpack (b : BitVec Format.binary64.numBits) :
    packComponents Format.binary64 (Sign.ofBitVec (unpackSign b)) (unpackExponent b) (unpackMantissa b) = b := by
  rw [packComponents, toBitVec_ofBitVec]
  refine BitVec.eq_of_getLsbD_eq fun i hi => ?_
  simp only [BitVec.getLsbD_append, unpackSign, unpackExponent, unpackMantissa, BitVec.getLsbD_cast,
    BitVec.getLsbD_extractLsb]
  have hi : i < 64 := hi
  split
  · have hin : i < 52 - 1 - 0 + 1 := by omega
    simp [hin]
  · split
    · have hin : i - 52 < 52 + 11 - 1 - 52 + 1 := by omega
      have hi : 52 + (i - 52) = i := by omega
      simp [hin, hi]
    · have hin : i - 52 - 11 < 52 + 11 - (52 + 11) + 1 := by omega
      have hi : 52 + 11 + (i - 52 - 11) = i := by omega
      simp [hin, hi]

theorem implicit_append (v : BitVec 52) : (1#1 ++ v).toNat = 2 ^ 52 + v.toNat := by
  rw [BitVec.toNat_append, ← Nat.shiftLeft_add_eq_or_of_lt v.isLt]
  simp [Nat.shiftLeft_eq]

theorem log2_of_lt {m : Nat} (hlow : 2 ^ 52 ≤ m) (hhigh : m < 2 ^ 53) : m.log2 = 52 :=
  (Nat.log2_eq_iff (by omega)).mpr ⟨hlow, hhigh⟩

/-- A mantissa of full precision stands in its word without its highest bit. -/
theorem pack_normal {s : Sign} {m : Nat} {e : Int} (hm : 0 < m) (hlog : m.log2 = 52) (hlow : -1074 ≤ e)
    (hhigh : e ≤ 971) :
    UnpackedFloat.pack Format.binary64 (.finite s m e hm) =
      packComponents Format.binary64 s (BitVec.ofNat _ (e + 1075).toNat) (BitVec.ofNat _ m) := by
  have hbias : e + ((Format.binary64.exponentBias : Nat) : Int) +
      (Format.binary64.mantissaBitsWithoutImplicit : Nat) = e + 1075 := by
    change e + 1023 + 52 = e + 1075
    omega
  have hfits : ¬2 ^ Format.binary64.exponentBits ≤ (e + 1075).toNat + 1 := by
    change ¬2 ^ 11 ≤ _
    omega
  have hnormal : m.log2 + 1 = Format.binary64.mantissaBits := by
    change _ = 53
    omega
  simp only [UnpackedFloat.pack, hbias]
  rw [if_neg hfits, if_pos hnormal]

/-- A smaller mantissa has the smallest exponent. -/
theorem pack_subnormal {s : Sign} {m : Nat} {hm : 0 < m} (hhigh : m < 2 ^ 52) :
    UnpackedFloat.pack Format.binary64 (.finite s m (-1074) hm) =
      packComponents Format.binary64 s 0#_ (BitVec.ofNat _ m) := by
  have hnormal : ¬m.log2 + 1 = Format.binary64.mantissaBits := by
    change ¬_ = 53
    have := (Nat.log2_lt (by omega)).mpr hhigh
    omega
  simp only [UnpackedFloat.pack]
  rw [if_neg (by decide), if_neg hnormal]

/-- A word comes back from what it holds. -/
theorem pack_unpack (x : Float.Model) : Float.Model.pack x.unpack = x := by
  obtain ⟨⟨b⟩, hvalid⟩ := x
  change BitVec Format.binary64.numBits at b
  have hwhole := packComponents_unpack b
  suffices h : UnpackedFloat.pack Format.binary64 (UnpackedFloat.unpack Format.binary64 b) = b by
    simp only [Float.Model.pack, Float.Model.unpack, Float.Model.mk.injEq]
    exact congrArg UInt64.ofBitVec h
  have hmantissa : (unpackMantissa b).toNat < 2 ^ 52 := (unpackMantissa b).isLt
  simp only [UnpackedFloat.unpack]
  split
  · rename_i hexponent
    split
    · rename_i hzero
      rw [hexponent, hzero] at hwhole
      exact hwhole
    · exact (hvalid.eq_packedNaN hexponent ‹_›).symm
  · rename_i hinfinite
    split
    · rename_i hexponent
      split
      · rename_i hzero
        rw [hexponent, hzero] at hwhole
        exact hwhole
      · rw [hexponent] at hwhole ⊢
        refine (pack_subnormal hmantissa).trans ?_
        rw [BitVec.ofNat_toNat, BitVec.setWidth_eq]
        exact hwhole
    · rename_i hzero
      have hexponent : (unpackExponent b).toNat ≠ 2047 := fun heq => hinfinite (BitVec.eq_of_toNat_eq heq)
      have hbound : (unpackExponent b).toNat < 2 ^ 11 := (unpackExponent b).isLt
      have hpositive : (unpackExponent b).toNat ≠ 0 := fun heq => hzero (BitVec.eq_of_toNat_eq heq)
      have himplicit : (1#1 ++ unpackMantissa b).toNat = 2 ^ 52 + (unpackMantissa b).toNat := implicit_append _
      have hbias : ((unpackExponent b).toNat : Int) -
          ((Format.binary64.exponentBias : Nat) + (Format.binary64.mantissaBitsWithoutImplicit : Nat) : Int) =
          (unpackExponent b).toNat - 1075 := rfl
      rw [hbias, pack_normal _ (log2_of_lt (by omega) (by omega)) (by omega) (by omega)]
      have hexponent' : BitVec.ofNat 11 ((unpackExponent b).toNat - 1075 + 1075 : Int).toNat = unpackExponent b := by
        rw [Int.sub_add_cancel, Int.toNat_natCast, BitVec.ofNat_toNat, BitVec.setWidth_eq]
      have hmantissa' : BitVec.ofNat 52 (1#1 ++ unpackMantissa b).toNat = unpackMantissa b := by
        refine BitVec.eq_of_toNat_eq ?_
        rw [BitVec.toNat_ofNat, himplicit, Nat.add_mod_left, Nat.mod_eq_of_lt hmantissa]
      exact (congr (congrArg (packComponents Format.binary64 _) hexponent') hmantissa').trans hwhole

theorem unpackSign_packComponents {spec : Format} {s : Sign} {e : BitVec spec.exponentBits}
    {m : BitVec spec.mantissaBitsWithoutImplicit} : unpackSign (packComponents spec s e m) = s.toBitVec := by
  refine BitVec.eq_of_getLsbD_eq fun i hi => ?_
  obtain rfl : i = 0 := by omega
  simp [unpackSign, packComponents, BitVec.getLsbD_append, BitVec.getElem_append]

/-- A float of full precision holds what it was put together from. -/
theorem unpack_pack {s : Sign} {m : Nat} {e : Int} {hm : 0 < m} (hlog : m.log2 = 52) (hlow : -1074 ≤ e)
    (hhigh : e ≤ 971) : (Float.Model.pack (.finite s m e hm)).unpack = .finite s m e hm := by
  obtain ⟨hm₁, hm₂⟩ := (Nat.log2_eq_iff (by omega)).mp hlog
  have hword : (Float.Model.pack (.finite s m e hm)).toBits.toBitVec =
      packComponents Format.binary64 s (BitVec.ofNat 11 (e + 1075).toNat) (BitVec.ofNat 52 m) :=
    pack_normal hm hlog hlow hhigh
  have hexponent : (BitVec.ofNat 11 (e + 1075).toNat).toNat = (e + 1075).toNat := by
    rw [BitVec.toNat_ofNat, Nat.mod_eq_of_lt (by omega)]
  have hfinite : BitVec.ofNat 11 (e + 1075).toNat ≠ -1#11 := by
    intro heq
    rw [heq] at hexponent
    change 2047 = _ at hexponent
    omega
  have hnormal : BitVec.ofNat 11 (e + 1075).toNat ≠ 0#11 := by
    intro heq
    rw [heq] at hexponent
    change 0 = _ at hexponent
    omega
  have hmantissa : (1#1 ++ BitVec.ofNat 52 m).toNat = m := by
    rw [implicit_append, BitVec.toNat_ofNat]
    omega
  rw [Float.Model.unpack, hword, UnpackedFloat.unpack]
  simp only [unpackExponent_packComponents, unpackMantissa_packComponents, unpackSign_packComponents]
  rw [if_neg hfinite, if_neg hnormal]
  congr 1
  · cases s <;> rfl
  · change ((BitVec.ofNat 11 (e + 1075).toNat).toNat : Int) - (1023 + 52) = e
    rw [hexponent]
    omega

-- ---------------------------------------------------------------------------
-- Equality
-- ---------------------------------------------------------------------------

/-- Two floats compare as equal if they hold the same, or are both zero. -/
theorem compare_eq {u v : UnpackedFloat} :
    u.compare v = some .eq ↔ (∃ s s', u = .zero s ∧ v = .zero s') ∨ (u = v ∧ u ≠ .notANumber) := by
  cases u with
  | notANumber => cases v <;> simp [UnpackedFloat.compare]
  | infinity s => cases v with
    | infinity s' => cases s <;> cases s' <;> simp [UnpackedFloat.compare, compare]
    | _ => cases s <;> simp [UnpackedFloat.compare]
  | zero s => cases v with
    | infinity s' => cases s' <;> simp [UnpackedFloat.compare]
    | finite s' => cases s' <;> simp [UnpackedFloat.compare]
    | _ => simp [UnpackedFloat.compare]
  | finite s m e => cases v with
    | infinity s' => cases s' <;> simp [UnpackedFloat.compare]
    | finite s' m' e' =>
      cases s <;> cases s' <;>
        simp [UnpackedFloat.compare, Ordering.then_eq_eq, Std.LawfulEqCmp.compare_eq_iff_eq, and_comm]
    | zero s' => cases s <;> simp [UnpackedFloat.compare]
    | notANumber => simp [UnpackedFloat.compare]


/-- Equal floats are both zero, or the same. -/
theorem float_beq_iff {x y : Float} : (x == y) = true ↔
    (∃ s s', x.toModel.unpack = .zero s ∧ y.toModel.unpack = .zero s') ∨ (x = y ∧ x.isNaN = false) := by
  have hcompare : (x == y) = true ↔ x.toModel.unpack.compare y.toModel.unpack = some .eq := by
    change (x.toModel.unpack.compare y.toModel.unpack == some .eq) = true ↔ _
    exact beq_iff_eq
  have hnan : x.isNaN = false ↔ x.toModel.unpack ≠ .notANumber := by
    change x.toModel.unpack.isNaN = false ↔ _
    cases x.toModel.unpack <;> simp [UnpackedFloat.isNaN]
  rw [hcompare, compare_eq, hnan]
  refine or_congr_right (and_congr_left fun _ => ⟨fun heq => ?_, fun heq => heq ▸ rfl⟩)
  have hmodel : x.toModel = y.toModel := by
    rw [← pack_unpack x.toModel, heq, pack_unpack]
  cases x
  cases y
  exact congrArg _ hmodel

theorem toBits_inj {x y : Float} (h : x.toBits = y.toBits) : x = y := by
  obtain ⟨⟨a, _⟩⟩ := x
  obtain ⟨⟨b, _⟩⟩ := y
  obtain rfl : a = b := h
  rfl

theorem float_beq_self {x : Float} (hx : x.isNaN = false) : (x == x) = true :=
  float_beq_iff.mpr (.inr ⟨rfl, hx⟩)

theorem float_beq_symm {x y : Float} (h : (x == y) = true) : (y == x) = true := by
  rcases float_beq_iff.mp h with ⟨s, s', hx, hy⟩ | ⟨rfl, hnan⟩
  · exact float_beq_iff.mpr (.inl ⟨s', s, hy, hx⟩)
  · exact h

theorem float_beq_trans {x y z : Float} (hxy : (x == y) = true) (hyz : (y == z) = true) : (x == z) = true := by
  rcases float_beq_iff.mp hxy with ⟨s, s', hx, hy⟩ | ⟨rfl, -⟩
  · rcases float_beq_iff.mp hyz with ⟨t, t', -, hz⟩ | ⟨rfl, -⟩
    · exact float_beq_iff.mpr (.inl ⟨s, t', hx, hz⟩)
    · exact hxy
  · exact hyz

/-- Either zero denotes the integer zero. -/
theorem integralOf_zero {x : Float} {s : Sign} (hx : x.toModel.unpack = .zero s) :
    truncate x = 0 ∧ integralOf x = some 0 := by
  obtain rfl : x = .ofModel (Float.Model.pack (.zero s)) := by
    rw [← hx, pack_unpack]
  cases s <;> decide +kernel

/-- Equal floats denote the same integer, if any. -/
theorem float_beq_integral {x y : Float} (h : (x == y) = true) :
    truncate x = truncate y ∧ integralOf x = integralOf y := by
  rcases float_beq_iff.mp h with ⟨s, s', hx, hy⟩ | ⟨rfl, -⟩
  · obtain ⟨hx, hx'⟩ := integralOf_zero hx
    obtain ⟨hy, hy'⟩ := integralOf_zero hy
    exact ⟨hx.trans hy.symm, hx'.trans hy'.symm⟩
  · exact ⟨rfl, rfl⟩

-- ---------------------------------------------------------------------------
-- Rounding
-- ---------------------------------------------------------------------------

/-- Nothing is lost by dropping low bits that are not set. -/
theorem shiftRight_exact {m k : Nat} (hdvd : 2 ^ k ∣ m) :
    (ExtendedMantissa.mk m false false) >>> k = ⟨m / 2 ^ k, false, false⟩ := by
  induction k with
  | zero => simp [HShiftRight.hShiftRight, Nat.repeat]
  | succ k ih =>
    obtain ⟨q, rfl⟩ := hdvd
    have hdiv : 2 ^ (k + 1) * q / 2 ^ k = 2 * q := by
      rw [Nat.pow_succ, Nat.mul_assoc, Nat.mul_div_cancel_left _ (Nat.two_pow_pos k)]
    have hdiv' : 2 ^ (k + 1) * q / 2 ^ (k + 1) = q := Nat.mul_div_cancel_left _ (Nat.two_pow_pos _)
    have hshift := ih ⟨2 * q, by rw [Nat.pow_succ, Nat.mul_assoc]⟩
    change ExtendedMantissa.shiftRightOne (ExtendedMantissa.mk _ false false >>> k) = _
    rw [hshift, hdiv, hdiv']
    simp [ExtendedMantissa.shiftRightOne]

theorem shiftRight_mantissa (em : ExtendedMantissa) (k : Nat) : (em >>> k).mantissa = em.mantissa / 2 ^ k := by
  induction k with
  | zero => simp [HShiftRight.hShiftRight, Nat.repeat]
  | succ k ih =>
    change (em >>> k).mantissa / 2 = _
    rw [ih, Nat.div_div_eq_div_mul, Nat.pow_succ]

/-- The exponent that a mantissa has in a float. -/
theorem targetExponent_eq {m : Nat} {e : Int} (hlow : -1022 ≤ m.log2 + e) :
    Format.binary64.targetExponent (totalExponent m e) = m.log2 + e - 52 := by
  change max ((m.log2 : Int) + 1 + e - 53) (3 - 1024 - 53) = _
  omega

/-- The mantissa of full precision of a positive integer. -/
def fullMantissa (a : Nat) : Nat := a * 2 ^ (52 - a.log2) / 2 ^ (a.log2 - 52)

section Integers

variable {a : Nat}

theorem log2_shifted (ha : 0 < a) (k : Nat) : (a * 2 ^ k).log2 = a.log2 + k := by
  have hbounds := (Nat.log2_eq_iff (Nat.pos_iff_ne_zero.mp ha)).mp rfl
  have hpos : 0 < a * 2 ^ k := Nat.mul_pos ha (Nat.two_pow_pos k)
  refine (Nat.log2_eq_iff (Nat.pos_iff_ne_zero.mp hpos)).mpr ⟨?_, ?_⟩
  · rw [Nat.pow_add]
    exact Nat.mul_le_mul_right _ hbounds.1
  · rw [Nat.add_right_comm, Nat.pow_add]
    exact Nat.mul_lt_mul_of_pos_right hbounds.2 (Nat.two_pow_pos k)

theorem dvd_shifted (hdvd : 2 ^ (a.log2 - 52) ∣ a) : 2 ^ (a.log2 - 52) ∣ a * 2 ^ (52 - a.log2) :=
  Nat.dvd_mul_right_of_dvd hdvd _

theorem log2_fullMantissa (ha : 0 < a) (hdvd : 2 ^ (a.log2 - 52) ∣ a) : (fullMantissa a).log2 = 52 := by
  obtain ⟨q, hq⟩ := dvd_shifted hdvd
  have hpos : 0 < 2 ^ (a.log2 - 52) * q := hq ▸ Nat.mul_pos ha (Nat.two_pow_pos _)
  have hqpos : 0 < q := Nat.pos_of_mul_pos_left hpos
  have hfull : fullMantissa a = q := by
    rw [fullMantissa, hq, Nat.mul_div_cancel_left _ (Nat.two_pow_pos _)]
  have hlog := log2_shifted ha (52 - a.log2)
  rw [hq, Nat.mul_comm, log2_shifted hqpos] at hlog
  rw [hfull]
  omega

/-- An integer of at most 53 significant bits loses nothing when it is rounded. -/
theorem round_exact {s : Sign} (ha : 0 < a) (hdvd : 2 ^ (a.log2 - 52) ∣ a) (hm : 0 < fullMantissa a) :
    UnpackedFloat.round Format.binary64 s a 0 = .finite s (fullMantissa a) ((a.log2 : Int) - 52) hm := by
  have hfull := log2_fullMantissa ha hdvd
  have htarget : Format.binary64.targetExponent (totalExponent a 0) = (a.log2 : Int) - 52 := by
    rw [targetExponent_eq (by omega)]
    omega
  have hdown : (0 - ((a.log2 : Int) - 52)).toNat = 52 - a.log2 := by omega
  have hfirst : shiftToTargetExponent Format.binary64 (a <<< (52 - a.log2)) (0 - ((52 - a.log2 : Nat) : Int)) .exact =
      (⟨fullMantissa a, false, false⟩, (a.log2 : Int) - 52) := by
    have hshifted : a <<< (52 - a.log2) = a * 2 ^ (52 - a.log2) := Nat.shiftLeft_eq a _
    have htarget' : Format.binary64.targetExponent
        (totalExponent (a * 2 ^ (52 - a.log2)) (0 - ((52 - a.log2 : Nat) : Int))) = (a.log2 : Int) - 52 := by
      rw [targetExponent_eq (by rw [log2_shifted ha]; omega), log2_shifted ha]
      omega
    have hup : ((a.log2 : Int) - 52 - (0 - ((52 - a.log2 : Nat) : Int))).toNat = a.log2 - 52 := by omega
    rw [shiftToTargetExponent, hshifted, htarget', shiftToExponent, hup]
    simp only [ExtendedMantissa.ofMantissaAndAccuracy, shiftRight_exact (dvd_shifted hdvd)]
    exact Prod.ext rfl (by simp only; omega)
  have hsecond : shiftToTargetExponent Format.binary64 (fullMantissa a) ((a.log2 : Int) - 52) .exact =
      (⟨fullMantissa a, false, false⟩, (a.log2 : Int) - 52) := by
    have htarget' : Format.binary64.targetExponent (totalExponent (fullMantissa a) ((a.log2 : Int) - 52)) =
        (a.log2 : Int) - 52 := by
      rw [targetExponent_eq (by omega), hfull]
      omega
    rw [shiftToTargetExponent, htarget', shiftToExponent, Int.sub_self]
    simp [ExtendedMantissa.ofMantissaAndAccuracy, HShiftRight.hShiftRight, Nat.repeat]
  rw [UnpackedFloat.round]
  simp only [htarget, decreaseExponent, hdown]
  rw [roundWithAccuracy]
  simp only [hfirst, ExtendedMantissa.roundedMantissa, ExtendedMantissa.accuracy, Accuracy.roundToNearestEven, hsecond]
  exact dif_neg (Nat.pos_iff_ne_zero.mp hm)

/-- The float that an integer of at most 53 significant bits is rounded to has the value of the integer. -/
theorem roundToInt_fullMantissa {s : Sign} (hdvd : 2 ^ (a.log2 - 52) ∣ a) :
    roundToInt s (fullMantissa a) ((a.log2 : Int) - 52) = s.apply a := by
  have hup : ((a.log2 : Int) - 52 - 0).toNat = a.log2 - 52 := by omega
  have hdown : (0 - ((a.log2 : Int) - 52 - ((a.log2 - 52 : Nat) : Int))).toNat = 52 - a.log2 := by omega
  rw [roundToInt]
  simp only [decreaseExponent, shiftToExponent, hup, hdown, shiftRight_mantissa, Nat.shiftLeft_eq,
    ExtendedMantissa.ofMantissaAndAccuracy, fullMantissa]
  rw [Nat.div_mul_cancel (dvd_shifted hdvd), Nat.mul_div_cancel _ (Nat.two_pow_pos _)]

end Integers


-- ---------------------------------------------------------------------------
-- Integers that are floats
-- ---------------------------------------------------------------------------

/-- At most 53 bits of the integer are significant. -/
def FewBits (n : Int64) : Prop := ∃ (m : Int) (k : Nat), n.toInt = m * 2 ^ k ∧ m.natAbs < 2 ^ 53

theorem FewBits.dvd {n : Int64} (hn : FewBits n) : 2 ^ (n.toInt.natAbs.log2 - 52) ∣ n.toInt.natAbs := by
  obtain ⟨m, k, hk, hm⟩ := hn
  have habs : n.toInt.natAbs = m.natAbs * 2 ^ k := by
    rw [hk, Int.natAbs_mul, Int.natAbs_pow]
    rfl
  rcases Nat.eq_zero_or_pos m.natAbs with hzero | hpos
  · rw [habs, hzero, Nat.zero_mul]
    exact Nat.dvd_zero _
  · have hlog : m.natAbs.log2 < 53 := (Nat.log2_lt (Nat.pos_iff_ne_zero.mp hpos)).mpr hm
    rw [habs, log2_shifted hpos]
    exact Nat.dvd_trans (Nat.pow_dvd_pow 2 (by omega)) (Nat.dvd_mul_left _ _)

theorem fewBits_of_small {n : Int64} (hn : n.toInt.natAbs ≤ 2 ^ 53) : FewBits n := by
  by_cases hlt : n.toInt.natAbs < 2 ^ 53
  · exact ⟨n.toInt, 0, by simp, hlt⟩
  · rcases Int.natAbs_eq n.toInt with hpos | hneg
    · exact ⟨1, 53, by omega, by decide⟩
    · exact ⟨-1, 53, by omega, by decide⟩

theorem ofIntClamp_toInt (n : Int64) : Int64.ofIntClamp n.toInt = n := by
  exact Int64.ofIntLE_eq_ofIntClamp.symm.trans (Int64.ofIntLE_toInt n)

/-- An integer of at most 53 significant bits comes back from the float that it is widened to. -/
theorem truncate_widen {n : Int64} (hn : FewBits n) : truncate (widen n) = n := by
  have hdvd := hn.dvd
  rcases Nat.eq_zero_or_pos n.toInt.natAbs with hzero | hpos
  · obtain rfl : n = 0 := Int64.toInt_inj.mp (Int.natAbs_eq_zero.mp hzero)
    decide +kernel
  · have hfull := log2_fullMantissa hpos hdvd
    have hm : 0 < fullMantissa n.toInt.natAbs := by
      refine Nat.pos_of_ne_zero fun hzero => ?_
      rw [hzero] at hfull
      cases hfull
    have hlog : n.toInt.natAbs.log2 < 64 := by
      have hlow := Int64.le_toInt n
      have hhigh := Int64.toInt_lt n
      exact (Nat.log2_lt (Nat.pos_iff_ne_zero.mp hpos)).mpr (by omega)
    have hheld (s : Sign) : (Float.Model.pack (UnpackedFloat.round Format.binary64 s n.toInt.natAbs 0)).toInt64 =
        Int64.ofIntClamp (s.apply n.toInt.natAbs) := by
      rw [round_exact hpos hdvd hm, Float.Model.toInt64, unpack_pack hfull (by omega) (by omega), UnpackedFloat.toInt64,
        UnpackedFloat.toInt, roundToInt_fullMantissa hdvd]
    change (Float.Model.pack (UnpackedFloat.normalize Format.binary64 n.toInt 0 .positive)).toInt64 = n
    rw [UnpackedFloat.normalize]
    rcases Int.lt_trichotomy n.toInt 0 with hneg | hzero | hgt
    · have habs : (-n.toInt).toNat = n.toInt.natAbs := by omega
      have hvalue : Sign.negative.apply n.toInt.natAbs = n.toInt := by
        change -(n.toInt.natAbs : Int) = n.toInt
        omega
      rw [Int.compare_eq_lt.mpr hneg]
      simp only [habs, hheld, hvalue, ofIntClamp_toInt]
    · omega
    · have habs : n.toInt.toNat = n.toInt.natAbs := by omega
      have hvalue : Sign.positive.apply n.toInt.natAbs = n.toInt := by
        change (n.toInt.natAbs : Int) = n.toInt
        omega
      rw [Int.compare_eq_gt.mpr hgt]
      simp only [habs, hheld, hvalue, ofIntClamp_toInt]

end Rill
