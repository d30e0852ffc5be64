-- SUMMARY: What the readers of numbers take from a text, and the text of a float determines the float.
import Mathlib.Algebra.Group.Nat.Defs
import Mathlib.Data.List.TakeWhile
import Rill.Decimal.FloatText
import Rill.Decimal.Read
import Rill.Proofs.Comparison.Floats
import Rill.Proofs.Decimals.Shortest
import Rill.Proofs.Json.Scalars

/-!
# Texts of numbers

The digits of a natural number are read as this number, an integer behind its sign too. The reader of floats
takes a decimal from the text first, digits and a power of ten, and rounds it then.

The text of a magnitude, with or without an exponent part, denotes the shortest digits that it is made of:
the reader takes the same number from it. Different magnitudes therefore have different texts, and so do
different floats, because the sign stands in front and the special values are no numbers.
-/

namespace Rill.Decimal

-- ---------------------------------------------------------------------------
-- Digits
-- ---------------------------------------------------------------------------

/-- There are only digits. -/
def AllDigits (cs : List Char) : Prop := ∀ c ∈ cs, c.isDigit = true

variable {cs ds tail : List Char}

theorem AllDigits.append (hcs : AllDigits cs) (hds : AllDigits ds) : AllDigits (cs ++ ds) :=
  List.forall_mem_append.mpr ⟨hcs, hds⟩

theorem AllDigits.take (h : AllDigits cs) (k : Nat) : AllDigits (cs.take k) := fun c hc => h c (List.mem_of_mem_take hc)

theorem AllDigits.drop (h : AllDigits cs) (k : Nat) : AllDigits (cs.drop k) := fun c hc => h c (List.mem_of_mem_drop hc)

theorem allDigits_toDigits (n : Nat) : AllDigits (Nat.toDigits 10 n) := fun _ hc =>
  Nat.isDigit_of_mem_toDigits (by decide) (by decide) hc

theorem allDigits_zeros (n : Nat) : AllDigits (List.replicate n '0') := fun c hc => by
  rw [List.eq_of_mem_replicate hc]
  rfl

theorem ofDigitChars_zeros (k n : Nat) : Nat.ofDigitChars 10 (List.replicate k '0') n = n * 10 ^ k := by
  induction k generalizing n with
  | zero => simp
  | succ k ih =>
    rw [List.replicate_succ, Nat.ofDigitChars_cons, ih, Nat.pow_succ]
    simp [Nat.mul_comm, Nat.mul_assoc]

theorem readDigits_toDigits (n : Nat) : readDigits (Nat.toDigits 10 n) = some n := by
  have hdigits : (Nat.toDigits 10 n).all Char.isDigit = true := List.all_eq_true.mpr (allDigits_toDigits n)
  have hvalue : (Nat.toDigits 10 n).foldl (fun n c => 10 * n + (c.toNat - 48)) 0 = n :=
    Nat.ofDigitChars_ten_toDigits
  rw [readDigits, hvalue, hdigits, if_neg (by simp [Nat.toDigits_ne_nil])]

-- ---------------------------------------------------------------------------
-- Integers
-- ---------------------------------------------------------------------------

theorem splitSign_digits (h : AllDigits cs) : splitSign cs = (false, cs) := by
  unfold splitSign
  split
  · exact absurd (h '-' List.mem_cons_self) (by decide)
  · exact absurd (h '+' List.mem_cons_self) (by decide)
  · rfl

/-- The text of an integer is read as this integer. -/
theorem readInt_toString (n : Int64) : readInt (toString n).toList = some n := by
  have hlow := n.le_toInt
  have hhigh := n.toInt_lt
  have hread := readDigits_toDigits n.toInt.natAbs
  rw [Json.toString_int64]
  by_cases hneg : n.toInt < 0
  · have hsplit : splitSign ('-' :: Nat.toDigits 10 n.toInt.natAbs) = (true, Nat.toDigits 10 n.toInt.natAbs) := rfl
    have habs : (-(n.toInt.natAbs : Int)) = n.toInt := by omega
    have hrange : n.toInt.natAbs ≤ 0x8000000000000000 := by omega
    rw [if_pos hneg]
    simp only [readInt, hsplit, hread, if_true, if_pos hrange, habs, Int64.ofInt_toInt]
  · have hsplit := splitSign_digits (allDigits_toDigits n.toInt.natAbs)
    have habs : ((n.toInt.natAbs : Nat) : Int) = n.toInt := by omega
    have hrange : n.toInt.natAbs < 0x8000000000000000 := by omega
    rw [if_neg hneg]
    simp only [readInt, hsplit, hread, Bool.false_eq_true, if_false, if_pos hrange]
    rw [← Int64.ofInt_eq_ofNat, habs, Int64.ofInt_toInt]

/-- An exponent is read behind its sign, which may be a plus. -/
theorem readExponent_toString (p : Int) (plus : Bool) :
    readExponent ((if p ≥ 0 && plus then "+" else "").toList ++ (toString p).toList) = some p := by
  change readExponent (_ ++ (Int.repr p).toList) = _
  cases p with
  | ofNat n =>
    have hread := readDigits_toDigits n
    have hsplit := splitSign_digits (allDigits_toDigits n)
    have hplus : splitSign ('+' :: Nat.toDigits 10 n) = (false, Nat.toDigits 10 n) := rfl
    cases plus <;> simp [readExponent, Int.repr, hread, hsplit, hplus]
  | negSucc n =>
    have hread := readDigits_toDigits (n + 1)
    have hsplit : splitSign ('-' :: Nat.toDigits 10 (n + 1)) = (true, Nat.toDigits 10 (n + 1)) := rfl
    have hvalue : -((n : Int) + 1) = Int.negSucc n := rfl
    simp [readExponent, Int.repr, hread, hsplit, hvalue, Int.negSucc_not_nonneg]

-- ---------------------------------------------------------------------------
-- Decimals
-- ---------------------------------------------------------------------------

theorem readMantissa_whole (hne : cs ≠ []) (h : AllDigits cs) : readMantissa cs = some (cs, 0) := by
  rw [readMantissa, List.takeWhile_eq_self_iff.mpr h, List.dropWhile_eq_nil_iff.mpr h,
    List.isEmpty_eq_false_iff.mpr hne]
  rfl

theorem readMantissa_point (hne : cs ≠ []) (h : AllDigits cs) (hds : AllDigits ds) :
    readMantissa (cs ++ '.' :: ds) = some (cs ++ ds, ds.length) := by
  have htake : (cs ++ '.' :: ds).takeWhile Char.isDigit = cs := by
    rw [List.takeWhile_append_of_pos h, List.takeWhile_cons_of_neg (by decide), List.append_nil]
  have hdrop : (cs ++ '.' :: ds).dropWhile Char.isDigit = '.' :: ds := by
    rw [List.dropWhile_append_of_pos h, List.dropWhile_cons_of_neg (by decide)]
  have hall : ds.all Char.isDigit = true := List.all_eq_true.mpr hds
  rw [readMantissa, htake, hdrop, List.isEmpty_eq_false_iff.mpr hne]
  simp only [hall, Bool.false_and, Bool.not_false, Bool.and_self, if_true]

/-- The mark of an exponent. -/
def isMark (c : Char) : Bool := c == 'e' || c == 'E'

/-- The decimal in a text, before it is rounded to a float. -/
def readDecimal (cs : List Char) : Option (Nat × Int) :=
  let exponent : Option Int :=
    match cs.dropWhile (!isMark ·) with
    | [] => some 0
    | _ :: tail => readExponent tail
  match readMantissa (cs.takeWhile (!isMark ·)), exponent with
  | some (digits, places), some e => some (Nat.ofDigitChars 10 digits 0, e - places)
  | _, _ => none

/-- An unsigned number is the float nearest to the decimal in it. -/
theorem readMagnitude_eq (cs : List Char) :
    readMagnitude cs = (readDecimal cs).map fun (digits, exponent) => floatOfDecimal digits exponent := by
  simp only [readMagnitude, readDecimal, isMark]
  rcases readMantissa (cs.takeWhile fun c => !(c == 'e' || c == 'E')) with _ | ⟨digits, places⟩
  · rfl
  · rcases cs.dropWhile (fun c => !(c == 'e' || c == 'E')) with _ | ⟨mark, tail⟩
    · rfl
    · dsimp only
      cases readExponent tail <;> rfl

theorem AllDigits.not_mark (h : AllDigits cs) : ∀ c ∈ cs, (!isMark c) = true := by
  intro c hc
  rw [Bool.not_eq_true', Bool.eq_false_iff]
  intro hmark
  have hdigit := h c hc
  rcases (Bool.or_eq_true _ _).mp hmark with heq | heq
  all_goals
    obtain rfl := beq_iff_eq.mp heq
    cases hdigit

theorem not_mark_point (h : AllDigits cs) (hds : AllDigits ds) : ∀ c ∈ cs ++ '.' :: ds, (!isMark c) = true :=
  List.forall_mem_append.mpr ⟨h.not_mark, List.forall_mem_cons.mpr ⟨rfl, hds.not_mark⟩⟩

/-- Without a mark there is no exponent. -/
theorem readDecimal_plain {places : Nat} (hmark : ∀ c ∈ cs, (!isMark c) = true)
    (h : readMantissa cs = some (ds, places)) : readDecimal cs = some (Nat.ofDigitChars 10 ds 0, -(places : Int)) := by
  simp only [readDecimal, List.takeWhile_eq_self_iff.mpr hmark, List.dropWhile_eq_nil_iff.mpr hmark, h, Int.zero_sub]

/-- The exponent stands behind the mark. -/
theorem readDecimal_marked {places : Nat} {e : Int} (hmark : ∀ c ∈ cs, (!isMark c) = true)
    (h : readMantissa cs = some (ds, places)) (hexponent : readExponent tail = some e) :
    readDecimal (cs ++ 'e' :: tail) = some (Nat.ofDigitChars 10 ds 0, e - places) := by
  have htake : (cs ++ 'e' :: tail).takeWhile (!isMark ·) = cs := by
    rw [List.takeWhile_append_of_pos hmark, List.takeWhile_cons_of_neg (by decide), List.append_nil]
  have hdrop : (cs ++ 'e' :: tail).dropWhile (!isMark ·) = 'e' :: tail := by
    rw [List.dropWhile_append_of_pos hmark, List.dropWhile_cons_of_neg (by decide)]
  simp only [readDecimal, htake, hdrop, h, hexponent]

/-- A decimal starts with a digit or a point. -/
theorem readDecimal_none {c : Char} (hmark : isMark c = false) (hdigit : c.isDigit = false) (hpoint : c ≠ '.') :
    readDecimal (c :: cs) = none := by
  have hmantissa (ds : List Char) : readMantissa (c :: ds) = none := by
    have hstop : ¬c.isDigit = true := by rw [hdigit]; exact Bool.false_ne_true
    rw [readMantissa, List.takeWhile_cons_of_neg hstop, List.dropWhile_cons_of_neg hstop]
    split
    · cases ‹_ = []›
    · exact absurd (List.cons.inj ‹_›).1 hpoint
    · rfl
  have htake : (c :: cs).takeWhile (!isMark ·) = c :: cs.takeWhile (!isMark ·) :=
    List.takeWhile_cons_of_pos (by rw [hmark]; rfl)
  simp only [readDecimal, htake, hmantissa]

/-- The text is read as the number. -/
def Denotes (cs : List Char) (q : ℚ) : Prop := ∃ n k, readDecimal cs = some (n, k) ∧ decimalValue n k = q

theorem Denotes.unique {cs : List Char} {q q' : ℚ} (h : Denotes cs q) (h' : Denotes cs q') : q = q' := by
  obtain ⟨n, k, hread, rfl⟩ := h
  obtain ⟨n', k', hread', rfl⟩ := h'
  obtain ⟨rfl, rfl⟩ := Prod.mk.inj (Option.some.inj (hread.symm.trans hread'))
  rfl

-- ---------------------------------------------------------------------------
-- Magnitudes
-- ---------------------------------------------------------------------------

theorem decimalValue_shift (n k : Nat) (e : Int) : decimalValue (n * 10 ^ k) (e - k) = decimalValue n e := by
  rw [decimalValue, decimalValue, zpow_sub₀ (by norm_num), zpow_natCast]
  push_cast
  field_simp

theorem toList_toString (n : Nat) : (toString n).toList = Nat.toDigits 10 n := Nat.toList_repr

theorem toList_zeros (n : Nat) : (zeros n).toList = List.replicate n '0' := String.toList_ofList

/-- Digits on both sides of a point are a decimal. -/
theorem denotes_point {cs ds : List Char} {n : Nat} (hne : cs ≠ []) (hcs : AllDigits cs) (hds : AllDigits ds)
    (hn : Nat.ofDigitChars 10 (cs ++ ds) 0 = n) : Denotes (cs ++ '.' :: ds) (decimalValue n (-(ds.length : Int))) :=
  ⟨n, _, hn ▸ readDecimal_plain (not_mark_point hcs hds) (readMantissa_point hne hcs hds), rfl⟩

/-- An exponent that is not negative becomes zeros behind the digits. -/
theorem denotes_raised (form : FloatForm) (d k : Nat) :
    Denotes (Nat.toDigits 10 d ++ List.replicate k '0' ++ (if form.keepsPoint then ".0" else "").toList)
      (decimalValue d k) := by
  have hwhole : AllDigits (Nat.toDigits 10 d ++ List.replicate k '0') :=
    (allDigits_toDigits d).append (allDigits_zeros k)
  have hne : Nat.toDigits 10 d ++ List.replicate k '0' ≠ [] :=
    List.append_ne_nil_of_left_ne_nil Nat.toDigits_ne_nil _
  have hvalue : Nat.ofDigitChars 10 (Nat.toDigits 10 d ++ List.replicate k '0') 0 = d * 10 ^ k := by
    rw [Nat.ofDigitChars_append, Nat.ofDigitChars_ten_toDigits, ofDigitChars_zeros]
  have hshift : decimalValue (d * 10 ^ k) 0 = decimalValue d k := by
    simpa using decimalValue_shift d k k
  rw [← hshift]
  split
  · have hzero :
        Nat.ofDigitChars 10 (Nat.toDigits 10 d ++ List.replicate k '0' ++ ['0']) 0 = d * 10 ^ k * 10 ^ 1 := by
      rw [Nat.ofDigitChars_append, hvalue]
      exact ofDigitChars_zeros 1 _
    have hpoint := denotes_point hne hwhole (allDigits_zeros 1) hzero
    rwa [show (-(List.replicate 1 '0').length : Int) = 0 - (1 : Nat) from rfl, decimalValue_shift] at hpoint
  · refine ⟨d * 10 ^ k, 0, ?_, rfl⟩
    rw [String.toList_empty, List.append_nil, ← hvalue]
    exact readDecimal_plain hwhole.not_mark (readMantissa_whole hne hwhole)

/-- A point among the digits lowers the exponent by the number of digits behind it. -/
theorem denotes_parted {d whole : Nat} (hwhole : 0 < whole) :
    Denotes ((Nat.toDigits 10 d).take whole ++ '.' :: (Nat.toDigits 10 d).drop whole)
      (decimalValue d (-((Nat.toDigits 10 d).drop whole).length)) := by
  have hdigits := allDigits_toDigits d
  have hne : (Nat.toDigits 10 d).take whole ≠ [] := by
    rw [Ne, List.take_eq_nil_iff, not_or]
    exact ⟨hwhole.ne', Nat.toDigits_ne_nil⟩
  refine denotes_point hne (hdigits.take whole) (hdigits.drop whole) ?_
  rw [List.take_append_drop, Nat.ofDigitChars_ten_toDigits]

/-- Zeros between the point and the digits lower the exponent further. -/
theorem denotes_lowered (d k : Nat) :
    Denotes ('0' :: '.' :: (List.replicate k '0' ++ Nat.toDigits 10 d))
      (decimalValue d (-(List.replicate k '0' ++ Nat.toDigits 10 d).length)) := by
  have hfraction : AllDigits (List.replicate k '0' ++ Nat.toDigits 10 d) :=
    (allDigits_zeros k).append (allDigits_toDigits d)
  refine denotes_point (List.cons_ne_nil '0' []) (allDigits_zeros 1) hfraction ?_
  rw [Nat.ofDigitChars_append, Nat.ofDigitChars_append, ofDigitChars_zeros]
  exact (congrArg (Nat.ofDigitChars 10 (Nat.toDigits 10 d)) (Nat.zero_mul _)).trans Nat.ofDigitChars_ten_toDigits

/-- A text without an exponent part denotes its digits, with or without a point. -/
theorem denotes_positional (form : FloatForm) (d : Nat) (e : Int) :
    Denotes (positional form (toString d) e).toList (decimalValue d e) := by
  have hlength : (toString d).length = (Nat.toDigits 10 d).length := by rw [← String.length_toList, toList_toString]
  rw [positional]
  dsimp only
  split
  · obtain ⟨k, rfl⟩ := Int.eq_ofNat_of_zero_le ‹_›
    rw [String.toList_append, String.toList_append, toList_toString, toList_zeros, Int.toNat_natCast]
    exact denotes_raised form d k
  · split
    · rename_i hneg hpos
      obtain ⟨whole, hwhole⟩ := Int.eq_ofNat_of_zero_le (Int.le_of_lt hpos)
      have hback : e = -(((Nat.toDigits 10 d).drop whole).length : Int) := by
        rw [List.length_drop]
        omega
      have hparted := denotes_parted (d := d) (show 0 < whole by omega)
      rw [← hback] at hparted
      simp only [hwhole, Int.toNat_natCast, String.toList_append, toList_toString, String.toList_ofList,
        List.append_assoc]
      exact hparted
    · rename_i hneg hpos
      obtain ⟨k, hk⟩ := Int.eq_ofNat_of_zero_le (show 0 ≤ -(((toString d).length : Int) + e) by omega)
      have hback : e = -((List.replicate k '0' ++ Nat.toDigits 10 d).length : Int) := by
        rw [List.length_append, List.length_replicate]
        omega
      have hlowered := denotes_lowered d k
      rw [← hback] at hlowered
      rw [hk, Int.toNat_natCast, String.toList_append, String.toList_append, toList_zeros, toList_toString,
        List.append_assoc]
      exact hlowered

/-- A text with an exponent part denotes its digits. -/
theorem denotes_scientific (form : FloatForm) (d : Nat) (e : Int) :
    Denotes (scientific form (toString d) (e + (toString d).length - 1)).toList (decimalValue d e) := by
  have hdigits := allDigits_toDigits d
  have hne : Nat.toDigits 10 d ≠ [] := Nat.toDigits_ne_nil
  set power := e + (toString d).length - 1 with hpower
  rw [← String.length_toList, toList_toString] at hpower
  have hexponent := readExponent_toString power form.plusSign
  obtain ⟨first, rest, hwritten⟩ := List.exists_cons_of_ne_nil hne
  rw [hwritten] at hdigits hpower
  obtain ⟨hfirst, hrest⟩ := List.forall_mem_cons.mp hdigits
  have hfirst : AllDigits [first] := List.forall_mem_singleton.mpr hfirst
  have hvalue : Nat.ofDigitChars 10 ([first] ++ rest) 0 = d := by
    rw [List.singleton_append, ← hwritten, Nat.ofDigitChars_ten_toDigits]
  have hback : e = power - rest.length := by
    rw [List.length_cons] at hpower
    omega
  simp only [scientific, String.toList_append, toList_toString, hwritten, String.toList_ofList, List.take_succ_cons,
    List.take_zero, List.drop_succ_cons, List.drop_zero, List.append_assoc]
  rw [hback]
  cases rest with
  | nil =>
    have hmantissa := readMantissa_whole (List.cons_ne_nil first []) hfirst
    exact ⟨d, _, hvalue ▸ readDecimal_marked hfirst.not_mark hmantissa hexponent, rfl⟩
  | cons c cs =>
    have hmantissa := readMantissa_point (List.cons_ne_nil first []) hfirst hrest
    have hpoint : (if (c :: cs).isEmpty = true then "" else ".").toList = ['.'] := by simp
    have hread := readDecimal_marked (not_mark_point hfirst hrest) hmantissa hexponent
    rw [hpoint]
    rw [hvalue] at hread
    exact ⟨d, power - ((c :: cs).length : Nat), hread, rfl⟩

/-- The text of a magnitude is read as its shortest digits. -/
theorem denotes_magnitudeText (form : FloatForm) (x : Dyadic) :
    Denotes (magnitudeText form x).toList
      (if x.mantissa = 0 then 0 else decimalValue (shortest x).1 (shortest x).2) := by
  rw [magnitudeText]
  split
  · have hzero : AllDigits ['0'] := allDigits_zeros 1
    split
    · exact ⟨0, -1, readDecimal_plain (not_mark_point hzero hzero) (readMantissa_point nofun hzero hzero),
        by simp [decimalValue]⟩
    · exact ⟨0, 0, readDecimal_plain hzero.not_mark (readMantissa_whole nofun hzero), by simp [decimalValue]⟩
  · dsimp only
    split
    · exact denotes_positional form _ _
    · split
      · exact denotes_positional form _ _
      · exact denotes_scientific form _ _

/-- Magnitudes with the same text are the same. -/
theorem ofBits_eq_of_magnitudeText {form : FloatForm} {b c : UInt64}
    (h : magnitudeText form (.ofBits b) = magnitudeText form (.ofBits c)) : Dyadic.ofBits b = Dyadic.ofBits c := by
  have hb := denotes_magnitudeText form (.ofBits b)
  have hc := denotes_magnitudeText form (.ofBits c)
  have hvalue := hb.unique (h ▸ hc)
  have hpos {b : UInt64} (hne : (Dyadic.ofBits b).mantissa ≠ 0) :
      decimalValue (shortest (.ofBits b)).1 (shortest (.ofBits b)).2 ≠ 0 :=
    ((shortest_covers (Dyadic.ofBits_positive hne)).pos (Dyadic.ofBits_positive hne)).ne'
  split at hvalue <;> split at hvalue
  · rw [Dyadic.ofBits_eq_zero ‹_›, Dyadic.ofBits_eq_zero ‹_›]
  · exact absurd hvalue.symm (hpos ‹_›)
  · exact absurd hvalue (hpos ‹_›)
  · exact eq_of_shortest (Dyadic.ofBits_positive ‹_›) (Dyadic.ofBits_positive ‹_›) hvalue

/-- A number starts with no sign. -/
theorem Denotes.splitSign_eq {cs : List Char} {q : ℚ} (h : Denotes cs q) : splitSign cs = (false, cs) := by
  obtain ⟨n, k, hread, -⟩ := h
  unfold splitSign
  split
  · cases (readDecimal_none rfl rfl (by decide)).symm.trans hread
  · cases (readDecimal_none rfl rfl (by decide)).symm.trans hread
  · rfl

-- ---------------------------------------------------------------------------
-- Floats
-- ---------------------------------------------------------------------------

/-- The sign of a float is set. -/
def negative (x : Float) : Bool := x.toBits >>> 63 == 1

/-- The text of a float without its sign. -/
def body (x : Float) : String :=
  if x.isNaN then "nan" else if x.isInf then "inf" else magnitudeText scriptForm (.ofBits x.toBits)

section Floats

variable {x y : Float}

theorem eq_of_isNaN (hx : x.isNaN = true) (hy : y.isNaN = true) : x = y := by
  have hnan {x : Float} (hx : x.isNaN = true) : x = .ofModel (.pack .notANumber) := by
    have hunpack : x.toModel.unpack = .notANumber := by
      change x.toModel.unpack.isNaN = true at hx
      cases hu : x.toModel.unpack <;> simp [hu, Float.Model.UnpackedFloat.isNaN] at hx ⊢
    rw [← hunpack, pack_unpack]
  rw [hnan hx, hnan hy]

theorem eq_of_isInf (hx : x.isInf = true) (hy : y.isInf = true) (hsign : negative x = negative y) : x = y := by
  have hinf {x : Float} (hx : x.isInf = true) :
      x = .ofModel (.pack (.infinity (if negative x then .negative else .positive))) := by
    obtain ⟨s, hunpack⟩ : ∃ s, x.toModel.unpack = .infinity s := by
      change x.toModel.unpack.isInf = true at hx
      cases hu : x.toModel.unpack <;> simp [hu, Float.Model.UnpackedFloat.isInf] at hx ⊢
    obtain rfl : x = .ofModel (.pack (.infinity s)) := by rw [← hunpack, pack_unpack]
    cases s <;> decide +kernel
  rw [hinf hx, hinf hy, hsign]

theorem eq_of_ofBits (hsign : negative x = negative y) (h : Dyadic.ofBits x.toBits = Dyadic.ofBits y.toBits) :
    x = y := by
  refine toBits_inj (Dyadic.ofBits_inj ?_ h)
  have hbit (b : UInt64) : (b >>> 63).toNat = 0 ∨ (b >>> 63).toNat = 1 := by
    have hlt := b.toNat_lt
    rw [UInt64.toNat_shiftRight, Nat.shiftRight_eq_div_pow]
    change b.toNat / 2 ^ 63 = 0 ∨ b.toNat / 2 ^ 63 = 1
    omega
  rw [negative, negative, Bool.eq_iff_iff, beq_iff_eq, beq_iff_eq, ← UInt64.toNat_inj, ← UInt64.toNat_inj] at hsign
  change _ = 1 ↔ _ = 1 at hsign
  rw [← UInt64.toNat_inj]
  rcases hbit x.toBits with hx | hx <;> rcases hbit y.toBits with hy | hy <;> omega

/-- A sign stands in front of the text of a float, unless the float is no number. -/
theorem splitSign_write (x : Float) :
    splitSign (scriptForm.write x).toList = (!x.isNaN && negative x, (body x).toList) := by
  rw [FloatForm.write, body]
  cases x.isNaN with
  | true => simp [scriptForm, splitSign]
  | false =>
    simp only [Bool.false_eq_true, if_false, Bool.not_false, Bool.true_and]
    change splitSign (String.toList (if x.isInf = true then if negative x = true then "-inf" else "inf"
      else (if negative x = true then "-" else "") ++ magnitudeText scriptForm (.ofBits x.toBits))) = _
    cases x.isInf with
    | true => cases negative x <;> simp [splitSign]
    | false =>
      cases negative x with
      | true => simp [splitSign]
      | false => simpa using (denotes_magnitudeText scriptForm (.ofBits x.toBits)).splitSign_eq

theorem readDecimal_nan : readDecimal "nan".toList = none :=
  readDecimal_none rfl rfl (by decide)

theorem readDecimal_inf : readDecimal "inf".toList = none :=
  readDecimal_none rfl rfl (by decide)

/-- The text is a number if the float is finite. -/
theorem readDecimal_body (x : Float) : (readDecimal (body x).toList).isSome = (!x.isNaN && !x.isInf) := by
  rw [body]
  cases x.isNaN with
  | true => exact congrArg Option.isSome readDecimal_nan
  | false =>
    cases x.isInf with
    | true => exact congrArg Option.isSome readDecimal_inf
    | false =>
      obtain ⟨n, k, hread, -⟩ := denotes_magnitudeText scriptForm (.ofBits x.toBits)
      simp [hread]

theorem body_eq_nan (x : Float) : body x = "nan" ↔ x.isNaN = true := by
  rw [body]
  cases x.isNaN with
  | true => simp
  | false =>
    cases x.isInf with
    | true => simp
    | false =>
      simp only [Bool.false_eq_true, if_false, iff_false]
      intro h
      obtain ⟨n, k, hread, -⟩ := denotes_magnitudeText scriptForm (.ofBits x.toBits)
      rw [h, readDecimal_nan] at hread
      cases hread

/-- Different floats have different texts. -/
theorem write_injective : Function.Injective scriptForm.write := by
  intro x y h
  have hsplit := splitSign_write x
  rw [h, splitSign_write y] at hsplit
  obtain ⟨hsign, hbody⟩ := Prod.mk.inj hsplit.symm
  have hbody : body x = body y := String.toList_injective hbody
  have hfinite : (!x.isNaN && !x.isInf) = (!y.isNaN && !y.isInf) := by
    rw [← readDecimal_body, ← readDecimal_body, hbody]
  have hnan : x.isNaN = y.isNaN := by
    rw [Bool.eq_iff_iff, ← body_eq_nan, ← body_eq_nan, hbody]
  cases hx : x.isNaN with
  | true => exact eq_of_isNaN hx (hnan ▸ hx)
  | false =>
    have hy : y.isNaN = false := hnan ▸ hx
    simp only [hx, hy, Bool.not_false, Bool.true_and] at hsign hfinite
    have hinf : x.isInf = y.isInf := Bool.not_inj hfinite
    cases hxinf : x.isInf with
    | true => exact eq_of_isInf hxinf (hinf ▸ hxinf) hsign
    | false =>
      have hyinf : y.isInf = false := hinf ▸ hxinf
      have htext : magnitudeText scriptForm (.ofBits x.toBits) = magnitudeText scriptForm (.ofBits y.toBits) := by
        simpa only [body, hx, hy, hxinf, hyinf, Bool.false_eq_true, if_false] using hbody
      exact eq_of_ofBits hsign (ofBits_eq_of_magnitudeText htext)

-- ---------------------------------------------------------------------------
-- Other texts
-- ---------------------------------------------------------------------------

/-- There is a point in a number, or the mark of an exponent. -/
theorem not_allDigits_magnitudeText (d : Dyadic) : ¬AllDigits (magnitudeText scriptForm d).toList := by
  have hpositional (digits : String) (e : Int) : '.' ∈ (positional scriptForm digits e).toList := by
    rw [positional]
    dsimp only
    split
    · simp [scriptForm]
    · split <;> simp
  have hscientific (digits : String) (power : Int) : 'e' ∈ (scientific scriptForm digits power).toList := by
    simp [scientific]
  intro hdigits
  rw [magnitudeText] at hdigits
  split at hdigits
  · exact absurd (hdigits '.' (by simp [scriptForm])) (by decide)
  · dsimp only [scriptForm] at hdigits
    split at hdigits
    · exact absurd (hdigits '.' (hpositional _ _)) (by decide)
    · exact absurd (hdigits 'e' (hscientific _ _)) (by decide)

theorem not_allDigits_body (x : Float) : ¬AllDigits (body x).toList := by
  rw [body]
  split
  · exact fun hdigits => absurd (hdigits 'n' (by simp)) (by decide)
  · split
    · exact fun hdigits => absurd (hdigits 'n' (by simp)) (by decide)
    · exact not_allDigits_magnitudeText _

/-- The text of a float is not read as an integer. -/
theorem readInt_write (x : Float) : readInt (scriptForm.write x).toList = none := by
  have hread : readDigits (body x).toList = none := by
    rw [readDigits, if_pos]
    rw [Bool.or_eq_true, Bool.not_eq_true', List.all_eq_false]
    have hsome := not_allDigits_body x
    simp only [AllDigits, not_forall] at hsome
    obtain ⟨c, hc, hdigit⟩ := hsome
    exact .inr ⟨c, hc, hdigit⟩
  simp only [readInt, splitSign_write, hread]

/-- The text of a float is a number or one of the three names. -/
theorem write_ne {x : Float} {s : String} (hsign : splitSign s.toList = (false, s.toList))
    (hnumber : readDecimal s.toList = none) (hnan : s ≠ "nan") (hinf : s ≠ "inf") : scriptForm.write x ≠ s := by
  rintro rfl
  have hsplit := splitSign_write x
  rw [hsign] at hsplit
  have hbody : scriptForm.write x = body x := String.toList_injective (Prod.mk.inj hsplit).2
  rw [body] at hbody
  split at hbody
  · exact hnan hbody
  · split at hbody
    · exact hinf hbody
    · obtain ⟨n, k, hread, -⟩ := denotes_magnitudeText scriptForm (.ofBits x.toBits)
      rw [← hbody, hnumber] at hread
      cases hread

end Floats

end Rill.Decimal
