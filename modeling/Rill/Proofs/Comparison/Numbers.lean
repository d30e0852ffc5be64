-- SUMMARY: The keys of numbers and their equality.
import Rill.Machine.Access
import Rill.Proofs.Comparison.Ending
import Rill.Proofs.Comparison.Floats

/-!
# Numbers as keys

Equality widens an integer to a float, while a key narrows an integral float to an integer. Numbers of the same
key are equal. Equal numbers have the same key if they are of one kind, or if the integer is a float and the
float is small; of the integers that are widened to one float only that float is a key of the same.
-/

namespace Rill

/-- An integer, or a float that is not nan. -/
def Value.IsNumber : Value → Prop
  | .int _ => True
  | .float x => x.isNaN = false
  | _ => False

/-- Numbers of one kind, or an integer that is a float with a float below the bound of integral keys. -/
def Value.Commensurable : Value → Value → Prop
  | .int _, .int _ | .float _, .float _ => True
  | .int n, .float x | .float x, .int n => FewBits n ∧ x.abs < 9.0e18
  | _, _ => False

-- ---------------------------------------------------------------------------
-- Numbers
-- ---------------------------------------------------------------------------

section Scalars

variable {s t u : Value} {n : Int64} {x y : Float}

theorem integralOf_some (hx : integralOf x = some n) : truncate x = n ∧ (widen n == x) = true := by
  unfold integralOf at hx
  split at hx
  · rename_i hboth
    obtain rfl := Option.some.inj hx
    exact ⟨rfl, (Bool.and_eq_true_iff.mp hboth).2⟩
  · cases hx

/-- A small float that an integer of few bits is widened to denotes that integer. -/
theorem integralOf_widen (hn : FewBits n) (hx : (widen n == x) = true) (hsmall : x.abs < 9.0e18) :
    integralOf x = some n := by
  have htruncate : truncate x = n := (float_beq_integral hx).1.symm.trans (truncate_widen hn)
  rw [integralOf, htruncate, hx, decide_eq_true hsmall]
  rfl

theorem key?_float (x : Float) :
    (Value.float x).key? = some ((integralOf x).elim (.float x.toBits) .int) := by
  simp only [Value.key?]
  cases integralOf x <;> rfl

/-- Numbers of the same key are equal. -/
theorem scalarEquals_of_key (hs : s.IsNumber) (ht : t.IsNumber) (hkey : s.key? = t.key?) :
    Heap.scalarEquals s t = true := by
  cases s <;> cases t <;> try first | exact hs.elim | exact ht.elim
  case int.int n m =>
    cases hkey
    exact beq_self_eq_true n
  case int.float n x =>
    rw [key?_float] at hkey
    cases hx : integralOf x with
    | none => simp [hx, Value.key?] at hkey
    | some m =>
      obtain rfl : n = m := by simpa [hx, Value.key?] using hkey
      exact (integralOf_some hx).2
  case float.int x n =>
    rw [key?_float] at hkey
    cases hx : integralOf x with
    | none => simp [hx, Value.key?] at hkey
    | some m =>
      obtain rfl : m = n := by simpa [hx, Value.key?] using hkey
      exact (integralOf_some hx).2
  case float.float x y =>
    rw [key?_float, key?_float] at hkey
    cases hx : integralOf x with
    | none =>
      cases hy : integralOf y with
      | none =>
        obtain rfl : x = y := toBits_inj (by simpa [hx, hy] using hkey)
        exact float_beq_self hs
      | some m => simp [hx, hy] at hkey
    | some n =>
      cases hy : integralOf y with
      | none => simp [hx, hy] at hkey
      | some m =>
        obtain rfl : n = m := by simpa [hx, hy] using hkey
        exact float_beq_trans (float_beq_symm (integralOf_some hx).2) (integralOf_some hy).2

/-- Equal numbers have the same key where they are commensurable. -/
theorem key_of_scalarEquals (hst : s.Commensurable t) (hequal : Heap.scalarEquals s t = true) : s.key? = t.key? := by
  cases s <;> cases t <;> try exact hst.elim
  case int.int n m =>
    obtain rfl : n = m := beq_iff_eq.mp hequal
    rfl
  case int.float n x =>
    rw [key?_float, integralOf_widen hst.1 hequal hst.2]
    rfl
  case float.int x n =>
    rw [key?_float, integralOf_widen hst.1 hequal hst.2]
    rfl
  case float.float x y =>
    rcases float_beq_iff.mp hequal with ⟨z, z', hx, hy⟩ | ⟨rfl, -⟩
    · rw [key?_float, key?_float, (integralOf_zero hx).2, (integralOf_zero hy).2]
      rfl
    · rfl

/-- What equals an equal number is equal, save for two integers that are both widened to the number between. -/
theorem scalarEquals_trans (hs : s.IsNumber) (ht : t.IsNumber) (hu : u.IsNumber)
    (hbetween : ∀ n x m, s = .int n → t = .float x → u = .int m → FewBits n ∧ FewBits m)
    (hst : Heap.scalarEquals s t = true) (htu : Heap.scalarEquals t u = true) : Heap.scalarEquals s u = true := by
  cases s <;> cases t <;> cases u <;> try first | exact hs.elim | exact ht.elim | exact hu.elim
  case int.float.int n x m =>
    obtain ⟨hn, hm⟩ := hbetween n x m rfl rfl rfl
    have htruncate := (float_beq_integral hst).1.trans (float_beq_integral htu).1.symm
    rw [truncate_widen hn, truncate_widen hm] at htruncate
    exact beq_iff_eq.mpr htruncate
  case int.int.int | int.int.float =>
    obtain rfl := beq_iff_eq.mp hst
    exact htu
  case float.int.int =>
    obtain rfl := beq_iff_eq.mp htu
    exact hst
  case int.float.float => exact float_beq_trans hst htu
  case float.int.float => exact float_beq_trans (float_beq_symm hst) htu
  case float.float.int => exact float_beq_trans htu (float_beq_symm hst)
  case float.float.float => exact float_beq_trans hst htu

end Scalars

-- ---------------------------------------------------------------------------
-- Equality and keys on a heap
-- ---------------------------------------------------------------------------

namespace Heap

variable {h : Heap} {a b c : Value}

theorem equals_number (ha : (h.resolve a).IsNumber) :
    h.equals a b = .ok (scalarEquals (h.resolve a) (h.resolve b)) := by
  have hobjects : ¬∃ i j, h.resolve a = .object i ∧ h.resolve b = .object j := by
    rintro ⟨i, j, hi, -⟩
    simp [hi, Value.IsNumber] at ha
  rw [equals, equalsWithin_scalar hobjects]

theorem key_number (ha : (h.resolve a).IsNumber) :
    ∃ key, (h.resolve a).key? = some key ∧ h.key a = .ok key := by
  obtain ⟨key, hkey⟩ : ∃ key, (h.resolve a).key? = some key := by
    cases hv : h.resolve a with
    | int n => exact ⟨_, rfl⟩
    | float x => exact ⟨_, key?_float x⟩
    | _ => simp [hv, Value.IsNumber] at ha
  exact ⟨key, hkey, by rw [Heap.key, hkey]⟩

theorem keyOf_single (v : Value) : h.keyOf #[v] = h.key v := rfl

/-- What a table or a set has for a number depends on its key alone. -/
theorem element_congr {container : Value} {content : Content} (hkey : h.key a = h.key b)
    (hcontainer : h.contentOf container = some content)
    (hkeyed : (∃ entries, content = .table entries) ∨ ∃ elements, content = .set elements) :
    h.element container #[a] = h.element container #[b] := by
  cases hv : h.resolve container with
  | object i =>
    have hcontent : h.content? i = some content := by simpa [contentOf, hv] using hcontainer
    rcases hkeyed with ⟨entries, rfl⟩ | ⟨elements, rfl⟩ <;>
      simp only [element, hv, hcontent, keyOf_single, hkey]
  | _ => simp [contentOf, hv] at hcontainer

/-- Numbers of the same key are equal, and equal numbers have the same key if they are commensurable. Numbers of
the same key select the same entry of every table and are both in a set or both not. Equality is transitive
but for integers of many bits that are widened to the same float. -/
theorem number_keys (h : Heap) {a b : Value} (ha : (h.resolve a).IsNumber) (hb : (h.resolve b).IsNumber) :
    ∃ key key', h.key a = .ok key ∧ h.key b = .ok key' ∧
      (key = key' → h.equals a b = .ok true) ∧
      ((h.resolve a).Commensurable (h.resolve b) → (h.equals a b = .ok true ↔ key = key')) ∧
      (key = key' → ∀ container content, h.contentOf container = some content →
        ((∃ entries, content = .table entries) ∨ ∃ elements, content = .set elements) →
        h.element container #[a] = h.element container #[b]) ∧
      ∀ c, (h.resolve c).IsNumber → h.equals a b = .ok true → h.equals b c = .ok true →
        (∀ n x m, h.resolve a = .int n → h.resolve b = .float x → h.resolve c = .int m → FewBits n ∧ FewBits m) →
        h.equals a c = .ok true := by
  obtain ⟨key, hkey, hok⟩ := key_number ha
  obtain ⟨key', hkey', hok'⟩ := key_number hb
  have hequal (r : Bool) : h.equals a b = .ok r ↔ scalarEquals (h.resolve a) (h.resolve b) = r := by
    rw [equals_number ha, Except.ok.injEq]
  have hsame : key = key' → h.equals a b = .ok true := by
    rintro rfl
    exact (hequal true).mpr (scalarEquals_of_key ha hb (hkey.trans hkey'.symm))
  refine ⟨key, key', hok, hok', hsame, fun hcommensurable => ⟨fun heq => ?_, hsame⟩, ?_, ?_⟩
  · have hkeys := key_of_scalarEquals hcommensurable ((hequal true).mp heq)
    exact Option.some.inj (hkey.symm.trans (hkeys.trans hkey'))
  · rintro rfl container content hcontainer hkeyed
    exact element_congr (hok.trans hok'.symm) hcontainer hkeyed
  · intro c hc hab hbc hbetween
    rw [equals_number hb, Except.ok.injEq] at hbc
    rw [equals_number ha, scalarEquals_trans ha hb hc hbetween ((hequal true).mp hab) hbc]

/-- An integer and the float of the same value, with a table that has an entry for it. -/
theorem number_keys_three :
    let h : Heap := { objects := #[some ⟨.table, .table ⟨#[(.int 3, .text "x")]⟩⟩] }
    h.equals (.int 3) (.float 3.0) = .ok true ∧
      h.element (.object ⟨0⟩) #[.int 3] = h.element (.object ⟨0⟩) #[.float 3.0] ∧
      h.equals (.int 3) (.int 3) = .ok true := by
  intro h
  have hnumber : (h.resolve (.float 3.0)).IsNumber := by
    change Float.isNaN 3.0 = false
    decide +kernel
  obtain ⟨key, key', hkey, hkey', -, hiff, hselects, htrans⟩ :=
    number_keys h (a := .int 3) (b := .float 3.0) trivial hnumber
  have hbits : FewBits 3 := fewBits_of_small (by decide)
  have hequal : h.equals (.int 3) (.float 3.0) = .ok true := by
    rw [equals_number (a := .int 3) trivial]
    exact congrArg _ (by decide +kernel)
  have hequal' : h.equals (.float 3.0) (.int 3) = .ok true := by
    rw [equals_number hnumber]
    exact congrArg _ (by decide +kernel)
  have hsame : key = key' := (hiff ⟨hbits, by decide +kernel⟩).mp hequal
  refine ⟨hequal, hselects hsame _ _ rfl (.inl ⟨_, rfl⟩), htrans (.int 3) trivial hequal hequal' ?_⟩
  rintro n x m hn - hm
  cases hn
  cases hm
  exact ⟨hbits, hbits⟩

/-- An integer of 54 bits is equal to the float that it is widened to, but has another key; and it is not equal
to the integer of that float. -/
theorem wide_integer_differs :
    ¬(({} : Heap).key (.int 9007199254740993) = ({} : Heap).key (.float 9007199254740992.0) ↔
        ({} : Heap).equals (.int 9007199254740993) (.float 9007199254740992.0) = .ok true) ∧
      ({} : Heap).equals (.int 9007199254740993) (.float 9007199254740992.0) = .ok true ∧
      ({} : Heap).equals (.float 9007199254740992.0) (.int 9007199254740992) = .ok true ∧
      ({} : Heap).equals (.int 9007199254740993) (.int 9007199254740992) = .ok false := by
  have hfloat : (({} : Heap).resolve (.float 9007199254740992.0)).IsNumber := by
    change Float.isNaN 9007199254740992.0 = false
    decide +kernel
  have hequal : ({} : Heap).equals (.int 9007199254740993) (.float 9007199254740992.0) = .ok true := by
    rw [equals_number (a := .int 9007199254740993) trivial]
    exact congrArg _ (by decide +kernel)
  have hkey : ({} : Heap).key (.float 9007199254740992.0) = .ok (.int 9007199254740992) := by
    have hintegral : integralOf 9007199254740992.0 = some 9007199254740992 := by decide +kernel
    simp only [Heap.key, Heap.resolve, key?_float, hintegral]
    rfl
  refine ⟨fun hiff => ?_, hequal, ?_, ?_⟩
  · have heq := (hiff.mpr hequal).trans hkey
    cases heq
  · rw [equals_number hfloat]
    exact congrArg _ (by decide +kernel)
  · rw [equals_number (a := .int 9007199254740993) trivial]
    rfl

end Heap

end Rill
