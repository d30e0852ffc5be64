-- SUMMARY: Characters at positions, and edits that are exact, can be taken back, and keep the text when they fail.
import Rill.Proofs.Texts.Functions
import Rill.Proofs.Texts.Boundaries

/-!
# Editing

A position of a character means the same place to an index, to `char` and to `replace_at`. Where the place
behind the last character is a position too, as for `slice` and `insert`, the negative positions count from
that place, so they mean the place behind the character that they denote otherwise. Edits at positive positions
change what they name and nothing else.
-/

namespace Rill

open Library (chars)

-- ---------------------------------------------------------------------------
-- Places
-- ---------------------------------------------------------------------------

namespace Text

variable {text : List Char} {p : Int64} {k : Nat}

theorem place_end (hk : p.toInt = k + 1) (hle : k ≤ text.length) : place text p true = .ok k :=
  resolveIndex_eq_ok_iff.mpr ⟨Nat.lt_succ_of_le hle, .inl hk⟩

theorem place_character (hk : p.toInt = k + 1) (hlt : k < text.length) : place text p false = .ok k :=
  resolveIndex_eq_ok_iff.mpr ⟨hlt, .inl hk⟩

/-- A place with a character is the place behind it when the position is negative and may name the end. -/
theorem place_true_of_false (h : place text p false = .ok k) :
    place text p true = .ok (if 0 < p.toInt then k else k + 1) := by
  obtain ⟨hlt, hposition⟩ := resolveIndex_eq_ok_iff.mp h
  refine resolveIndex_eq_ok_iff.mpr ?_
  simp only [Bool.false_eq_true, if_false, if_true] at hlt hposition ⊢
  split <;> omega

/-- A piece that has been inserted stands at its position, and removing it takes the insertion back. -/
theorem insert_takes_back {piece : List Char} (hpiece : piece ≠ []) (hk : p.toInt = k + 1) (hle : k ≤ text.length) :
    ∃ changed, insert text p piece = .ok changed ∧ (∃ rest, slice changed p = .ok (piece ++ rest)) ∧
      splice changed p piece.length [] = .ok text := by
  have htake : (text.take k).length = k := List.length_take_of_le hle
  have hpos := List.length_pos_iff.mpr hpiece
  refine ⟨_, insert_of_place (place_end hk hle) piece, ⟨text.drop k, ?_⟩, ?_⟩
  · rw [slice_of_place (place_end hk (by simp; omega)), List.append_assoc, List.drop_left' htake]
  · rw [splice_of_place (place_character hk (by simp; omega)), List.append_nil,
      List.drop_left' (by rw [List.length_append, htake]), List.append_assoc, List.take_left' htake,
      List.take_append_drop]

/-- The positions up to the one behind the last character denote the boundaries, each of which has one. -/
theorem boundary_position (hk : p.toInt = k + 1) (hle : k ≤ text.length) :
    boundary text p true = .ok (.ofIndex text k) ∧ (Boundary.ofIndex text k).position = k + 1 :=
  ⟨boundary_of_place (place_end hk hle), Boundary.position_ofIndex hle⟩

end Text

/-- Storing a text and then the text that was in the cell before changes nothing. -/
theorem Machine.storing_storing {m : Machine} {id : CellId} {s : List Char} (hs : m.heap.cellValue id = chars s)
    (t : List Char) : (m.storing id t).storing id s = m := by
  have hcell : m.heap.cells[id.index]? = some (some (chars s)) := by
    simp only [Heap.cellValue] at hs
    cases h : m.heap.cells[id.index]? with
    | none => simp [h, chars] at hs
    | some held => cases held <;> simp_all [chars]
  have hcells : (m.heap.cells.setIfInBounds id.index (some (chars t))).setIfInBounds id.index (some (chars s)) =
      m.heap.cells := by
    refine Array.ext_getElem? fun i => ?_
    by_cases hi : id.index = i
    · subst hi
      obtain ⟨hlt, hget⟩ := Array.getElem?_eq_some_iff.mp hcell
      simp [hlt, hget]
    · simp [hi]
  simp only [Machine.storing, Heap.setCell]
  change { m with heap := { m.heap with
    cells := (m.heap.cells.setIfInBounds id.index (some (chars t))).setIfInBounds id.index (some (chars s)) } } = m
  rw [hcells]

theorem Heap.element_chars (h : Heap) (s : List Char) (p : Int64) : h.element (chars s) #[.int p] =
    (Text.place s p false).map fun k => chars ((s.drop k).take 1) := by
  simp only [element, resolve, chars, String.toList_ofList]
  rfl

/-- An index gives one character of a text, the one behind the place that the index denotes. -/
theorem Heap.element_chars_ok {h : Heap} {s : List Char} {p : Int64} {v : Value}
    (hv : h.element (chars s) #[.int p] = .ok v) :
    ∃ before c behind, s = before ++ c :: behind ∧ v = chars [c] ∧ Text.place s p false = .ok before.length := by
  rw [element_chars] at hv
  cases hplace : Text.place s p false with
  | error e =>
    rw [hplace] at hv
    cases hv
  | ok k =>
    rw [hplace] at hv
    obtain rfl : chars ((s.drop k).take 1) = v := Except.ok.inj hv
    have hlt := (resolveIndex_eq_ok_iff.mp hplace).1
    simp only [Bool.false_eq_true, if_false] at hlt
    have hchar : s.drop k = s[k] :: s.drop (k + 1) := List.drop_eq_getElem_cons hlt
    refine ⟨s.take k, s[k], s.drop (k + 1), ?_, ?_, ?_⟩
    · rw [← hchar, List.take_append_drop]
    · rw [hchar]
      rfl
    · rw [List.length_take_of_le hlt.le]

-- ---------------------------------------------------------------------------
-- Characters at positions
-- ---------------------------------------------------------------------------

/-- At a position with a character, `char` answers what the index gives, and `replace_at` exchanges this
character only. What `slice` answers begins with the character at a positive position, and behind it at a
negative one: there it is as long as the position counts from the end, less one. A slice of some length is the
beginning of the slice without one. -/
theorem character_positions (m : Machine) (s r : List Char) {p : Int64} {v : Value}
    (hv : m.heap.element (chars s) #[.int p] = .ok v) :
    ∃ before c behind, s = before ++ c :: behind ∧ v = chars [c] ∧
      (p.toInt = before.length + 1 ∨ p.toInt = -(behind.length + 1)) ∧
      Library.text .char #[chars s, .int p] m = .ok v m ∧
      (∀ id, m.heap.cellValue id = chars s → Library.text .replaceAt #[.cell id, .int p, .int 1, chars r] m =
        .ok .null (m.storing id (before ++ r ++ behind))) ∧
      (∀ n : Int64, n.toInt = behind.length →
        Library.text .right #[chars s, .int n] m = .ok (chars behind) m) ∧
      ∃ rest, rest = (if 0 < p.toInt then c :: behind else behind) ∧
        Library.text .slice #[chars s, .int p] m = .ok (chars rest) m ∧
        ∀ n : Int64, 0 ≤ n.toInt →
          Library.text .sliceCount #[chars s, .int p, .int n] m = Library.text .left #[chars rest, .int n] m := by
  obtain ⟨before, c, behind, rfl, rfl, hplace⟩ := Heap.element_chars_ok hv
  have hposition : p.toInt = before.length + 1 ∨ p.toInt = -(behind.length + 1) := by
    have hdenoted := (resolveIndex_eq_ok_iff.mp hplace).2
    simp only [Bool.false_eq_true, if_false, List.length_append, List.length_cons] at hdenoted
    omega
  have hrest : (before ++ c :: behind).drop (if 0 < p.toInt then before.length else before.length + 1) =
      if 0 < p.toInt then c :: behind else behind := by
    split <;> simp
  have hslice := Text.slice_of_place (Text.place_true_of_false hplace)
  rw [hrest] at hslice
  refine ⟨before, c, behind, rfl, rfl, hposition, ?_, fun id hid => ?_, fun n hn => ?_,
    _, rfl, Library.slice_run m _ hslice, fun n hn => ?_⟩
  · rw [Library.char_run m _ (Text.charAt_of_place hplace), List.drop_left]
    rfl
  · have hsplice : Text.splice (before ++ c :: behind) p 1 r = .ok (before ++ r ++ behind) := by
      rw [Text.splice_of_place hplace]
      simp
    exact Library.replaceAt_run r hid (by decide) hsplice
  · have hcount : (before ++ c :: behind).length - n.toInt.toNat = before.length + 1 := by
      simp only [List.length_append, List.length_cons]
      omega
    rw [Library.right_run m _ (by omega), Text.right_eq, hcount]
    simp
  · rw [Library.sliceCount_run m _ hslice hn, Library.left_run m _ hn]

/-- The last of three characters, named from the end: the slice there is empty. -/
theorem character_positions_last :
    let m : Machine := { config := {} }
    m.heap.element (chars ['a', 'é', 'b']) #[.int (-1)] = .ok (chars ['b']) ∧
      Library.text .char #[chars ['a', 'é', 'b'], .int (-1)] m = .ok (chars ['b']) m ∧
      Library.text .slice #[chars ['a', 'é', 'b'], .int (-1)] m = .ok (chars []) m := by
  intro m
  have hv : m.heap.element (chars ['a', 'é', 'b']) #[.int (-1)] = .ok (chars ['b']) := by
    rw [Heap.element_chars]
    rfl
  obtain ⟨before, c, behind, -, -, hposition, hchar, -, -, rest, hrest, hslice, -⟩ :=
    character_positions m ['a', 'é', 'b'] [] hv
  have hp : (-1 : Int64).toInt = -1 := rfl
  obtain rfl : behind = [] := by
    refine List.eq_nil_of_length_eq_zero ?_
    omega
  rw [if_neg (by decide)] at hrest
  exact ⟨hv, hchar, hrest ▸ hslice⟩

-- ---------------------------------------------------------------------------
-- Edits at positive positions
-- ---------------------------------------------------------------------------

/-- A piece that is inserted stands at its position, and removing as many characters there takes the edit back.
Replacing characters keeps what is before and what is behind them. Positions from the first to the one behind
the last character and the boundaries of a text denote one another. A text function that fails leaves the
machine as it was, and so the variable that it edits. -/
theorem edits_exact (m : Machine) :
    (∀ (s w : List Char) (p : Int64) (id : CellId), w ≠ [] → 1 ≤ p.toInt → p.toInt ≤ s.length + 1 →
      m.heap.cellValue id = chars s →
      ∃ t, Library.text .insert #[.cell id, .int p, chars w] m = .ok .null (m.storing id t) ∧
        ∀ n : Int64, n.toInt = w.length →
          Library.text .sliceCount #[chars t, .int p, .int n] (m.storing id t) =
            .ok (chars w) (m.storing id t) ∧
          Library.text .removeAt #[.cell id, .int p, .int n] (m.storing id t) = .ok .null m) ∧
    (∀ (s w : List Char) (p n : Int64) (id : CellId), 1 ≤ p.toInt → p.toInt ≤ s.length → 0 ≤ n.toInt →
      m.heap.cellValue id = chars s →
      Library.text .replaceAt #[.cell id, .int p, .int n, chars w] m = .ok .null (m.storing id
        (s.take (p.toInt.toNat - 1) ++ w ++ s.drop (p.toInt.toNat - 1 + n.toInt.toNat)))) ∧
    (∀ (s : List Char) (p : Int64), 1 ≤ p.toInt → p.toInt ≤ s.length + 1 →
      ∃ b, Text.boundary s p true = .ok b ∧ p.toInt = b.position) ∧
    (∀ (s : List Char) (b : Boundary s), 1 ≤ b.position ∧ b.position ≤ s.length + 1 ∧
      ∀ p : Int64, p.toInt = b.position → Text.boundary s p true = .ok b) ∧
    ∀ f args e m', Library.text f args m = .error e m' → m' = m := by
  refine ⟨?_, ?_, ?_, ?_, ?_⟩
  · intro s w p id hw hpos hle hid
    obtain ⟨k, hk⟩ : ∃ k : Nat, p.toInt = k + 1 := ⟨p.toInt.toNat - 1, by omega⟩
    have hk_le : k ≤ s.length := by omega
    obtain ⟨t, hinsert, ⟨rest, hslice⟩, hsplice⟩ := Text.insert_takes_back hw hk hk_le
    refine ⟨t, Library.insert_run w hid hinsert, fun n hn => ?_⟩
    have hcount : n.toInt.toNat = w.length := by omega
    constructor
    · rw [Library.sliceCount_run _ t hslice (by omega), Text.left_eq, hcount, List.take_left]
    · rw [Library.removeAt_run (m.cellValue_storing hid t) (by omega) (hcount ▸ hsplice), m.storing_storing hid]
  · intro s w p n id hpos hle hn hid
    have hplace : Text.place s p false = .ok (p.toInt.toNat - 1) := Text.place_character (by omega) (by omega)
    exact Library.replaceAt_run w hid hn (Text.splice_of_place hplace _ w)
  · intro s p hpos hle
    obtain ⟨k, hk⟩ : ∃ k : Nat, p.toInt = k + 1 := ⟨p.toInt.toNat - 1, by omega⟩
    have hk_le : k ≤ s.length := by omega
    obtain ⟨hboundary, hposition⟩ := Text.boundary_position hk hk_le
    exact ⟨_, hboundary, by omega⟩
  · intro s b
    have hlength := b.length_before_le
    refine ⟨Nat.succ_pos _, Nat.succ_le_succ hlength, fun p hp => ?_⟩
    rw [(Text.boundary_position hp hlength).1, b.ofIndex_length_before]
  · intro f args e m' hfailed
    exact (Library.text_spares f args m).of_error hfailed

/-- Two characters of more bytes than one are put between two others and removed again, and a count that is
negative is refused. -/
theorem edits_exact_accented :
    let m : Machine := { config := {}, heap := { cells := #[some (chars ['h', 'é'])] } }
    m.heap.cellValue ⟨0⟩ = chars ['h', 'é'] ∧
      (∃ t, Library.text .insert #[.cell ⟨0⟩, .int 2, chars ['ü', '€']] m = .ok .null (m.storing ⟨0⟩ t) ∧
        Library.text .removeAt #[.cell ⟨0⟩, .int 2, .int 2] (m.storing ⟨0⟩ t) = .ok .null m) ∧
      Library.text .replaceAt #[.cell ⟨0⟩, .int 2, .int 5, chars ['€']] m =
        .ok .null (m.storing ⟨0⟩ ['h', '€']) ∧
      (∃ b, Text.boundary ['h', 'é'] 3 true = .ok b ∧ (3 : Int) = b.position) ∧
      Text.boundary ['h', 'é'] 1 true = .ok .start ∧
      ∃ e m', Library.text .removeAt #[.cell ⟨0⟩, .int 1, .int (-1)] m = .error e m' ∧ m' = m := by
  intro m
  have hvariable : m.heap.cellValue ⟨0⟩ = chars ['h', 'é'] := rfl
  obtain ⟨hinsert, hreplace, hposition, hboundary, hfailed⟩ := edits_exact m
  obtain ⟨t, hinserted, hback⟩ :=
    hinsert ['h', 'é'] ['ü', '€'] 2 ⟨0⟩ (by decide) (by decide) (by decide) hvariable
  have hrefused : Library.text .removeAt #[.cell ⟨0⟩, .int 1, .int (-1)] m =
      .error (Fault.negativeCount (-1)).failure m := rfl
  exact ⟨hvariable, ⟨t, hinserted, (hback 2 rfl).2⟩,
    hreplace ['h', 'é'] ['€'] 2 5 ⟨0⟩ (by decide) (by decide) (by decide) hvariable,
    hposition ['h', 'é'] 3 (by decide) (by decide), (hboundary ['h', 'é'] .start).2.2 1 rfl,
    _, _, hrefused, hfailed _ _ _ _ hrefused⟩

end Rill
