-- SUMMARY: What boundaries cut a text into, counted in characters, and the positions that denote them.
import Rill.Text.Position

/-!
# Boundaries and positions

Every boundary is the one behind some number of characters, and its position is one more than this number.
So each function that cuts a text at byte offsets has a form in which only characters are counted.
-/

namespace Rill

-- ---------------------------------------------------------------------------
-- Boundaries
-- ---------------------------------------------------------------------------

namespace Boundary

variable {text : List Char}

theorem ext {b d : Boundary text} (h : b.offset = d.offset) : b = d := by
  cases b
  cases d
  cases h
  rfl

/-- A text is cut at an offset in one way only. -/
theorem pieces_unique {b : Boundary text} {before after : List Char} (htext : before ++ after = text)
    (hbytes : byteLength before = b.offset) : b.before = before ∧ b.after = after := by
  subst htext
  rw [Boundary.before, Boundary.after, ← hbytes, takeBytes_append, dropBytes_append]
  exact ⟨rfl, rfl⟩

theorem before_start : (start : Boundary text).before = [] :=
  (pieces_unique (b := start) (List.nil_append text) rfl).1

theorem before_next (c : Char) (b : Boundary text) : (b.next c).before = c :: b.before := by
  have htext : c :: b.before ++ b.after = c :: text := by rw [List.cons_append, b.pieces.1]
  have hbytes : byteLength (c :: b.before) = (b.next c).offset := by
    rw [byteLength, b.pieces.2]
    rfl
  exact (pieces_unique htext hbytes).1

theorem pieces_ofIndex (text : List Char) (n : Nat) :
    (ofIndex text n).before = text.take n ∧ (ofIndex text n).after = text.drop n :=
  pieces_unique (List.take_append_drop ..) rfl

theorem pieces_advance (b : Boundary text) (further : Boundary b.after) :
    (b.advance further).before = b.before ++ further.before ∧ (b.advance further).after = further.after := by
  refine pieces_unique ?_ ?_
  · rw [List.append_assoc, further.pieces.1, b.pieces.1]
  · rw [byteLength_append, b.pieces.2, further.pieces.2]
    rfl

theorem before_within (b : Boundary text) (earlier : Boundary b.before) :
    (b.within earlier).before = earlier.before := by
  have htext : earlier.before ++ (earlier.after ++ b.after) = text := by
    rw [← List.append_assoc, earlier.pieces.1, b.pieces.1]
  exact (pieces_unique (b := b.within earlier) htext earlier.pieces.2).1

theorem take_length_before (b : Boundary text) : text.take b.before.length = b.before :=
  calc text.take b.before.length
    _ = (b.before ++ b.after).take b.before.length := by rw [b.pieces.1]
    _ = b.before := List.take_left

theorem length_before_le (b : Boundary text) : b.before.length ≤ text.length :=
  calc b.before.length
    _ ≤ (b.before ++ b.after).length := by simp
    _ = text.length := by rw [b.pieces.1]

theorem ofIndex_length_before (b : Boundary text) : ofIndex text b.before.length = b := by
  refine ext ?_
  change byteLength (text.take b.before.length) = b.offset
  rw [b.take_length_before, b.pieces.2]

theorem position_ofIndex {n : Nat} (h : n ≤ text.length) : (ofIndex text n).position = n + 1 := by
  rw [position, (pieces_ofIndex text n).1, List.length_take_of_le h]

theorem byteLength_take_lt_iff {j k : Nat} (hj : j ≤ text.length) (hk : k ≤ text.length) :
    byteLength (text.take j) < byteLength (text.take k) ↔ j < k := by
  induction text generalizing j k with
  | nil => simp_all
  | cons c rest ih =>
    have hsize := c.utf8Size_pos
    cases j with
    | zero =>
      cases k with
      | zero => simp
      | succ k => simpa [byteLength] using Nat.add_pos_left hsize _
    | succ j =>
      cases k with
      | zero => simp [byteLength]
      | succ k => simpa [byteLength] using ih (Nat.le_of_succ_le_succ hj) (Nat.le_of_succ_le_succ hk)

/-- A character is before the first boundary from an offset on if it begins before the offset. -/
theorem lt_length_roundUp {k : Nat} (hk : k < text.length) (limit : Nat) :
    k < (roundUp text limit).before.length ↔ byteLength (text.take k) < limit := by
  induction text generalizing k limit with
  | nil => cases hk
  | cons c rest ih =>
    rw [roundUp]
    split
    · next hzero => simp [before_start, hzero]
    · next hpos =>
      rw [before_next, List.length_cons]
      cases k with
      | zero =>
        have hempty : byteLength ((c :: rest).take 0) = 0 := rfl
        omega
      | succ k =>
        have hrest := ih (k := k) (by simpa using hk) (limit - c.utf8Size)
        have hbytes : byteLength ((c :: rest).take (k + 1)) = c.utf8Size + byteLength (rest.take k) := rfl
        omega

end Boundary

-- ---------------------------------------------------------------------------
-- Positions
-- ---------------------------------------------------------------------------

/-- A position denotes a place in a sequence from its start or from its end. -/
theorem resolveIndex_eq_ok_iff {p : Int64} {size k : Nat} :
    resolveIndex p size = .ok k ↔ k < size ∧ (p.toInt = k + 1 ∨ p.toInt = k - size) := by
  have hneg : p < 0 ↔ p.toInt < 0 := Int64.lt_iff_toInt_lt
  have hzero : p = 0 ↔ p.toInt = 0 := Int64.toInt_inj.symm
  simp only [resolveIndex, hneg, hzero]
  split <;> split <;> simp only [reduceCtorEq, Except.ok.injEq, false_iff] <;> omega

theorem resolveIndex_lt {p : Int64} {size k : Nat} (h : resolveIndex p size = .ok k) : k < size :=
  (resolveIndex_eq_ok_iff.mp h).1

namespace Text

variable {text : List Char} {p : Int64} {k : Nat} {atEnd : Bool}

theorem boundary_of_place (h : place text p atEnd = .ok k) : boundary text p atEnd = .ok (.ofIndex text k) := by
  rw [boundary, h]
  rfl

theorem left_eq (text : List Char) (n : Nat) : left text n = text.take n := (Boundary.pieces_ofIndex ..).1

theorem right_eq (text : List Char) (n : Nat) : right text n = text.drop (text.length - n) :=
  (Boundary.pieces_ofIndex ..).2

theorem slice_of_place (h : place text p true = .ok k) : slice text p = .ok (text.drop k) := by
  rw [slice, boundary_of_place h, ← (Boundary.pieces_ofIndex text k).2]
  rfl

theorem charAt_of_place (h : place text p false = .ok k) : charAt text p = .ok ((text.drop k).take 1) := by
  rw [charAt, boundary_of_place h, ← (Boundary.pieces_ofIndex text k).2]
  rfl

theorem insert_of_place (h : place text p true = .ok k) (piece : List Char) :
    insert text p piece = .ok (text.take k ++ piece ++ text.drop k) := by
  rw [insert, boundary_of_place h, ← (Boundary.pieces_ofIndex text k).1, ← (Boundary.pieces_ofIndex text k).2]
  rfl

theorem splice_of_place (h : place text p false = .ok k) (count : Nat) (piece : List Char) :
    splice text p count piece = .ok (text.take k ++ piece ++ text.drop (k + count)) := by
  obtain ⟨hbefore, hafter⟩ := Boundary.pieces_ofIndex text k
  have hstop : ((Boundary.ofIndex text k).advance (.ofIndex _ count)).after = text.drop (k + count) := by
    rw [(Boundary.pieces_advance ..).2, (Boundary.pieces_ofIndex ..).2, hafter, List.drop_drop]
  rw [splice, boundary_of_place h, ← hbefore, ← hstop]
  rfl

end Text

end Rill
