-- SUMMARY: Byte offsets at which a text can be cut, and the pieces on both sides of a cut.
import Rill.Source

/-!
# Character boundaries

Places in a text are found and passed on as byte offsets. A character takes one to four bytes, and a text can
be cut between two characters only, so a `Boundary` is an offset together with the fact that it is one at
which the text can be cut: there is no cut that fails.
-/

namespace Rill

-- ---------------------------------------------------------------------------
-- Pieces
-- ---------------------------------------------------------------------------

/-- The beginning of a text up to a number of bytes. -/
def takeBytes : List Char → Nat → List Char
  | [], _ => []
  | c :: rest, bytes => if bytes = 0 then [] else c :: takeBytes rest (bytes - c.utf8Size)

/-- What is left of a text behind a number of bytes. -/
def dropBytes : List Char → Nat → List Char
  | [], _ => []
  | c :: rest, bytes => if bytes = 0 then c :: rest else dropBytes rest (bytes - c.utf8Size)

theorem dropBytes_zero (text : List Char) : dropBytes text 0 = text := by
  cases text <;> rfl

theorem dropBytes_cons (c : Char) (rest : List Char) (bytes : Nat) :
    dropBytes (c :: rest) (c.utf8Size + bytes) = dropBytes rest bytes := by
  have hsize := c.utf8Size_pos
  rw [dropBytes, if_neg (by omega), Nat.add_sub_cancel_left]

theorem takeBytes_append (before after : List Char) :
    takeBytes (before ++ after) (byteLength before) = before := by
  induction before with
  | nil => cases after <;> rfl
  | cons c rest ih =>
    have hsize := c.utf8Size_pos
    rw [byteLength, List.cons_append, takeBytes, if_neg (by omega), Nat.add_sub_cancel_left, ih]

theorem dropBytes_append (before after : List Char) :
    dropBytes (before ++ after) (byteLength before) = after := by
  induction before with
  | nil => exact dropBytes_zero after
  | cons c rest ih => rw [byteLength, List.cons_append, dropBytes_cons, ih]

-- ---------------------------------------------------------------------------
-- Boundaries
-- ---------------------------------------------------------------------------

/-- A byte offset at which a text can be cut. -/
structure Boundary (text : List Char) where
  offset : Nat
  cuts : ∃ before after, before ++ after = text ∧ byteLength before = offset

namespace Boundary

variable {text : List Char}

/-- The text before a boundary. -/
def before (b : Boundary text) : List Char := takeBytes text b.offset

/-- The text behind a boundary. -/
def after (b : Boundary text) : List Char := dropBytes text b.offset

/-- The position of the character behind a boundary, counted from one. -/
def position (b : Boundary text) : Nat := b.before.length + 1

theorem pieces (b : Boundary text) : b.before ++ b.after = text ∧ byteLength b.before = b.offset := by
  obtain ⟨offset, before, after, rfl, rfl⟩ := b
  rw [Boundary.before, Boundary.after, takeBytes_append, dropBytes_append]
  exact ⟨rfl, rfl⟩

/-- The boundary before the first character. -/
def start : Boundary text := ⟨0, [], text, rfl, rfl⟩

theorem after_start : (start : Boundary text).after = text := dropBytes_zero text

/-- A boundary with one more character in front of the text. -/
def next (c : Char) (b : Boundary text) : Boundary (c :: text) :=
  ⟨c.utf8Size + b.offset, c :: b.before, b.after, by rw [List.cons_append, b.pieces.1], by
    rw [byteLength, b.pieces.2]⟩

theorem after_next (c : Char) (b : Boundary text) : (b.next c).after = b.after := dropBytes_cons ..

/-- The boundary behind a number of characters; at the end of the text if it has fewer. -/
def ofIndex (text : List Char) (index : Nat) : Boundary text :=
  ⟨byteLength (text.take index), text.take index, text.drop index, List.take_append_drop .., rfl⟩

/-- A boundary of what is behind another one. -/
def advance (b : Boundary text) (further : Boundary b.after) : Boundary text :=
  ⟨b.offset + further.offset, b.before ++ further.before, further.after, by
    rw [List.append_assoc, further.pieces.1, b.pieces.1], by
    rw [byteLength_append, b.pieces.2, further.pieces.2]⟩

/-- A boundary of what is before another one. -/
def within (b : Boundary text) (earlier : Boundary b.before) : Boundary text :=
  ⟨earlier.offset, earlier.before, earlier.after ++ b.after, by
    rw [← List.append_assoc, earlier.pieces.1, b.pieces.1], earlier.pieces.2⟩

/-- The first boundary that is not before an offset; the end of the text if there is none. -/
def roundUp : (text : List Char) → Nat → Boundary text
  | [], _ => start
  | c :: rest, offset => if offset = 0 then start else (roundUp rest (offset - c.utf8Size)).next c

end Boundary

end Rill
