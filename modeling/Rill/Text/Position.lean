-- SUMMARY: Occurrences of one text in another, and editing texts at positions that count from one.
import Rill.Matrix
import Rill.Text.Boundary

/-!
# Places in texts

Texts are sequences of characters, cut at byte offsets. Functions that treat every occurrence of a text go
through it from left to right and pass over an occurrence that overlaps an earlier one. Positions count
characters from one, negative ones from the end; they are made byte offsets to cut the text, and the offset
of an occurrence is made a position again. Where the place behind the last character is a position too, the
negative positions count from there.
-/

namespace Rill.Text

-- ---------------------------------------------------------------------------
-- Occurrences
-- ---------------------------------------------------------------------------

/-- A boundary behind which a text occurs. -/
structure Occurrence (needle text : List Char) where
  start : Boundary text
  found : needle <+: start.after

namespace Occurrence

variable {needle text : List Char}

/-- The text before an occurrence. -/
def before (o : Occurrence needle text) : List Char := o.start.before

/-- The boundary behind an occurrence. -/
def stop (o : Occurrence needle text) : Boundary text :=
  o.start.advance ⟨byteLength needle, needle, o.found.imp fun _ h => ⟨h, rfl⟩⟩

/-- The text behind an occurrence. -/
def behind (o : Occurrence needle text) : List Char := o.stop.after

/-- The occurrence that a text begins with. -/
def first (h : needle <+: text) : Occurrence needle text := ⟨.start, by rwa [Boundary.after_start]⟩

/-- An occurrence with one more character in front of the text. -/
def next (c : Char) (o : Occurrence needle text) : Occurrence needle (c :: text) :=
  ⟨o.start.next c, by rw [Boundary.after_next]; exact o.found⟩

end Occurrence

/-- The first occurrence. -/
def findFirst? (needle : List Char) : (text : List Char) → Option (Occurrence needle text)
  | [] => if h : needle <+: [] then some (.first h) else none
  | c :: rest =>
    if h : needle <+: c :: rest then some (.first h) else (findFirst? needle rest).map (.next c)

/-- The last occurrence. -/
def findLast? (needle : List Char) : (text : List Char) → Option (Occurrence needle text)
  | [] => if h : needle <+: [] then some (.first h) else none
  | c :: rest =>
    match findLast? needle rest with
    | some o => some (o.next c)
    | none => if h : needle <+: c :: rest then some (.first h) else none

/-- The text occurs. -/
def contains (text needle : List Char) : Bool := (findFirst? needle text).isSome

/-- The parts between the occurrences of a delimiter that is not empty. `skip` characters of the last
occurrence are still to be passed, `part` is the part read so far, backwards. -/
def splitFrom (delimiter : List Char) : Nat → List Char → List Char → List (List Char)
  | _, part, [] => [part.reverse]
  | skip + 1, part, _ :: rest => splitFrom delimiter skip part rest
  | 0, part, c :: rest =>
    if delimiter.isPrefixOf (c :: rest) then
      part.reverse :: splitFrom delimiter (delimiter.length - 1) [] rest
    else splitFrom delimiter 0 (c :: part) rest

/-- The parts of a text between the occurrences of a delimiter; an empty delimiter does not split. -/
def split (text delimiter : List Char) : List (List Char) :=
  if delimiter.isEmpty then [text] else splitFrom delimiter 0 [] text

/-- Number of occurrences of a text that is not empty, when `skip` characters of the last one are still to be
passed. -/
def countFrom (needle : List Char) : Nat → List Char → Nat
  | _, [] => 0
  | skip + 1, _ :: rest => countFrom needle skip rest
  | 0, c :: rest =>
    if needle.isPrefixOf (c :: rest) then countFrom needle (needle.length - 1) rest + 1
    else countFrom needle 0 rest

/-- Number of occurrences of a text that is not empty. -/
def count (text needle : List Char) : Nat := countFrom needle 0 text

/-- Every occurrence of a text that is not empty replaced, when `skip` characters of the last one are still to
be passed. -/
def replaceFrom (old new : List Char) : Nat → List Char → List Char
  | _, [] => []
  | skip + 1, _ :: rest => replaceFrom old new skip rest
  | 0, c :: rest =>
    if old.isPrefixOf (c :: rest) then new ++ replaceFrom old new (old.length - 1) rest
    else c :: replaceFrom old new 0 rest

/-- Every occurrence replaced. An empty text occurs before every character and at the end. -/
def replaceAll (text old new : List Char) : List Char :=
  if old.isEmpty then new ++ text.flatMap fun c => c :: new else replaceFrom old new 0 text

/-- An occurrence of a text that is not empty replaced, if there is one. -/
def replaceFound (text old new : List Char) (found : Option (Occurrence old text)) : List Char :=
  match found with
  | some o => if old.isEmpty then text else o.before ++ new ++ o.behind
  | none => text

/-- The first occurrence of a text that is not empty replaced. -/
def replaceFirst (text old new : List Char) : List Char := replaceFound text old new (findFirst? old text)

/-- The last occurrence of a text that is not empty replaced. -/
def replaceLast (text old new : List Char) : List Char := replaceFound text old new (findLast? old text)

-- ---------------------------------------------------------------------------
-- Positions
-- ---------------------------------------------------------------------------

/-- The place of a character, or, with `atEnd`, also the place behind the last one. -/
def place (text : List Char) (position : Int64) (atEnd : Bool) : Except Failure Nat :=
  resolveIndex position (if atEnd then text.length + 1 else text.length)

/-- The boundary before a place. -/
def boundary (text : List Char) (position : Int64) (atEnd : Bool) : Except Failure (Boundary text) := do
  return .ofIndex text (← place text position atEnd)

/-- The first characters of a text. -/
def left (text : List Char) (count : Nat) : List Char := (Boundary.ofIndex text count).before

/-- The last characters of a text. -/
def right (text : List Char) (count : Nat) : List Char :=
  (Boundary.ofIndex text (text.length - count)).after

/-- The position of the first occurrence that does not begin before a position, or zero. -/
def find (text needle : List Char) (start : Int64) : Except Failure Nat := do
  let first ← boundary text start true
  return (findFirst? needle first.after).elim 0 fun o => (first.advance o.start).position

/-- The number of bytes that a search backwards from a position looks at: as many behind the position as the
text sought has. It may end in a character. -/
def searchLimit (text needle : List Char) (start : Int64) : Except Failure Nat := do
  if text.isEmpty then return 0
  let last ← boundary text start false
  return min (last.offset + byteLength needle) (byteLength text)

/-- The position of the last occurrence within the limit of a search, or zero. A character in which the limit
falls belongs to what is searched. -/
def findBack (text needle : List Char) (start : Int64) : Except Failure Nat := do
  let stop := Boundary.roundUp text (← searchLimit text needle start)
  return (findLast? needle stop.before).elim 0 fun o => (stop.within o.start).position

/-- The text from a position on. -/
def slice (text : List Char) (start : Int64) : Except Failure (List Char) := do
  return (← boundary text start true).after

/-- The character at a position, as a text. -/
def charAt (text : List Char) (position : Int64) : Except Failure (List Char) := do
  return (← boundary text position false).after.take 1

def insert (text : List Char) (position : Int64) (piece : List Char) : Except Failure (List Char) := do
  let start ← boundary text position true
  return start.before ++ piece ++ start.after

/-- A number of characters from a position on replaced. -/
def splice (text : List Char) (position : Int64) (count : Nat) (piece : List Char) :
    Except Failure (List Char) := do
  let start ← boundary text position false
  let stop := start.advance (.ofIndex start.after count)
  return start.before ++ piece ++ stop.after

end Rill.Text
