-- SUMMARY: Failures shown to people: a drawing of the source for a syntax error, plain text for any other.
import Rill.Fault
import Rill.Unicode.Property

/-!
# Reports

A syntax error whose source text is at hand is drawn: the line with the offending characters underlined,
the message hanging from the middle of the underline. The characters come from the span of the error,
which counts bytes and need not fit the text; `Label.ofSpan` always gives at least one character of the
text. Any other failure is reported by its headline and the active calls.
-/

namespace Rill

-- ---------------------------------------------------------------------------
-- Labels
-- ---------------------------------------------------------------------------

/-- The number of characters before a byte of a text, none if the byte is inside of a character. A byte
behind the text counts as its end. -/
def charsBefore : List Char → Nat → Option Nat
  | _, 0 => some 0
  | [], _ + 1 => some 0
  | c :: rest, byte + 1 =>
    if byte + 1 < c.utf8Size then none else (charsBefore rest (byte + 1 - c.utf8Size)).map (· + 1)

/-- A range of characters of a text, its end exclusive. -/
structure Label where
  start : Nat
  stop : Nat
  deriving Repr, DecidableEq

/-- The characters of a span, at least one and within the text. -/
def Label.ofSpan (source : List Char) (span : Span) : Label :=
  let chars (byte : Nat) : Nat := (charsBefore source byte).getD 0
  let start := min (chars span.start) (source.length - 1)
  ⟨start, max (start + 1) (min (chars span.stop) source.length)⟩

-- ---------------------------------------------------------------------------
-- Lines
-- ---------------------------------------------------------------------------

/-- A character that ends a line of a drawing. -/
def endsLine (c : Char) : Bool :=
  c = '\n' || c = '\r' || c = '\x0b' || c = '\x0c' || c = '\u0085' || c = '\u2028' || c = '\u2029'

/-- The lines of a text, each with the characters that end it. A carriage return and a line feed end a
line together. -/
def drawnLines : List Char → List (List Char)
  | [] => []
  | '\r' :: '\n' :: rest => ['\r', '\n'] :: drawnLines rest
  | c :: rest =>
    if endsLine c then [c] :: drawnLines rest
    else
      match drawnLines rest with
      | [] => [[c]]
      | line :: lines => (c :: line) :: lines

/-- The line that holds a character: how many lines and how many of its own characters stand before the
character, and the line. -/
def lineAt : List (List Char) → Nat → Nat × Nat × List Char
  | [], column => (0, column, [])
  | line :: lines, place =>
    if place < line.length then (0, place, line)
    else
      let (number, column, line) := lineAt lines (place - line.length)
      (number + 1, column, line)

-- ---------------------------------------------------------------------------
-- Drawings
-- ---------------------------------------------------------------------------

/-- How often a character is drawn. A tab goes on to the next multiple of four characters. -/
def drawnWidth (c : Char) (column : Nat) : Nat := if c = '\t' then 4 - column % 4 else 1

/-- The text of a line as it is drawn, with a blank for white space and none at the end. -/
def drawnText (line : List Char) : List Char :=
  ((Unicode.trimEnd line).zipIdx.map fun (c, column) =>
    List.replicate (drawnWidth c column) (if Unicode.isBlank c then ' ' else c)).flatten

/-- A row below a line: under each of its first characters a mark, as wide as the character is drawn.
Behind its first place the mark of a character goes on as `tail`. -/
def drawnRow (line : List Char) (length : Nat) (mark tail : Nat → Char) : List Char :=
  let chars := Unicode.trimEnd line
  ((List.range length).map fun column =>
    mark column :: List.replicate ((chars[column]?.elim 1 (drawnWidth · column)) - 1) (tail column)).flatten

/-- The underline of the columns from `start` to `stop`, with a stem at `stem`, and two more columns. -/
def underline (line : List Char) (start stop stem : Nat) : List Char :=
  let tail (column : Nat) : Char := if start ≤ column ∧ column < stop then '─' else ' '
  drawnRow line (stop + 2) (fun column => if column = stem then '┬' else tail column) tail

/-- The arm from the stem to the message. -/
def arm (line : List Char) (stop stem : Nat) : List Char :=
  let tail (column : Nat) : Char := if stem ≤ column then '─' else ' '
  drawnRow line (stop + 2) (fun column => if column = stem then '╰' else tail column) tail

/-- Rows of text, each ended by a line feed. -/
def unlines (rows : List String) : String := String.join (rows.map (· ++ "\n"))

namespace Failure

/-- The failure drawn under the characters of a source text. A label that goes on behind its first line
is cut there. -/
def drawing (e : Failure) (source : List Char) (label : Label) : String :=
  let (number, column, line) := lineAt (drawnLines source) label.start
  let stop := min (column + (label.stop - label.start)) (max line.length (column + 1))
  let stem := (column + stop) / 2
  let number := toString (number + 1)
  let margin := "".pushn ' ' (number.length + 2)
  let row (text : List Char) : String := margin ++ "│ " ++ String.ofList text
  unlines <|
    [ "Error: " ++ e.headline,
      margin ++ "╭─[" ++ e.file.getD "[string]" ++ ":" ++ number ++ ":" ++ toString (column + 1) ++ "]",
      margin ++ "│",
      " " ++ number ++ " │ " ++ String.ofList (drawnText line),
      row (underline line column stop stem),
      row (arm line stop stem) ++ " " ++ e.message ] ++
    (e.fault.notes.getLast?.elim [] fun note => [row [], row [] ++ "Note: " ++ note]) ++
    ["".pushn '─' (number.length + 2) ++ "╯"]

/-- The failure as it is shown to a person. `source` is the text it came from, if that is known. -/
def report (e : Failure) (source : Option String) : String :=
  match e.category, e.span, source.map String.toList with
  | .badSyntax, some span, some (c :: rest) => e.drawing (c :: rest) (.ofSpan (c :: rest) span)
  | _, _, _ => unlines (e.display :: e.fault.notes.map ("note: " ++ ·))

/-- The exit status of a program that a failure ends. -/
def exitStatus (e : Failure) : Int := if e.isExit then e.fault.status else 1

end Failure

end Rill
