-- SUMMARY: The text of values, as printed and concatenated.
import Rill.Heap

/-!
# Text of values

Texts inside containers are put in quotes, which are not escaped. Containers that are nested too deep,
as those that contain themselves always are, end in dots.
-/

namespace Rill.Heap

/-- Containers nested deeper than this are not shown. -/
def shownDepth : Nat := 64

/-- The text of a key inside a container. -/
def keyText : Key → String
  | .text s => quoted s
  | key => key.display

/-- The numbers of a matrix: rows are separated by semicolons. -/
def matrixText (m : Matrix) : String :=
  let separator (k : Nat) : String := if k = 0 then "" else if k % m.cols = 0 then "; " else ", "
  "@[" ++ String.join (m.data.toList.mapIdx fun k x => separator k ++ Decimal.scriptForm.write x) ++ "]"

def spelled (items : Array String) : String := ", ".intercalate items.toList

/-- The text of what an object holds, given the text of the values in it. -/
def contentText (h : Heap) (cls : ClassId) (value : Value → String) : Content → String
  | .list items => "[" ++ spelled (items.map value) ++ "]"
  | .table entries =>
    "\x7b" ++ spelled (entries.entries.map fun (k, v) => keyText k ++ ": " ++ value v) ++ "\x7d"
  | .set elements => "\x7b" ++ spelled (elements.map keyText) ++ "\x7d"
  | .array m => matrixText m
  | .function f => "<Function " ++ f.name ++ ">"
  | .cls c => "<Class " ++ h.classes.name c ++ ">"
  | .space s => "<Module " ++ s.name ++ ">"
  | .iterator _ => "<" ++ h.classes.name cls ++ ">"
  | .regex m => "<Regex " ++ quoted m.source ++ ">"
  | .file f => "<File " ++ quoted f.path ++ ">"

/-- The text of a value in which containers may be nested `levels` deep. -/
def textWithin (h : Heap) : Nat → Bool → Value → String
  | levels, inContainer, v =>
    match h.resolve v with
    | .null | .cell _ => "null"
    | .bool b => toString b
    | .int n => toString n
    | .float x => Decimal.scriptForm.write x
    | .text s => if inContainer then quoted s else s
    | .object id =>
      match levels with
      | 0 => "..."
      | levels + 1 =>
        match h.object? id with
        | some o => h.contentText o.cls (textWithin h levels true) o.content
        | none => ""

/-- The text of a value. -/
def text (h : Heap) (v : Value) : String := h.textWithin shownDepth false v

end Rill.Heap
