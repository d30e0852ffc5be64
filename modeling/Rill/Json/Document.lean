-- SUMMARY: JSON documents and their compact text.
import Rill.Decimal.FloatText

/-!
# JSON documents

A document keeps integers and floats apart, and its objects keep the order of their fields. It is written
without blanks.
-/

namespace Rill.Json

inductive Document
  | null
  | bool (value : Bool)
  | int (value : Int64)
  | float (value : Float)
  | text (value : String)
  | list (items : List Document)
  | object (fields : List (String × Document))
  deriving Repr, Inhabited

-- ---------------------------------------------------------------------------
-- Strings
-- ---------------------------------------------------------------------------

/-- A control character as four hexadecimal digits. -/
def controlEscape (c : Char) : List Char :=
  '\\' :: 'u' :: '0' :: '0' :: [Nat.digitChar (c.toNat / 16), Nat.digitChar (c.toNat % 16)]

/-- A character as it stands in a string. Quotes, backslashes and control characters are escaped. -/
def writeChar (c : Char) : List Char :=
  match c with
  | '"' => ['\\', '"']
  | '\\' => ['\\', '\\']
  | '\n' => ['\\', 'n']
  | '\r' => ['\\', 'r']
  | '\t' => ['\\', 't']
  | '\x08' => ['\\', 'b']
  | '\x0c' => ['\\', 'f']
  | c => if c.toNat < 32 then controlEscape c else [c]

/-- A text as a string. -/
def writeString (s : String) : List Char := '"' :: s.toList.flatMap writeChar ++ ['"']

-- ---------------------------------------------------------------------------
-- Documents
-- ---------------------------------------------------------------------------

mutual

/-- The text of a document. -/
def Document.write : Document → List Char
  | .null => "null".toList
  | .bool b => (toString b).toList
  | .int n => (toString n).toList
  | .float x => (Decimal.jsonForm.write x).toList
  | .text s => writeString s
  | .list [] => ['[', ']']
  | .list (d :: rest) => '[' :: d.write ++ writeItems rest
  | .object [] => ['\x7b', '\x7d']
  | .object ((key, d) :: rest) => '\x7b' :: writeString key ++ ':' :: d.write ++ writeFields rest

/-- The rest of a list behind an item. -/
def writeItems : List Document → List Char
  | [] => [']']
  | d :: rest => ',' :: d.write ++ writeItems rest

/-- The rest of an object behind a field. -/
def writeFields : List (String × Document) → List Char
  | [] => ['\x7d']
  | (key, d) :: rest => ',' :: writeString key ++ ':' :: d.write ++ writeFields rest

end

end Rill.Json
