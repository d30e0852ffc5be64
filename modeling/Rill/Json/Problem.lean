-- SUMMARY: What can be wrong with a JSON text.

/-!
# Problems of JSON texts

A JSON text is refused at its first problem, which is reported with a line, counted from one, and the
number of bytes of that line read so far.
-/

namespace Rill.Json

inductive Problem
  | endInValue | endInList | endInObject | endInString
  | expectedValue | expectedIdent | expectedColon | expectedListComma | expectedObjectComma
  | keyNotString | trailingComma | trailingCharacters
  | invalidNumber | numberOutOfRange | invalidEscape | controlCharacter
  | loneSurrogate | endOfHexEscape | tooDeep
  deriving Repr, DecidableEq

def Problem.text : Problem → String
  | .endInValue => "EOF while parsing a value"
  | .endInList => "EOF while parsing a list"
  | .endInObject => "EOF while parsing an object"
  | .endInString => "EOF while parsing a string"
  | .expectedValue => "expected value"
  | .expectedIdent => "expected ident"
  | .expectedColon => "expected `:`"
  | .expectedListComma => "expected `,` or `]`"
  | .expectedObjectComma => "expected `,` or `\x7d`"
  | .keyNotString => "key must be a string"
  | .trailingComma => "trailing comma"
  | .trailingCharacters => "trailing characters"
  | .invalidNumber => "invalid number"
  | .numberOutOfRange => "number out of range"
  | .invalidEscape => "invalid escape"
  | .controlCharacter => "control character (\\u0000-\\u001F) found while parsing a string"
  | .loneSurrogate => "lone leading surrogate in hex escape"
  | .endOfHexEscape => "unexpected end of hex escape"
  | .tooDeep => "recursion limit exceeded"

/-- A problem and where it was met. -/
structure Complaint where
  problem : Problem
  line : Nat
  column : Nat
  deriving Repr, DecidableEq

def Complaint.text (c : Complaint) : String :=
  c.problem.text ++ " at line " ++ toString c.line ++ " column " ++ toString c.column

end Rill.Json
