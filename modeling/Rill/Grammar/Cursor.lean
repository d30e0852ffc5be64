-- SUMMARY: Reading tokens one at a time: the cursor, its basic moves, and the errors of the grammar.
import Rill.Token.Scan
import Rill.Tree

/-!
# Cursor

The grammar reads tokens through a `Cursor`: one token of lookahead, the tokens after it, and the end of
the last token read. A scanning error is met when the cursor would move onto it, so an error of the
grammar that comes first is reported first.
-/

namespace Rill

-- ---------------------------------------------------------------------------
-- Errors
-- ---------------------------------------------------------------------------

/-- What the grammar wanted to see. -/
inductive Expectation
  | token (kind : TokenKind)
  | statement
  | separator
  | identifier
  | direction
  | expression
  deriving Repr, DecidableEq

def Expectation.text : Expectation → String
  | .token k => quoted k.spelling
  | .statement => "a statement"
  | .separator => "a new line or \";\""
  | .identifier => "an identifier"
  | .direction => "\"to\" or \"downto\""
  | .expression => "an expression"

/-- The construct an expectation belongs to. -/
inductive Context
  | topLevel | afterStatement | whileLoop | repeatLoop | forLoop | foreachLoop | ifStatement | elsifCondition
  | doBlock | debugBlock | declaration | functionDeclaration | functionLiteral | parameterList
  | conditional | afterDot | index | argumentList | listLiteral | arrayLiteral | tableLiteral | setLiteral
  | parentheses | here
  deriving Repr, DecidableEq

def Context.text : Context → String
  | .topLevel => "at top level"
  | .afterStatement => "after statement"
  | .whileLoop => "in \"while\" loop"
  | .repeatLoop => "in \"repeat\" loop"
  | .forLoop => "in \"for\" loop"
  | .foreachLoop => "in \"foreach\" loop"
  | .ifStatement => "in \"if\" statement"
  | .elsifCondition => "in \"elsif\" condition"
  | .doBlock => "in \"do\" block"
  | .debugBlock => "in \"debug\" block"
  | .declaration => "in variable declaration"
  | .functionDeclaration => "in function declaration"
  | .functionLiteral => "in function literal"
  | .parameterList => "in parameter list"
  | .conditional => "in conditional expression"
  | .afterDot => "after \".\""
  | .index => "in index"
  | .argumentList => "in argument list"
  | .listLiteral => "in list literal"
  | .arrayLiteral => "in array literal"
  | .tableLiteral => "in table literal"
  | .setLiteral => "in set literal"
  | .parentheses => "in parenthesized expression"
  | .here => "here"

/-- Why a text is no script. -/
inductive ParseFault
  | scan (fault : ScanFault)
  | expected (what : Expectation) (context : Context) (found : TokenKind)
  | invalidOption (found : TokenKind)
  | invalidOptionValue
  | unevenDeclaration (names values : Nat)
  | keyByReference
  | duplicateParameter (name : String)
  | tooManyParameters
  | notAssignable
  | chainedComparison
  | literalTooLarge
  | emptyIndex
  | raggedArray
  | unreadable (path reason : String)
  | nestedTooDeeply
  deriving Repr, DecidableEq

def ParseFault.message : ParseFault → String
  | .scan f => f.message
  | .expected what context found =>
    "expected " ++ what.text ++ " " ++ context.text ++ " but got " ++ found.describe
  | .invalidOption found => "invalid option: expected \"debug\" but got " ++ found.describe
  | .invalidOptionValue => "option value should be \"true\" (default) or \"false\""
  | .unevenDeclaration names values =>
    "invalid declaration: " ++ toString names ++ " name(s) but " ++ toString values ++ " value(s)"
  | .keyByReference => "key in \"foreach\" loop cannot be taken by reference"
  | .duplicateParameter name => "duplicate parameter " ++ quoted name
  | .tooManyParameters => "a function cannot have more than " ++ toString maxParams ++ " parameters"
  | .notAssignable => "cannot assign to this expression"
  | .chainedComparison => "comparison operators cannot be chained"
  | .literalTooLarge => "integer literal is too large"
  | .emptyIndex => "empty index"
  | .raggedArray => "inconsistent number of columns in array literal"
  | .unreadable path reason => "cannot read file " ++ quoted path ++ ": " ++ reason
  | .nestedTooDeeply => "the text is nested too deeply"

/-- A suggestion shown under the error: about a missing `end`, or a single `=` where a comparison was
meant. -/
def ParseFault.hint : ParseFault → Option String
  | .scan f => f.hint
  | .expected (.token (.keyword .endKw)) _ _ => some "every block must be closed with \"end\""
  | .expected _ _ (.mark .assign) => some "use \"==\" to compare values"
  | _ => none

/-- A syntax error and where it stands. Line zero means that it has no position. -/
structure ParseError where
  fault : ParseFault
  span : Span
  line : Nat
  deriving Repr, DecidableEq

def ParseError.ofScan (e : ScanError) : ParseError := ⟨.scan e.fault, e.span, e.line⟩

-- ---------------------------------------------------------------------------
-- The cursor
-- ---------------------------------------------------------------------------

/-- A place in a sequence of tokens. `failure` is the scanning error behind the last token, if any. -/
structure Cursor where
  token : Token
  rest : List Token
  failure : Option ScanError
  prevEnd : Nat
  deriving Repr, DecidableEq

/-- A reader of part of a token sequence. -/
abbrev Parser := StateT Cursor (Except ParseError)

/-- The cursor on the first token of a text. -/
def Cursor.start (s : Scan) : Except ParseError Cursor :=
  match s.tokens, s.error with
  | t :: rest, e => .ok ⟨t, rest, e, 0⟩
  | [], some e => .error (.ofScan e)
  | [], none => .ok ⟨⟨.eof, ⟨0, 0⟩, 1⟩, [], none, 0⟩

/-- The cursor one token further. At the end of the text it stays. -/
def Cursor.advance (c : Cursor) : Except ParseError Cursor :=
  match c.rest, c.failure with
  | t :: rest, _ => .ok { c with token := t, rest := rest, prevEnd := c.token.span.stop }
  | [], some e => .error (.ofScan e)
  | [], none => .ok { c with prevEnd := c.token.span.stop }

namespace Parser

def advance : Parser Unit := fun c => (c.advance).map ((), ·)

/-- The kind of the current token. -/
def kind : Parser TokenKind := fun c => .ok (c.token.kind, c)

/-- The line and the first byte of the current token, where a node may start. -/
def here : Parser (Nat × Nat) := fun c => .ok ((c.token.line, c.token.span.start), c)

/-- The site of a node that started at `start` and ends with the last token read. -/
def siteFrom (start : Nat × Nat) : Parser Site := fun c =>
  .ok (⟨start.1, ⟨start.2, max c.prevEnd start.2⟩⟩, c)

/-- Fails at the current token. -/
def fail (fault : ParseFault) : Parser α := fun c => .error ⟨fault, c.token.span, c.token.line⟩

/-- Fails because something else should stand here. -/
def expected (what : Expectation) (context : Context) : Parser α := fun c =>
  .error ⟨.expected what context c.token.kind, c.token.span, c.token.line⟩

/-- Reads the current token if it has the given kind. -/
def accept (k : TokenKind) : Parser Bool := do
  if (← kind) = k then
    advance
    return true
  else
    return false

/-- Reads the current token, which must have the given kind. -/
def expect (k : TokenKind) (context : Context) : Parser Unit := do
  if !(← accept k) then expected (.token k) context

def acceptKw (w : Keyword) : Parser Bool := accept (.keyword w)

def acceptMark (m : Mark) : Parser Bool := accept (.mark m)

def expectKw (w : Keyword) (context : Context) : Parser Unit := expect (.keyword w) context

def expectMark (m : Mark) (context : Context) : Parser Unit := expect (.mark m) context

/-- Reads a name. -/
def ident (context : Context) : Parser String := do
  match ← kind with
  | .ident name =>
    advance
    return name
  | _ => expected .identifier context

/-- Passes tokens as long as `p` holds, `limit` at most. -/
def skipWhile (p : Token → Bool) : Nat → Parser Unit
  | 0 => fail .nestedTooDeeply
  | limit + 1 => fun c =>
    if p c.token then
      match c.advance with
      | .ok c' => skipWhile p limit c'
      | .error e => .error e
    else .ok ((), c)

/-- Passes statement separators. -/
def skipSeparators : Parser Unit := fun c => skipWhile Token.isSeparator (c.rest.length + 2) c

/-- Passes line ends. -/
def skipNewlines : Parser Unit := fun c => skipWhile (·.kind = .eol) (c.rest.length + 2) c

end Parser

end Rill
