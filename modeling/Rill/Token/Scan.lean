-- SUMMARY: The scanner: a source text as a sequence of tokens, by longest match.
import Rill.Decimal.Read
import Rill.Token
import Rill.Unicode.Property

/-!
# Scanning

`munch` looks at the first character of what is left and says how many more characters belong to the
same lexeme and what the lexeme is; `scanFrom` repeats it, keeping count of bytes and lines. Blanks and
`#` comments separate lexemes and produce none. Scanning stops at the first error.
-/

namespace Rill

-- ---------------------------------------------------------------------------
-- Errors
-- ---------------------------------------------------------------------------

/-- Why a text cannot be scanned. -/
inductive ScanFault
  | invalidCharacter (found : Char)
  | unterminatedString
  | integerOverflow
  deriving Repr, DecidableEq

def ScanFault.message : ScanFault → String
  | .invalidCharacter c => "invalid character '" ++ String.singleton c ++ "'"
  | .unterminatedString => "unterminated string literal"
  | .integerOverflow => "integer literal is too large"

/-- A suggestion shown under the error. -/
def ScanFault.hint : ScanFault → Option String
  | .invalidCharacter '!' => some "use \"not\" for logical negation"
  | .invalidCharacter _ => none
  | .unterminatedString => some "add the closing quote"
  | .integerOverflow => some "use a float literal for very large numbers"

/-- A scanning error and where it stands. -/
structure ScanError where
  fault : ScanFault
  span : Span
  line : Nat
  deriving Repr, DecidableEq

-- ---------------------------------------------------------------------------
-- Character classes
-- ---------------------------------------------------------------------------

/-- Blanks within a line. -/
def isLayout (c : Char) : Bool :=
  c == ' ' || c == '\t' || c == '\r' || c == '\x0b' || c == '\x0c'

/-- Characters of a number after its first digit. -/
def isNumeral (c : Char) : Bool := c.isDigit || c == '_'

/-- The first character of a name. -/
def isNameStart (c : Char) : Bool := Unicode.isLetter c || c == '_'

/-- Further characters of a name, before the dollar signs it may end in. -/
def isNameRest (c : Char) : Bool := Unicode.isLetter c || Unicode.isNumber c || c == '_'

-- ---------------------------------------------------------------------------
-- Lexemes
-- ---------------------------------------------------------------------------

/-- What the next lexeme is. -/
inductive Lexeme
  | blank
  | token (kind : TokenKind)
  | fault (why : ScanFault)
  deriving Repr, DecidableEq

/-- A lexeme and the number of characters it takes after its first. -/
structure Munch where
  extra : Nat
  lexeme : Lexeme
  deriving Repr, DecidableEq

/-- The value of the decimal digits in a numeral; other characters are skipped. -/
def digitsValue (cs : List Char) : Nat :=
  cs.foldl (fun n c => if c.isDigit then 10 * n + (c.toNat - 48) else n) 0

/-- The number of characters at the start of `cs` that satisfy `p`. -/
def runLength (p : Char → Bool) (cs : List Char) : Nat := (cs.takeWhile p).length

/-- A number that starts with the digit `c`: an integer, or a float if a point follows its digits. -/
def munchNumber (c : Char) (cs : List Char) : Munch :=
  let whole := cs.takeWhile isNumeral
  match cs.drop whole.length with
  | '.' :: rest =>
    let fraction := rest.takeWhile isNumeral
    let places := (fraction.filter Char.isDigit).length
    ⟨whole.length + 1 + fraction.length,
      .token (.float (Decimal.floatOfDecimal (digitsValue (c :: whole ++ fraction)) (-(places : Int))))⟩
  | _ =>
    let n := digitsValue (c :: whole)
    ⟨whole.length, if n < 0x10000000000000000 then .token (.int n) else .fault .integerOverflow⟩

/-- A name that starts with `c`, or the keyword it spells. -/
def munchName (c : Char) (cs : List Char) : Munch :=
  let body := cs.takeWhile isNameRest
  let dollars := (cs.drop body.length).takeWhile (· == '$')
  let text := String.ofList (c :: body ++ dollars)
  ⟨body.length + dollars.length,
    .token (match Keyword.ofSpelling? text with
      | some w => .keyword w
      | none => .ident text)⟩

/-- The text that an escape stands for: a backslash before any other character stays. -/
def escape : Char → List Char
  | 'n' => ['\n']
  | 't' => ['\t']
  | 'r' => ['\r']
  | 'v' => ['\x0b']
  | 'a' => ['\x07']
  | 'b' => ['\x08']
  | 'f' => ['\x0c']
  | '\\' => ['\\']
  | '\'' => ['\'']
  | '"' => ['"']
  | c => ['\\', c]

/-- The text of a literal after its opening quote and the number of characters read, the closing quote
included; nothing if no closing quote follows. -/
def cook (quote : Char) : List Char → Option (List Char × Nat)
  | [] => none
  | c :: cs =>
    if c = quote then some ([], 1)
    else if c = '\\' then
      match cs with
      | [] => none
      | e :: rest => (cook quote rest).map fun (text, n) => (escape e ++ text, n + 2)
    else (cook quote cs).map fun (text, n) => (c :: text, n + 1)

/-- A string literal after its opening quote. -/
def munchString (quote : Char) (cs : List Char) : Munch :=
  match cook quote cs with
  | some (text, n) => ⟨n, .token (.str (String.ofList text))⟩
  | none => ⟨cs.length, .fault .unterminatedString⟩

/-- The longest operator or mark that starts with `c`. -/
def munchMark (c : Char) (cs : List Char) : Munch :=
  let one (m : Mark) : Munch := ⟨0, .token (.mark m)⟩
  let withAssign (plain compound : Mark) : Munch :=
    match cs with
    | '=' :: _ => ⟨1, .token (.mark compound)⟩
    | _ => one plain
  match c with
  | '=' => withAssign .assign .eqEq
  | '+' => withAssign .plus .plusAssign
  | '-' => withAssign .minus .minusAssign
  | '*' => withAssign .star .starAssign
  | '/' => withAssign .slash .slashAssign
  | '^' => withAssign .caret .caretAssign
  | '%' => withAssign .percent .percentAssign
  | '&' => withAssign .amp .ampAssign
  | '>' => withAssign .gt .gtEq
  | '<' =>
    match cs with
    | '=' :: '>' :: _ => ⟨2, .token (.mark .spaceship)⟩
    | '=' :: _ => ⟨1, .token (.mark .ltEq)⟩
    | _ => one .lt
  | '!' =>
    match cs with
    | '=' :: _ => ⟨1, .token (.mark .notEq)⟩
    | _ => ⟨0, .fault (.invalidCharacter '!')⟩
  | '@' => one .atSign
  | '(' => one .lParen
  | ')' => one .rParen
  | '[' => one .lBracket
  | ']' => one .rBracket
  | '{' => one .lBrace
  | '}' => one .rBrace
  | ',' => one .comma
  | ':' => one .colon
  | '.' => one .dot
  | ';' => one .semicolon
  | other => ⟨0, .fault (.invalidCharacter other)⟩

/-- The lexeme at the start of `c :: cs`. -/
def munch (c : Char) (cs : List Char) : Munch :=
  if isLayout c then ⟨runLength isLayout cs, .blank⟩
  else if c = '#' then ⟨runLength (· != '\n') cs, .blank⟩
  else if c = '\n' then ⟨0, .token .eol⟩
  else if c.isDigit then munchNumber c cs
  else if c = '"' || c = '\'' then munchString c cs
  else if isNameStart c then munchName c cs
  else munchMark c cs

-- ---------------------------------------------------------------------------
-- Whole texts
-- ---------------------------------------------------------------------------

/-- The tokens of a text, up to its first error if there is one. Without an error the last token is
`eof`. -/
structure Scan where
  tokens : List Token
  error : Option ScanError
  deriving Repr, DecidableEq

/-- The tokens of what is left of a text, `p` being its position. -/
def scanFrom (p : Position) : List Char → Scan
  | [] => ⟨[⟨.eof, ⟨p.offset, p.offset⟩, p.line⟩], none⟩
  | c :: cs =>
    let m := munch c cs
    let next := p.after (c :: cs.take m.extra)
    let span : Span := ⟨p.offset, next.offset⟩
    match m.lexeme with
    | .fault why => ⟨[], some ⟨why, span, p.line⟩⟩
    | .blank => scanFrom next (cs.drop m.extra)
    | .token kind =>
      let rest := scanFrom next (cs.drop m.extra)
      { rest with tokens := ⟨kind, span, p.line⟩ :: rest.tokens }
termination_by cs => cs.length
decreasing_by all_goals (simp only [List.length_cons, List.length_drop]; omega)

theorem scanFrom_nil (p : Position) : scanFrom p [] = ⟨[⟨.eof, ⟨p.offset, p.offset⟩, p.line⟩], none⟩ := by
  rw [scanFrom]

/-- The tokens of a source text. -/
def scan (source : String) : Scan := scanFrom {} source.toList

/-- The distinct texts of names and string literals, in order of first occurrence. -/
def internedTexts (tokens : List Token) : List String :=
  tokens.foldl (fun seen t =>
    match t.kind with
    | .str text | .ident text => if seen.contains text then seen else seen ++ [text]
    | _ => seen) []

end Rill
