-- SUMMARY: The structure of regular expressions: character classes, assertions and expressions.
import Rill.Unicode.Case
import Rill.Unicode.Property
import Rill.Unicode.Word

/-!
# Regular expressions

What a pattern says. A `CharClass` is a test on one character, an `Assertion` a test on a place between
two characters, and a `Node` an expression over them.
-/

namespace Rill.Pattern

-- ---------------------------------------------------------------------------
-- Character classes
-- ---------------------------------------------------------------------------

/-- A set of characters. `folded` adds every character that differs from a member only in case. -/
inductive CharClass
  | range (low high : Char)
  | letter | number | decimal | word | blank | upper | lower | cased
  | none
  | any
  | union (left right : CharClass)
  | both (left right : CharClass)
  | not (inner : CharClass)
  | folded (inner : CharClass)
  deriving Repr, DecidableEq

namespace CharClass

/-- The character is a member. -/
def accepts : CharClass → Char → Bool
  | .range low high, c => low ≤ c && c ≤ high
  | .letter, c => Unicode.isLetter c
  | .number, c => Unicode.isNumber c
  | .decimal, c => Unicode.isDecimal c
  | .word, c => Unicode.isWord c
  | .blank, c => Unicode.isBlank c
  | .upper, c => Unicode.isCased c && Unicode.lowerChar c ≠ [c]
  | .lower, c => Unicode.isCased c && Unicode.upperChar c ≠ [c]
  | .cased, c => Unicode.isCased c
  | .none, _ => false
  | .any, _ => true
  | .union a b, c => a.accepts c || b.accepts c
  | .both a b, c => a.accepts c && b.accepts c
  | .not a, c => !a.accepts c
  | .folded a, c => a.accepts c || (Unicode.foldOrbit c).any a.accepts

/-- The single character. -/
def single (c : Char) : CharClass := .range c c

def ofRanges (ranges : List (Char × Char)) : CharClass :=
  ranges.foldr (fun (low, high) rest => .union (.range low high) rest) .none

/-- Members of the first class that are not in the second. -/
def difference (a b : CharClass) : CharClass := .both a (.not b)

/-- Members of exactly one of the classes. -/
def symmetricDifference (a b : CharClass) : CharClass := .union (a.difference b) (b.difference a)

/-- A named class of ASCII characters. -/
def ascii? : String → Option CharClass
  | "alnum" => some (ofRanges [('0', '9'), ('A', 'Z'), ('a', 'z')])
  | "alpha" => some (ofRanges [('A', 'Z'), ('a', 'z')])
  | "ascii" => some (.range '\x00' '\x7F')
  | "blank" => some (ofRanges [('\t', '\t'), (' ', ' ')])
  | "cntrl" => some (ofRanges [('\x00', '\x1F'), ('\x7F', '\x7F')])
  | "digit" => some (.range '0' '9')
  | "graph" => some (.range '!' '~')
  | "lower" => some (.range 'a' 'z')
  | "print" => some (.range ' ' '~')
  | "punct" => some (ofRanges [('!', '/'), (':', '@'), ('[', '\x60'), ('\x7B', '~')])
  | "space" => some (ofRanges [('\t', '\r'), (' ', ' ')])
  | "upper" => some (.range 'A' 'Z')
  | "word" => some (ofRanges [('0', '9'), ('A', 'Z'), ('_', '_'), ('a', 'z')])
  | "xdigit" => some (ofRanges [('0', '9'), ('A', 'F'), ('a', 'f')])
  | _ => none

/-- A class named by a Unicode property. Case, spaces, hyphens and underscores in the name are ignored. -/
def property? (name : String) : Option CharClass :=
  let significant := name.toList.filter fun c => c ≠ ' ' && c ≠ '-' && c ≠ '_'
  match String.ofList (significant.map Char.toLower) with
  | "l" | "letter" => some .letter
  | "n" | "number" => some .number
  | "nd" | "decimalnumber" | "digit" => some .decimal
  | "lu" | "uppercaseletter" | "upper" | "uppercase" => some .upper
  | "ll" | "lowercaseletter" | "lower" | "lowercase" => some .lower
  | "cased" => some .cased
  | "alphabetic" | "alpha" => some .letter
  | "whitespace" | "space" | "wspace" => some .blank
  | "word" | "w" => some .word
  | "any" => some .any
  | "ascii" => some (.range '\x00' '\x7F')
  | _ => none

end CharClass

-- ---------------------------------------------------------------------------
-- Expressions
-- ---------------------------------------------------------------------------

/-- A test on a place in the text. Half tests look at one side only. -/
inductive Assertion
  | textStart | textEnd | lineStart | lineEnd | wordEdge | noWordEdge | wordStart | wordEnd
  | wordStartHalf | wordEndHalf
  deriving Repr, DecidableEq

/-- An expression. `greedy` prefers more repetitions. -/
inductive Node
  | empty
  | one (cls : CharClass)
  | check (assertion : Assertion)
  | group (index : Nat) (body : Node)
  | concat (first second : Node)
  | either (first second : Node)
  | repeated (body : Node) (min : Nat) (max : Option Nat) (greedy : Bool)
  deriving Repr, DecidableEq

/-- The expression can match without consuming a character. -/
def Node.isNullable : Node → Bool
  | .empty | .check _ => true
  | .one _ => false
  | .group _ body => body.isNullable
  | .concat a b => a.isNullable && b.isNullable
  | .either a b => a.isNullable || b.isNullable
  | .repeated body min _ _ => min = 0 || body.isNullable

/-- The expression can only match without consuming a character. -/
def Node.isEmptyOnly : Node → Bool
  | .empty | .check _ => true
  | .one _ => false
  | .group _ body => body.isEmptyOnly
  | .concat a b | .either a b => a.isEmptyOnly && b.isEmptyOnly
  | .repeated body _ max _ => max = some 0 || body.isEmptyOnly

end Rill.Pattern
