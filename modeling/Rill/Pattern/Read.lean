-- SUMMARY: The reader of regular expression patterns.
import Rill.Decimal.Read
import Rill.Pattern.Node

/-!
# Reading patterns

Turns the text of a pattern into an expression. Modes are set from outside or by the pattern itself, where
they hold to the end of the group that sets them. Readers that recur take a bound that the length of the
pattern satisfies.
-/

namespace Rill.Pattern

-- ---------------------------------------------------------------------------
-- Reader state
-- ---------------------------------------------------------------------------

/-- Modes of reading: letters match either case, line assertions hold at line breaks, a dot matches line
breaks, blanks and comments are skipped, preferences of repetitions are swapped, classes hold characters
of all scripts. -/
structure Modes where
  caseless : Bool := false
  multiline : Bool := false
  dotall : Bool := false
  extended : Bool := false
  ungreedy : Bool := false
  unicode : Bool := true
  deriving Repr, DecidableEq

/-- Sets or clears the mode named by a letter. -/
def Modes.set? (m : Modes) (value : Bool) : Char → Option Modes
  | 'i' => some { m with caseless := value }
  | 'm' => some { m with multiline := value }
  | 's' => some { m with dotall := value }
  | 'U' => some { m with ungreedy := value }
  | 'u' => some { m with unicode := value }
  | 'x' => some { m with extended := value }
  | 'R' => some m
  | _ => none

structure Reader where
  rest : List Char
  modes : Modes
  groups : Nat := 0
  names : List String := []

abbrev Reading := StateT Reader (Except String)

namespace Reading

def peek : Reading (Option Char) := do return (← get).rest.head?

/-- The character behind the next one. -/
def peekSecond : Reading (Option Char) := do return (← get).rest[1]?

def skip (count : Nat) : Reading Unit := modify fun r => { r with rest := r.rest.drop count }

def fail (reason : String) : Reading α := throw reason

/-- Takes the next character, which must be there. -/
def take : Reading Char := do
  match (← get).rest with
  | c :: rest =>
    modify ({ · with rest := rest })
    return c
  | [] => fail "unexpected end of pattern"

/-- Takes the next character if it is `c`. -/
def accept (c : Char) : Reading Bool := do
  if (← peek) = some c then
    skip 1
    return true
  return false

/-- Takes the next characters if they are `text`. -/
def acceptText (text : String) : Reading Bool := do
  if text.toList.isPrefixOf (← get).rest then
    skip text.length
    return true
  return false

/-- The text behind blanks and comments. -/
def dropSpace : Nat → List Char → List Char
  | 0, cs => cs
  | fuel + 1, cs =>
    match cs with
    | '#' :: rest => dropSpace fuel (rest.dropWhile (· ≠ '\n'))
    | c :: rest => if Unicode.isBlank c then dropSpace fuel rest else cs
    | [] => []

/-- Skips blanks and comments where they carry no meaning. -/
def skipSpace : Reading Unit := modify fun r =>
  if r.modes.extended then { r with rest := dropSpace (r.rest.length + 1) r.rest } else r

-- ---------------------------------------------------------------------------
-- Escapes
-- ---------------------------------------------------------------------------

/-- What an escape or a plain character stands for. -/
inductive Primitive
  | literal (c : Char)
  | cls (c : CharClass)
  | assertion (a : Assertion)

def hexValue? (cs : List Char) : Option Nat :=
  if cs.isEmpty then none
  else cs.foldlM (fun n c =>
    if c.isDigit then some (16 * n + (c.toNat - '0'.toNat))
    else if 'a' ≤ c ∧ c ≤ 'f' then some (16 * n + (c.toNat - 'a'.toNat + 10))
    else if 'A' ≤ c ∧ c ≤ 'F' then some (16 * n + (c.toNat - 'A'.toNat + 10))
    else none) 0

/-- The character with a code given in hexadecimal digits, `digits` of them or any number in braces. -/
def hexLiteral (digits : Nat) : Reading Primitive := do
  let cs ← if ← accept '\x7b' then do
      let rest := (← get).rest
      let cs := rest.takeWhile (· ≠ '\x7d')
      if cs.length = rest.length then fail "unclosed hexadecimal code"
      skip (cs.length + 1)
      pure cs
    else do
      let cs := (← get).rest.take digits
      if cs.length < digits then fail "incomplete hexadecimal code"
      skip digits
      pure cs
  match hexValue? cs with
  | some n => if n.isValidChar then return .literal (Char.ofNat n) else fail "invalid character code"
  | none => fail "invalid hexadecimal code"

/-- A class named by a property, behind `\p`. -/
def propertyClass (negated : Bool) : Reading Primitive := do
  let c ← take
  let name ← if c = '\x7b' then do
      let rest := (← get).rest
      let cs := rest.takeWhile (· ≠ '\x7d')
      if cs.length = rest.length then fail "unclosed property name"
      skip (cs.length + 1)
      pure (String.ofList cs)
    else pure c.toString
  let (negated, name) := match name.toList with
    | '^' :: rest => (!negated, String.ofList rest)
    | _ => (negated, name)
  match CharClass.property? name with
  | some cls => return .cls (if negated then .not cls else cls)
  | none => fail "unknown property"

/-- One of the classes for digits, blanks and word characters. -/
def shorthand (unicodeClass : CharClass) (asciiName : String) (negated : Bool) : Reading Primitive := do
  let cls :=
    if (← get).modes.unicode then unicodeClass
    else (CharClass.ascii? asciiName).getD unicodeClass
  return .cls (if negated then .not cls else cls)

/-- The edge of a word, or a named kind of edge in braces. -/
def wordAssertion : Reading Primitive := do
  if ← acceptText "\x7bstart\x7d" then return .assertion .wordStart
  if ← acceptText "\x7bend\x7d" then return .assertion .wordEnd
  if ← acceptText "\x7bstart-half\x7d" then return .assertion .wordStartHalf
  if ← acceptText "\x7bend-half\x7d" then return .assertion .wordEndHalf
  return .assertion .wordEdge

/-- What follows a backslash. -/
def escape : Reading Primitive := do
  let c ← take
  match c with
  | 'd' => shorthand .decimal "digit" false
  | 'D' => shorthand .decimal "digit" true
  | 's' => shorthand .blank "space" false
  | 'S' => shorthand .blank "space" true
  | 'w' => shorthand .word "word" false
  | 'W' => shorthand .word "word" true
  | 'p' => propertyClass false
  | 'P' => propertyClass true
  | 'x' => hexLiteral 2
  | 'u' => hexLiteral 4
  | 'U' => hexLiteral 8
  | 'a' => return .literal '\x07'
  | 'f' => return .literal '\x0C'
  | 't' => return .literal '\t'
  | 'n' => return .literal '\n'
  | 'r' => return .literal '\r'
  | 'v' => return .literal '\x0B'
  | 'A' => return .assertion .textStart
  | 'z' => return .assertion .textEnd
  | 'b' => wordAssertion
  | 'B' => return .assertion .noWordEdge
  | '<' => return .assertion .wordStart
  | '>' => return .assertion .wordEnd
  | c =>
    if c.val < 128 && !c.isAlphanum then return .literal c
    else fail "unrecognized escape"

-- ---------------------------------------------------------------------------
-- Character classes
-- ---------------------------------------------------------------------------

/-- A class with the case mode applied, negated if asked for. -/
def finishClass (negated : Bool) (cls : CharClass) : Reading CharClass := do
  let cls := if (← get).modes.caseless then .folded cls else cls
  return if negated then .not cls else cls

def classItem : Reading Primitive := do
  match ← take with
  | '\\' => escape
  | c => return .literal c

def Primitive.asClass : Primitive → Reading CharClass
  | .literal c => return .single c
  | .cls c => return c
  | .assertion _ => fail "assertion in a class"

def Primitive.asLiteral : Primitive → Reading Char
  | .literal c => return c
  | _ => fail "a class cannot end a range"

/-- A single member or a range. A hyphen before the end of the class or before another hyphen is no part
of a range. -/
def classRange : Reading CharClass := do
  let first ← classItem
  skipSpace
  let modes := (← get).modes
  let behind := (← get).rest.drop 1
  let behind := if modes.extended then dropSpace (behind.length + 1) behind else behind
  if (← peek) ≠ some '-' || behind.head? = some ']' || behind.head? = some '-' then first.asClass
  else
    skip 1
    skipSpace
    let low ← first.asLiteral
    let high ← (← classItem).asLiteral
    if high < low then fail "invalid range in a class"
    return .range low high

/-- A named class such as `[:alpha:]`; if there is none, nothing is read. -/
def namedClass : Reading (Option CharClass) := do
  match (← get).rest with
  | '[' :: ':' :: rest =>
    let (negated, named) := match rest with
      | '^' :: rest => (true, rest)
      | _ => (false, rest)
    let name := named.takeWhile (· ≠ ':')
    match named.drop name.length, CharClass.ascii? (String.ofList name) with
    | ':' :: ']' :: rest, some cls =>
      modify ({ · with rest := rest })
      return some (if negated then .not cls else cls)
    | _, _ => return none
  | _ => return none

/-- An operation on two classes. -/
def classOperator : Reading (Option (CharClass → CharClass → CharClass)) := do
  if ← acceptText "&&" then return some .both
  if ← acceptText "--" then return some CharClass.difference
  if ← acceptText "~~" then return some CharClass.symmetricDifference
  return none

/-- Hyphens at the beginning of a class, which stand for themselves. -/
def leadingHyphens : Nat → CharClass → Reading CharClass
  | 0, cls => return cls
  | fuel + 1, cls => do
    if ← accept '-' then
      skipSpace
      leadingHyphens fuel (.union cls (.single '-'))
    else return cls

mutual

/-- A class in brackets; the opening bracket has been read. -/
def bracketed : Nat → Reading CharClass
  | 0 => fail "pattern too deep"
  | fuel + 1 => do
    skipSpace
    let negated ← accept '^'
    skipSpace
    let members ← leadingHyphens fuel .none
    let members ← if members = .none && (← accept ']') then pure (.single ']') else pure members
    finishClass negated (← classMembers fuel id members)

/-- Members up to the closing bracket. `pending` is the operation that waits for the members read so
far as its right operand. -/
def classMembers : Nat → (CharClass → CharClass) → CharClass → Reading CharClass
  | 0, _, _ => fail "pattern too deep"
  | fuel + 1, pending, members => do
    skipSpace
    match ← peek with
    | none => fail "unclosed class"
    | some ']' =>
      skip 1
      return pending members
    | some '[' =>
      match ← namedClass with
      | some cls => classMembers fuel pending (.union members cls)
      | none =>
        skip 1
        let inner ← bracketed fuel
        classMembers fuel pending (.union members inner)
    | some _ =>
      match ← classOperator with
      | some op =>
        let left ← finishClass false (pending members)
        classMembers fuel (op left) .none
      | none =>
        let member ← classRange
        classMembers fuel pending (.union members member)

end

-- ---------------------------------------------------------------------------
-- Repetitions and groups
-- ---------------------------------------------------------------------------

/-- A repetition of `body`. A body that matches nothing but the empty text is repeated at most once. -/
def repetition (body : Node) (min : Nat) (max : Option Nat) (greedy : Bool) : Node :=
  let (min, max) :=
    if body.isEmptyOnly then (Nat.min min 1, some (max.elim 1 (Nat.min · 1))) else (min, max)
  if max = some 0 then .empty
  else if min = 1 && max = some 1 then body
  else .repeated body min max greedy

/-- Whether a repetition prefers more, as told by the mode and by a question mark behind it. -/
def greediness : Reading Bool := do
  let lazy ← accept '?'
  return lazy == (← get).modes.ungreedy

def count : Reading Nat := do
  skipSpace
  let digits := (← get).rest.takeWhile Char.isDigit
  skip digits.length
  skipSpace
  match Decimal.readDigits digits with
  | some n => if n < 0x100000000 then return n else fail "repetition count too large"
  | none => fail "repetition count expected"

/-- The bounds of a repetition in braces; the opening brace has been read. -/
def bounds : Reading (Nat × Option Nat) := do
  let min ← count
  let range ← if ← accept ',' then do
      skipSpace
      if (← peek) = some '\x7d' then pure (min, none) else pure (min, some (← count))
    else pure (min, some min)
  if !(← accept '\x7d') then fail "unclosed repetition count"
  if range.2.any (· < min) then fail "invalid repetition count range"
  return range

/-- Mode letters up to a colon or a closing parenthesis, which is returned. `seen` are the letters read,
`open` tells that a minus sign waits for a letter. -/
def modeLetters : Nat → Modes → Bool → Bool → List Char → Reading (Modes × Char)
  | 0, _, _, _, _ => fail "unclosed modes"
  | fuel + 1, modes, value, waiting, seen => do
    let c ← take
    if c = ':' || c = ')' then
      if waiting then fail "dangling minus sign"
      if c = ')' && seen.isEmpty then fail "missing modes"
      return (modes, c)
    else if c = '-' then
      if !value then fail "repeated minus sign"
      modeLetters fuel modes false true seen
    else if seen.contains c then fail "repeated mode"
    else
      match modes.set? value c with
      | some modes => modeLetters fuel modes value false (c :: seen)
      | none => fail "unknown mode"

/-- A character of a group name. -/
def isNameChar (first : Bool) (c : Char) : Bool :=
  c = '_' || Unicode.isLetter c || (!first && (c = '.' || c = '[' || c = ']' || Unicode.isNumber c))

/-- Takes the name of a group up to the closing bracket. -/
def groupName : Reading Unit := do
  let rest := (← get).rest
  let name := rest.takeWhile (· ≠ '>')
  if name.length = rest.length then fail "unclosed group name"
  let good := match name with
    | [] => false
    | c :: cs => isNameChar true c && cs.all (isNameChar false)
  if !good then fail "invalid group name"
  if (← get).names.contains (String.ofList name) then fail "duplicate group name"
  modify fun r => { r with rest := rest.drop (name.length + 1), names := String.ofList name :: r.names }

/-- The text goes on with a test on what precedes or follows a place. -/
def isLookaround (cs : List Char) : Bool :=
  ["?=", "?!", "?<=", "?<!"].any fun (opening : String) => opening.toList.isPrefixOf cs

/-- The number of a new group. -/
def newGroup : Reading Nat := do
  modify fun r => { r with groups := r.groups + 1 }
  return (← get).groups

/-- Expressions in sequence; an empty one is left out. -/
def joined : Node → Node → Node
  | .empty, b => b
  | a, .empty => a
  | a, b => .concat a b

/-- An expression for a single character or a place. -/
def Primitive.node : Primitive → Reading Node
  | .literal c => do
    return .one (if (← get).modes.caseless then .folded (.single c) else .single c)
  | .cls c => return .one c
  | .assertion a => return .check a

/-- An expression that is neither a group nor a class in brackets. -/
def primitive : Reading Node := do
  let modes := (← get).modes
  match ← take with
  | '.' => return .one (if modes.dotall then .any else .not (.single '\n'))
  | '^' => return .check (if modes.multiline then .lineStart else .textStart)
  | '$' => return .check (if modes.multiline then .lineEnd else .textEnd)
  | '\\' => do (← escape).node
  | c => (Primitive.literal c).node

/-- The item that a repetition applies to. -/
def repeatable : Option Node → Reading Node
  | some n => return n
  | none => fail "nothing to repeat"

mutual

/-- Alternatives up to the end of the group or the pattern. -/
def alternatives : Nat → Reading Node
  | 0 => fail "pattern too deep"
  | fuel + 1 => do
    let first ← sequence fuel .empty none
    if ← accept '|' then return .either first (← alternatives fuel)
    return first

/-- Items in sequence. `before` are the finished ones and `last` is the one that a repetition would
apply to. -/
def sequence : Nat → Node → Option Node → Reading Node
  | 0, _, _ => fail "pattern too deep"
  | fuel + 1, before, last => do
    skipSpace
    let finished := joined before (last.getD .empty)
    match ← peek with
    | none | some '|' | some ')' => return finished
    | some '*' =>
      skip 1
      let body ← repeatable last
      sequence fuel before (some (repetition body 0 none (← greediness)))
    | some '+' =>
      skip 1
      let body ← repeatable last
      sequence fuel before (some (repetition body 1 none (← greediness)))
    | some '?' =>
      skip 1
      let body ← repeatable last
      sequence fuel before (some (repetition body 0 (some 1) (← greediness)))
    | some '\x7b' =>
      skip 1
      let body ← repeatable last
      let (min, max) ← bounds
      skipSpace
      sequence fuel before (some (repetition body min max (← greediness)))
    | some '(' =>
      skip 1
      sequence fuel finished (← group fuel)
    | some '[' =>
      skip 1
      sequence fuel finished (some (.one (← bracketed fuel)))
    | some _ =>
      let item ← primitive
      sequence fuel finished (some item)

/-- A group; the opening parenthesis has been read. A group that only sets modes is no item. -/
def group : Nat → Reading (Option Node)
  | 0 => fail "pattern too deep"
  | fuel + 1 => do
    skipSpace
    let outer := (← get).modes
    if isLookaround (← get).rest then fail "unsupported assertion"
    let named ← if ← acceptText "?P<" then pure true else acceptText "?<"
    if named then
      groupName
      let index ← newGroup
      closed outer (.group index) fuel
    else if ← accept '?' then
      let (modes, stop) ← modeLetters ((← get).rest.length + 1) outer true false []
      modify ({ · with modes := modes })
      if stop = ')' then return none
      closed outer id fuel
    else
      let index ← newGroup
      closed outer (.group index) fuel

/-- The body of a group and its closing parenthesis. The modes around the group are set back. -/
def closed (outer : Modes) (wrap : Node → Node) : Nat → Reading (Option Node)
  | 0 => fail "pattern too deep"
  | fuel + 1 => do
    let body ← alternatives fuel
    if !(← accept ')') then fail "unclosed group"
    modify ({ · with modes := outer })
    return some (wrap body)

end

end Reading

/-- The expression of a pattern and the number of its groups. -/
def read (pattern : String) (modes : Modes) : Except String (Node × Nat) := do
  let cs := pattern.toList
  let start : Reader := { rest := cs, modes := modes }
  let (node, reader) ← (Reading.alternatives (4 * cs.length + 8)).run start
  if reader.rest.isEmpty then return (node, reader.groups) else throw "unopened group"

end Rill.Pattern
