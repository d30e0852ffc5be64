-- SUMMARY: Reading JSON texts.
import Rill.Decimal.Read
import Rill.Json.Document
import Rill.Json.Problem
import Rill.Source
import Rill.Value

/-!
# Reading JSON

A text is read character by character, and reading stops at the first problem. A problem is met at the
next character, which then counts as read, or before it. Lists and objects may be nested 127 levels deep.
-/

namespace Rill.Json

-- ---------------------------------------------------------------------------
-- Positions
-- ---------------------------------------------------------------------------

/-- A problem, the characters that are left, and how many bytes of them count as read. -/
structure Trouble where
  problem : Problem
  rest : List Char
  extra : Nat

/-- A line, and the number of its bytes that have been read. -/
structure Place where
  line : Nat := 1
  column : Nat := 0

def Place.afterChar (p : Place) (c : Char) : Place :=
  if c = '\n' then ⟨p.line + 1, 0⟩ else ⟨p.line, p.column + c.utf8Size⟩

/-- The place after some more bytes. -/
def Place.afterBytes (p : Place) : Nat → List Char → Place
  | 0, _ | _, [] => p
  | n, c :: rest =>
    if c.utf8Size ≤ n then afterBytes (p.afterChar c) (n - c.utf8Size) rest else ⟨p.line, p.column + n⟩

/-- The trouble as it is reported for a text. -/
def Trouble.complaint (t : Trouble) (text : List Char) : Complaint :=
  let read := text.take (text.length - t.rest.length)
  let place := (read.foldl Place.afterChar {}).afterBytes t.extra t.rest
  ⟨t.problem, place.line, place.column⟩

-- ---------------------------------------------------------------------------
-- Characters
-- ---------------------------------------------------------------------------

abbrev Reading := StateT (List Char) (Except Trouble)

/-- Stops before the next character. -/
def stopBefore (p : Problem) : Reading α := do throw ⟨p, ← get, 0⟩

/-- Stops at the next character. -/
def stopAt (p : Problem) : Reading α := do throw ⟨p, ← get, 1⟩

/-- The next character. -/
def peek : Reading (Option Char) := do return (← get).head?

/-- Passes over the next character. -/
def skip : Reading Unit := modify (·.drop 1)

def isBlank (c : Char) : Bool := c = ' ' || c = '\n' || c = '\t' || c = '\r'

/-- Passes over blanks; the next character. -/
def peekPastBlanks : Reading (Option Char) := do
  modify (·.dropWhile isBlank)
  peek

/-- Passes over the rest of a word. -/
def word : List Char → Reading Unit
  | [] => return
  | c :: rest => do
    match ← peek with
    | none => stopBefore .endInValue
    | some d =>
      if c ≠ d then stopAt .expectedIdent
      skip
      word rest

-- ---------------------------------------------------------------------------
-- Numbers
-- ---------------------------------------------------------------------------

def digitValue (c : Char) : Nat := c.toNat - 48

/-- The significand with one more digit, if it still is a word. -/
def withDigit? (significand : Nat) (c : Char) : Option Nat :=
  let n := 10 * significand + digitValue c
  if n < 0x10000000000000000 then some n else none

/-- Takes digits into a significand as long as it is a word; the others are passed over. The results are
the significand, how many digits were taken and passed over, and the rest. -/
def takeDigits : Nat → List Char → Nat × Nat × Nat × List Char
  | significand, [] => (significand, 0, 0, [])
  | significand, c :: rest =>
    if !c.isDigit then (significand, 0, 0, c :: rest)
    else
      match withDigit? significand c with
      | some n =>
        let (significand, taken, passed, rest) := takeDigits n rest
        (significand, taken + 1, passed, rest)
      | none =>
        (significand, 0, (c :: rest).takeWhile Char.isDigit |>.length, rest.dropWhile Char.isDigit)

/-- The value of the digits of an exponent that starts with `n`. With the digit that makes it larger than
a signed word of 32 bits, reading stops; the first result tells that. -/
def exponentDigits : Nat → List Char → Bool × Nat × List Char
  | n, [] => (false, n, [])
  | n, c :: rest =>
    if !c.isDigit then (false, n, c :: rest)
    else if 10 * n + digitValue c > 2147483647 then (true, n, rest)
    else exponentDigits (10 * n + digitValue c) rest

/-- A power of ten that is a float. -/
def powerOfTen (n : Nat) : Float := Float.ofScientific 1 false n

/-- A number times a power of ten, in steps of at most 308 places; nothing if it is too large. Three steps
down make every number zero. -/
def scale : Nat → Float → Int → Option Float
  | 0, x, _ => some x
  | steps + 1, x, exponent =>
    if exponent.natAbs ≤ 308 then
      let power := powerOfTen exponent.natAbs
      if exponent < 0 then some (x / power)
      else if (x * power).isInf then none
      else some (x * power)
    else if x == 0 then some x
    else if exponent > 0 then none
    else scale steps (x / powerOfTen 308) (exponent + 308)

def signed (negative : Bool) (x : Float) : Document := .float (if negative then -x else x)

/-- The float with a significand and an exponent. -/
def floatOf (negative : Bool) (significand : Nat) (exponent : Int) : Reading Document := do
  match scale 4 (Float.ofNat significand) exponent with
  | some x => return signed negative x
  | none => stopBefore .numberOutOfRange

/-- The sign and the digits behind `e`. -/
def exponentPart (negative : Bool) (significand : Nat) (start : Int) : Reading Document := do
  let down := (← peek) = some '-'
  if down || (← peek) = some '+' then skip
  match ← peek with
  | none => stopBefore .endInValue
  | some c =>
    if !c.isDigit then stopAt .invalidNumber
    let (huge, n, rest) := exponentDigits 0 (← get)
    set rest
    if huge then
      if significand ≠ 0 && !down then stopBefore .numberOutOfRange
      modify (·.dropWhile Char.isDigit)
      return signed negative 0
    floatOf negative significand (if down then start - n else start + n)

/-- What follows the digits of a number: an exponent or nothing. -/
def afterFraction (negative : Bool) (significand : Nat) (exponent : Int) : Reading Document := do
  match ← peek with
  | some 'e' | some 'E' =>
    skip
    exponentPart negative significand exponent
  | _ => floatOf negative significand exponent

/-- The digits behind the point. -/
def fractionPart (negative : Bool) (significand : Nat) (exponent : Int) : Reading Document := do
  match ← peek with
  | none => stopAt .endInValue
  | some c =>
    if !c.isDigit then stopAt .invalidNumber
    let (significand, places, _, rest) := takeDigits significand (← get)
    set rest
    afterFraction negative significand (exponent - places)

/-- A number without fraction and exponent: an integer if it is one of 64 bits and not minus zero. -/
def whole (negative : Bool) (n : Nat) : Document :=
  if negative then
    if 0 < n ∧ n ≤ 0x8000000000000000 then .int (Int64.ofInt (-n)) else .float (-(Float.ofNat n))
  else if n < 0x8000000000000000 then .int (Int64.ofNat n)
  else .float (Float.ofNat n)

/-- A number behind its sign. -/
def number (negative : Bool) : Reading Document := do
  match ← peek with
  | none => stopBefore .endInValue
  | some c =>
    if !c.isDigit then stopAt .invalidNumber
    let (significand, passed) ← do
      if c = '0' then
        skip
        if (← peek).any Char.isDigit then stopAt .invalidNumber
        pure (0, 0)
      else
        let (significand, _, passed, rest) := takeDigits 0 (← get)
        set rest
        pure (significand, passed)
    match ← peek with
    | some '.' =>
      skip
      fractionPart negative significand passed
    | some 'e' | some 'E' => afterFraction negative significand passed
    | _ => if passed = 0 then return whole negative significand else floatOf negative significand passed

-- ---------------------------------------------------------------------------
-- Strings
-- ---------------------------------------------------------------------------

/-- The value of a hexadecimal digit. -/
def hexDigit? (c : Char) : Option Nat :=
  if c.isDigit then some (digitValue c)
  else if 'a' ≤ c ∧ c ≤ 'f' then some (c.toNat - 87)
  else if 'A' ≤ c ∧ c ≤ 'F' then some (c.toNat - 55)
  else none

/-- Four hexadecimal digits. If they are not, four bytes count as read. -/
def hexWord : Reading Nat := do
  let rest ← get
  let digits := (rest.take 4).filterMap hexDigit?
  if digits.length = 4 then
    set (rest.drop 4)
    return digits.foldl (fun n d => 16 * n + d) 0
  if byteLength rest < 4 then
    set ([] : List Char)
    stopBefore .endInString
  throw ⟨.invalidEscape, rest, 4⟩

/-- A certain character inside an escape. -/
def expectInEscape (c : Char) : Reading Unit := do
  match ← peek with
  | none => stopBefore .endInString
  | some d =>
    if c ≠ d then stopAt .endOfHexEscape
    skip

def isLeading (n : Nat) : Bool := 0xD800 ≤ n && n ≤ 0xDBFF

def isTrailing (n : Nat) : Bool := 0xDC00 ≤ n && n ≤ 0xDFFF

/-- A character given by one or two words of 16 bits. -/
def hexEscape : Reading Char := do
  let n ← hexWord
  if isTrailing n then stopBefore .loneSurrogate
  if !isLeading n then return Char.ofNat n
  expectInEscape '\\'
  expectInEscape 'u'
  let m ← hexWord
  if !isTrailing m then stopBefore .loneSurrogate
  return Char.ofNat ((n - 0xD800) * 0x400 + (m - 0xDC00) + 0x10000)

/-- A character behind a backslash. -/
def escape : Reading Char := do
  match ← peek with
  | none => stopBefore .endInString
  | some c =>
    let plain? : Option Char :=
      match c with
      | '"' => some '"'
      | '\\' => some '\\'
      | '/' => some '/'
      | 'b' => some '\x08'
      | 'f' => some '\x0c'
      | 'n' => some '\n'
      | 'r' => some '\r'
      | 't' => some '\t'
      | _ => none
    match plain? with
    | some plain =>
      skip
      return plain
    | none =>
      if c ≠ 'u' then stopAt .invalidEscape
      skip
      hexEscape

/-- The rest of a string behind its opening quote. `fuel` bounds the number of characters. -/
def stringRest : Nat → List Char → Reading String
  | 0, _ => stopBefore .endInString
  | fuel + 1, before => do
    match ← peek with
    | none => stopBefore .endInString
    | some '"' =>
      skip
      return String.ofList before.reverse
    | some '\\' =>
      skip
      stringRest fuel ((← escape) :: before)
    | some c =>
      if c.toNat < 32 then stopAt .controlCharacter
      skip
      stringRest fuel (c :: before)

/-- A string, of which the opening quote is next. -/
def string : Reading String := do
  skip
  stringRest ((← get).length + 1) []

-- ---------------------------------------------------------------------------
-- Documents
-- ---------------------------------------------------------------------------

/-- Deals with the separator in front of an item or a field that is not the first one. -/
def separator (first : Bool) (next close : Char) (expected : Problem) : Reading Unit := do
  if first then return
  if next ≠ ',' then stopAt expected
  skip
  match ← peekPastBlanks with
  | none => stopAt .endInValue
  | some c => if c = close then stopAt .trailingComma

/-- The colon behind a key. -/
def colon : Reading Unit := do
  match ← peekPastBlanks with
  | none => stopAt .endInObject
  | some c =>
    if c ≠ ':' then stopAt .expectedColon
    skip

mutual

/-- A document. `depth` is one more than the number of levels that may be opened in it. -/
def document : Nat → Nat → Reading Document
  | 0, _ => stopBefore .endInValue
  | fuel + 1, depth => do
    match ← peekPastBlanks with
    | none => stopAt .endInValue
    | some 'n' =>
      skip
      word "ull".toList
      return .null
    | some 't' =>
      skip
      word "rue".toList
      return .bool true
    | some 'f' =>
      skip
      word "alse".toList
      return .bool false
    | some '-' =>
      skip
      number true
    | some '"' => return .text (← string)
    | some '[' =>
      if depth ≤ 1 then stopAt .tooDeep
      skip
      return .list (← items fuel (depth - 1) true)
    | some '\x7b' =>
      if depth ≤ 1 then stopAt .tooDeep
      skip
      return .object (OrderedMap.ofList (← fields fuel (depth - 1) true)).entries.toList
    | some c =>
      if !c.isDigit then stopAt .expectedValue
      number false

/-- The items of a list up to its end. -/
def items : Nat → Nat → Bool → Reading (List Document)
  | 0, _, _ => stopBefore .endInList
  | fuel + 1, depth, first => do
    match ← peekPastBlanks with
    | none => stopAt .endInList
    | some ']' =>
      skip
      return []
    | some c =>
      separator first c ']' .expectedListComma
      let item ← document fuel depth
      return item :: (← items fuel depth false)

/-- The fields of an object up to its end. -/
def fields : Nat → Nat → Bool → Reading (List (String × Document))
  | 0, _, _ => stopBefore .endInObject
  | fuel + 1, depth, first => do
    match ← peekPastBlanks with
    | none => stopAt .endInObject
    | some '\x7d' =>
      skip
      return []
    | some c =>
      separator first c '\x7d' .expectedObjectComma
      if (← peek) ≠ some '"' then stopAt .keyNotString
      let key ← string
      colon
      let value ← document fuel depth
      return (key, value) :: (← fields fuel depth false)

end

/-- A document with nothing but blanks around it. -/
def complete (fuel : Nat) : Reading Document := do
  let d ← document fuel 128
  if (← peekPastBlanks).isSome then stopAt .trailingCharacters
  return d

/-- The document that a text spells. Of fields with the same key, the first gives the position and the
last the value. -/
def read (text : String) : Except Complaint Document :=
  let cs := text.toList
  match (complete (2 * cs.length + 2)).run cs with
  | .ok (d, _) => .ok d
  | .error t => .error (t.complaint cs)

end Rill.Json
