-- SUMMARY: The grammar of expressions, from conditionals down to primaries.
import Rill.Grammar.Cursor

/-!
# Expressions

One definition per layer of precedence, loosest first: conditional, `or`, `and`, `not`, comparison, sums
and `&` chains, products, unary minus, powers, postfix steps, and primaries. A layer takes the parser of
the next tighter one as its operand; `nested` parses a whole expression inside brackets, `body` the
block of a function literal. `limit` bounds loops and right recursion; each round reads a token.
-/

namespace Rill.Grammar

open Rill.Parser

-- ---------------------------------------------------------------------------
-- Lists between brackets
-- ---------------------------------------------------------------------------

/-- Items up to a closing mark, which is read; the first item is still to come. Line ends around items
are passed, and a comma may stand before the closing mark. -/
def itemsUntil (nested : Parser Expr) (close : Mark) (context : Context) : Nat → Parser (List Expr)
  | 0 => fail .nestedTooDeeply
  | limit + 1 => do
    let item ← nested
    skipNewlines
    if ← acceptMark .comma then
      skipNewlines
      if (← kind) = .mark close then
        expectMark close context
        return [item]
      else
        return item :: (← itemsUntil nested close context limit)
    else
      expectMark close context
      return [item]

/-- Items separated by commas up to a closing mark, possibly none. -/
def commaList (limit : Nat) (nested : Parser Expr) (close : Mark) (context : Context) :
    Parser (List Expr) := do
  skipNewlines
  if ← acceptMark close then return []
  itemsUntil nested close context limit

/-- The rows of an array literal after its bracket: all items, and the number of items in each row.
`row` counts the current row, `cols` is the length of the rows before it. -/
def arrayRows (nested : Parser Expr) : Nat → Option Nat → Nat → Parser (List Expr × Nat)
  | 0, _, _ => fail .nestedTooDeeply
  | limit + 1, cols, row => do
    let item ← nested
    let row := row + 1
    skipNewlines
    if ← acceptMark .comma then
      skipNewlines
      let (items, n) ← arrayRows nested limit cols row
      return (item :: items, n)
    let next ← kind
    if next = .mark .semicolon || next = .mark .rBracket then
      if cols.any (· ≠ row) then fail .raggedArray
      if next = .mark .semicolon then
        advance
        skipNewlines
        let (items, n) ← arrayRows nested limit (some row) 0
        return (item :: items, n)
      else
        return ([item], row)
    else
      return ([item], cols.getD 0)

/-- `@[a, b; c, d]` after the opening bracket. -/
def arrayLiteral (limit : Nat) (nested : Parser Expr) (start : Nat × Nat) : Parser Expr := do
  skipNewlines
  if ← acceptMark .rBracket then return .array (← siteFrom start) 0 0 []
  let (items, cols) ← arrayRows nested limit none 0
  expectMark .rBracket .arrayLiteral
  let rows := if cols = 0 then 0 else items.length / cols
  return .array (← siteFrom start) rows cols items

/-- Further entries of a table literal, up to its closing brace, which is read. -/
def tableEntries (nested : Parser Expr) : Nat → Parser (List (Expr × Expr))
  | 0 => fail .nestedTooDeeply
  | limit + 1 => do
    skipNewlines
    if ← acceptMark .comma then
      skipNewlines
      if (← kind) = .mark .rBrace then
        expectMark .rBrace .tableLiteral
        return []
      else
        let key ← nested
        expectMark .colon .tableLiteral
        let value ← nested
        return (key, value) :: (← tableEntries nested limit)
    else
      expectMark .rBrace .tableLiteral
      return []

/-- A table or a set after the opening brace: nothing or `key: value` entries make a table, plain items
a set. -/
def braceLiteral (limit : Nat) (nested : Parser Expr) (start : Nat × Nat) : Parser Expr := do
  skipNewlines
  if ← acceptMark .rBrace then return .table (← siteFrom start) []
  let first ← nested
  if ← acceptMark .colon then
    let value ← nested
    let entries ← tableEntries nested limit
    return .table (← siteFrom start) ((first, value) :: entries)
  else
    skipNewlines
    if ← acceptMark .comma then
      let items ← commaList limit nested .rBrace .setLiteral
      return .set (← siteFrom start) (first :: items)
    else
      expectMark .rBrace .setLiteral
      return .set (← siteFrom start) [first]

-- ---------------------------------------------------------------------------
-- Function literals
-- ---------------------------------------------------------------------------

/-- Further parameters, given the names of those before. The closing parenthesis is left. -/
def paramsAfter (nested : Parser Expr) : Nat → List String → Parser (List Param)
  | 0, _ => fail .nestedTooDeeply
  | limit + 1, names => do
    let (line, _) ← here
    let byRef ← acceptKw .refKw
    let name ← ident .parameterList
    if names.contains name then fail (.duplicateParameter name)
    let type ← if ← acceptKw .asKw then (some <$> nested) else pure none
    skipNewlines
    let param : Param := ⟨line, name, byRef, type⟩
    if ← acceptMark .comma then
      skipNewlines
      return param :: (← paramsAfter nested limit (name :: names))
    else
      return [param]

/-- A parameter list after its opening parenthesis, with the closing one. -/
def parameters (limit : Nat) (nested : Parser Expr) : Parser (List Param) := do
  skipNewlines
  if ← acceptMark .rParen then return []
  let params ← paramsAfter nested limit []
  if params.length > maxParams then fail .tooManyParameters
  expectMark .rParen .parameterList
  return params

-- ---------------------------------------------------------------------------
-- Primaries and postfix steps
-- ---------------------------------------------------------------------------

/-- A literal, a name, a bracketed literal or an expression in parentheses. Parentheses leave no trace:
the inner node keeps its own site. -/
def primary (limit : Nat) (nested : Parser Expr) : Parser Expr := do
  let start ← here
  match ← kind with
  | .ident name =>
    advance
    return .ident (← siteFrom start) name
  | .str text =>
    advance
    return .str (← siteFrom start) text
  | .int n =>
    if n < 0x8000000000000000 then
      advance
      return .int (← siteFrom start) (Int64.ofNat n)
    else fail .literalTooLarge
  | .float x =>
    advance
    return .float (← siteFrom start) x
  | .keyword .trueKw =>
    advance
    return .bool (← siteFrom start) true
  | .keyword .falseKw =>
    advance
    return .bool (← siteFrom start) false
  | .keyword .nullKw =>
    advance
    return .null (← siteFrom start)
  | .keyword .nanKw =>
    advance
    return .nan (← siteFrom start)
  | .mark .lBracket =>
    advance
    let items ← commaList limit nested .rBracket .listLiteral
    return .list (← siteFrom start) items
  | .mark .atSign =>
    advance
    expectMark .lBracket .arrayLiteral
    arrayLiteral limit nested start
  | .mark .lBrace =>
    advance
    braceLiteral limit nested start
  | .mark .lParen =>
    advance
    skipNewlines
    let inner ← nested
    skipNewlines
    expectMark .rParen .parentheses
    return inner
  | _ => expected .expression .here

/-- `ref e`, a function literal, or a primary. -/
def operandHead (limit : Nat) (nested : Parser Expr) (body : Context → Parser Block) : Parser Expr := do
  let start ← here
  if ← acceptKw .refKw then
    let target ← nested
    return .ref (← siteFrom start) target
  if ← acceptKw .functionKw then
    expectMark .lParen .functionLiteral
    let params ← parameters limit nested
    let block ← body .functionLiteral
    return .function (← siteFrom start) ⟨start.1, params, block⟩
  primary limit nested

/-- Field, index and call steps after an expression that started at `start`. -/
def postfixSteps (nested : Parser Expr) (start : Nat × Nat) : Nat → Expr → Parser Expr
  | 0, _ => fail .nestedTooDeeply
  | limit + 1, e => do
    if ← acceptMark .dot then
      let name ← ident .afterDot
      postfixSteps nested start limit (.field (← siteFrom start) e name)
    else if ← acceptMark .lBracket then
      let indices ← commaList limit nested .rBracket .index
      if indices.isEmpty then fail .emptyIndex
      postfixSteps nested start limit (.index (← siteFrom start) e indices)
    else if ← acceptMark .lParen then
      let args ← commaList limit nested .rParen .argumentList
      postfixSteps nested start limit (.call (← siteFrom start) e args)
    else
      return e

def postfixExpr (limit : Nat) (nested : Parser Expr) (body : Context → Parser Block) : Parser Expr := do
  let start ← here
  let head ← operandHead limit nested body
  postfixSteps nested start limit head

-- ---------------------------------------------------------------------------
-- Operators
-- ---------------------------------------------------------------------------

/-- Left-associative operators of one layer, after a left operand that started at `start`. -/
def chainLeft (op? : TokenKind → Option BinaryOp) (operand : Parser Expr) (start : Nat × Nat) :
    Nat → Expr → Parser Expr
  | 0, _ => fail .nestedTooDeeply
  | limit + 1, left => do
    match op? (← kind) with
    | none => return left
    | some op =>
      advance
      let right ← operand
      chainLeft op? operand start limit (.binary (← siteFrom start) op left right)

def powerOp? : TokenKind → Option BinaryOp
  | .mark .caret => some .pow
  | _ => none

def productOp? : TokenKind → Option BinaryOp
  | .mark .star => some .mul
  | .mark .slash => some .div
  | .mark .percent => some .mod
  | _ => none

def sumOp? : TokenKind → Option BinaryOp
  | .mark .plus => some .add
  | .mark .minus => some .sub
  | _ => none

def comparisonOp? : TokenKind → Option BinaryOp
  | .mark .eqEq => some .eq
  | .mark .notEq => some .notEq
  | .mark .lt => some .lt
  | .mark .ltEq => some .ltEq
  | .mark .gt => some .gt
  | .mark .gtEq => some .gtEq
  | .mark .spaceship => some .compare
  | _ => none

/-- Powers, from left to right. -/
def power (limit : Nat) (operand : Parser Expr) : Parser Expr := do
  let start ← here
  let left ← operand
  chainLeft powerOp? operand start limit left

/-- A minus sign in front of a numeric literal becomes part of the literal. -/
def negated (site : Site) : Expr → Expr
  | .int _ n => .int site (-n)
  | .float _ x => .float site (-x)
  | e => .unary site .neg e

/-- Unary minus. The smallest integer has no positive counterpart, so its literal is read here. -/
def signed (operand : Parser Expr) : Parser Expr := do
  let start ← here
  if ← acceptMark .minus then
    if (← kind) = .int 0x8000000000000000 then
      advance
      if (← kind) = .mark .caret then fail .literalTooLarge
      return .int (← siteFrom start) Int64.minValue
    else
      let e ← operand
      return negated (← siteFrom start) e
  else operand

/-- Products, from left to right. -/
def product (limit : Nat) (operand : Parser Expr) : Parser Expr := do
  let start ← here
  let left ← operand
  chainLeft productOp? operand start limit left

/-- The parts of an `&` chain after an ampersand. -/
def concatParts (operand : Parser Expr) : Nat → Parser (List Expr)
  | 0 => fail .nestedTooDeeply
  | limit + 1 => do
    skipNewlines
    let part ← operand
    if ← acceptMark .amp then
      return part :: (← concatParts operand limit)
    else
      return [part]

/-- A sum, or a chain of `&`. -/
def sum (limit : Nat) (operand : Parser Expr) : Parser Expr := do
  let start ← here
  let left ← operand
  if ← acceptMark .amp then
    let parts ← concatParts operand limit
    return .concat (← siteFrom start) (left :: parts)
  else
    chainLeft sumOp? operand start limit left

/-- A comparison; comparisons do not chain. -/
def comparison (operand : Parser Expr) : Parser Expr := do
  let start ← here
  let left ← operand
  match comparisonOp? (← kind) with
  | none => return left
  | some op =>
    advance
    let right ← operand
    if (comparisonOp? (← kind)).isSome then fail .chainedComparison
    return .binary (← siteFrom start) op left right

/-- Any number of `not` before a comparison. -/
def negation (operand : Parser Expr) : Nat → Parser Expr
  | 0 => fail .nestedTooDeeply
  | limit + 1 => do
    let start ← here
    if ← acceptKw .notKw then
      let e ← negation operand limit
      return .unary (← siteFrom start) .not e
    else operand

/-- Right-associative `and` or `or`. A line may end after the operator. -/
def chainRight (word : Keyword) (op : LogicalOp) (operand : Parser Expr) : Nat → Parser Expr
  | 0 => fail .nestedTooDeeply
  | limit + 1 => do
    let start ← here
    let left ← operand
    if ← acceptKw word then
      skipNewlines
      let right ← chainRight word op operand limit
      return .logical (← siteFrom start) op left right
    else
      return left

/-- `a if condition else b`. -/
def conditional (nested operand : Parser Expr) : Parser Expr := do
  let start ← here
  let whenTrue ← operand
  if ← acceptKw .ifKw then
    let cond ← nested
    expectKw .elseKw .conditional
    let whenFalse ← nested
    return .conditional (← siteFrom start) cond whenTrue whenFalse
  else
    return whenTrue

/-- All layers together. -/
def expressionWith (limit : Nat) (nested : Parser Expr) (body : Context → Parser Block) : Parser Expr :=
  let powers := power limit (postfixExpr limit nested body)
  let sums := sum limit (product limit (signed powers))
  let negations := negation (comparison sums) limit
  let conjunctions := chainRight .andKw .conj negations limit
  conditional nested (chainRight .orKw .disj conjunctions limit)

end Rill.Grammar
