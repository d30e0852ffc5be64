-- SUMMARY: The grammar of statements and blocks, and the parser of whole scripts.
import Rill.Grammar.Expression

/-!
# Statements and scripts

Statements are separated by line ends or semicolons, and blocks are closed by `end`. `expr` parses a whole
expression, `nested` one statement inside a block. The two recursive notions, expression and statement,
are tied together by `expressionUpTo` and `statementUpTo`: each level of nesting reads a token, so the
number of tokens bounds the depth.
-/

namespace Rill.Grammar

open Rill.Parser

-- ---------------------------------------------------------------------------
-- Blocks
-- ---------------------------------------------------------------------------

/-- Tokens that close the enclosing block without a separator. -/
def closesBlock : TokenKind → Bool
  | .keyword .endKw | .keyword .elseKw | .keyword .elsifKw | .keyword .untilKw | .eof => true
  | _ => false

/-- The current token ends a statement. -/
def atStatementEnd : Parser Bool := fun c => .ok (c.token.isSeparator || closesBlock c.token.kind, c)

/-- A statement is followed by a separator unless a block closes on the same line. -/
def statementEnd : Parser Unit := do
  let k ← kind
  if k = .eol || k = .mark .semicolon then skipSeparators
  else if !closesBlock k then expected .separator .afterStatement

/-- Statements up to one of `closers`, which is left; the first of them is the one missed at the end of
the text. -/
def stmtsUntil (statement : Parser Stmt) (closer : Keyword) (others : List Keyword) (context : Context) :
    Nat → Parser (List Stmt)
  | 0 => fail .nestedTooDeeply
  | limit + 1 => do
    let k ← kind
    if k = .keyword closer || others.any (k = .keyword ·) then
      return []
    else if closesBlock k then
      expected (.token (.keyword closer)) context
    else
      let s ← statement
      statementEnd
      return s :: (← stmtsUntil statement closer others context limit)

/-- A block up to one of `closers`, which is left. -/
def blockUntil (limit : Nat) (statement : Parser Stmt) (closer : Keyword) (others : List Keyword)
    (context : Context) : Parser Block := do
  let (line, _) ← here
  skipSeparators
  let stmts ← stmtsUntil statement closer others context limit
  return ⟨line, stmts⟩

/-- A block with its `end`. -/
def block (limit : Nat) (statement : Parser Stmt) (context : Context) : Parser Block := do
  let body ← blockUntil limit statement .endKw [] context
  expectKw .endKw context
  return body

-- ---------------------------------------------------------------------------
-- Statements after their keyword
-- ---------------------------------------------------------------------------

/-- Arguments of `print` after a first one: whether the line ends, and the arguments. A comma at the end
keeps the line open. -/
def printArgs (expr : Parser Expr) : Nat → Parser (Bool × List Expr)
  | 0 => fail .nestedTooDeeply
  | limit + 1 => do
    if ← acceptMark .comma then
      if ← atStatementEnd then return (false, [])
      let arg ← expr
      let (newline, args) ← printArgs expr limit
      return (newline, arg :: args)
    else
      return (true, [])

/-- Names after a comma. -/
def namesAfter : Nat → Parser (List String)
  | 0 => fail .nestedTooDeeply
  | limit + 1 => do
    if ← acceptMark .comma then
      let name ← ident .declaration
      return name :: (← namesAfter limit)
    else
      return []

/-- Expressions after a comma. -/
def valuesAfter (expr : Parser Expr) : Nat → Parser (List Expr)
  | 0 => fail .nestedTooDeeply
  | limit + 1 => do
    if ← acceptMark .comma then
      let value ← expr
      return value :: (← valuesAfter expr limit)
    else
      return []

/-- The names and values of a `local` declaration. -/
def declaration (limit : Nat) (expr : Parser Expr) : Parser (List String × List Expr) := do
  let first ← ident .declaration
  let names := first :: (← namesAfter limit)
  if ← acceptMark .assign then
    let value ← expr
    let values := value :: (← valuesAfter expr limit)
    if values.length ≠ names.length then fail (.unevenDeclaration names.length values.length)
    return (names, values)
  else
    return (names, [])

/-- The block of a branch of `if`. -/
def branchBlock (limit : Nat) (statement : Parser Stmt) : Parser Block :=
  blockUntil limit statement .endKw [.elsifKw, .elseKw] .ifStatement

/-- Any number of `elsif` branches. -/
def elsifBranches (expr : Parser Expr) (branch : Parser Block) : Nat → Parser (List (Expr × Block))
  | 0 => fail .nestedTooDeeply
  | limit + 1 => do
    if ← acceptKw .elsifKw then
      let cond ← expr
      expectKw .thenKw .elsifCondition
      let body ← branch
      return (cond, body) :: (← elsifBranches expr branch limit)
    else
      return []

/-- The branches of an `if` statement, with its `end`. -/
def ifBranches (limit : Nat) (expr : Parser Expr) (statement : Parser Stmt) :
    Parser (List (Expr × Block) × Option Block) := do
  let cond ← expr
  expectKw .thenKw .ifStatement
  let body ← branchBlock limit statement
  let others ← elsifBranches expr (branchBlock limit statement) limit
  let otherwise ←
    if ← acceptKw .elseKw then some <$> blockUntil limit statement .endKw [] .ifStatement
    else pure none
  expectKw .endKw .ifStatement
  return ((cond, body) :: others, otherwise)

/-- `to` or `downto`: `true` for the latter. -/
def direction : Parser Bool := do
  if ← acceptKw .toKw then return false
  if ← acceptKw .downtoKw then return true
  expected .direction .forLoop

/-- A numeric loop after `for`. -/
def forLoop (limit : Nat) (expr : Parser Expr) (statement : Parser Stmt) (start : Nat × Nat) :
    Parser Stmt := do
  let counter ← ident .forLoop
  expectMark .assign .forLoop
  let first ← expr
  let descending ← direction
  let last ← expr
  let step ← if ← acceptKw .stepKw then some <$> expr else pure none
  expectKw .doKw .forLoop
  let body ← block limit statement .forLoop
  return .forLoop (← siteFrom start) counter descending first last step body

/-- The loop always runs over the collection itself, so `ref` before it changes nothing. -/
def withoutRef : Expr → Expr
  | .ref _ target => target
  | e => e

/-- The variables of a `foreach` loop: key, value, and whether the value is a reference. -/
def foreachVariables : Parser (Option String × String × Bool) := do
  let firstByRef ← acceptKw .refKw
  let first ← ident .foreachLoop
  if ← acceptMark .comma then
    if firstByRef then fail .keyByReference
    let byRef ← acceptKw .refKw
    let value ← ident .foreachLoop
    return (some first, value, byRef)
  else
    return (none, first, firstByRef)

/-- A loop over a collection after `foreach`. -/
def foreachLoop (limit : Nat) (expr : Parser Expr) (statement : Parser Stmt) (start : Nat × Nat) :
    Parser Stmt := do
  let (key, value, byRef) ← foreachVariables
  expectKw .inKw .foreachLoop
  let collection ← expr
  expectKw .doKw .foreachLoop
  let body ← block limit statement .foreachLoop
  return .foreachLoop (← siteFrom start) key value byRef (withoutRef collection) body

/-- A named function after `function`. -/
def functionDeclaration (limit : Nat) (expr : Parser Expr) (statement : Parser Stmt)
    (start : Nat × Nat) (isLocal : Bool) : Parser Stmt := do
  let name ← ident .functionDeclaration
  expectMark .lParen .functionDeclaration
  let params ← parameters limit expr
  let body ← block limit statement .functionDeclaration
  return .function (← siteFrom start) isLocal name ⟨start.1, params, body⟩

/-- The operator of an assignment: `some none` for a plain one. -/
def assignOp? : TokenKind → Option (Option CompoundOp)
  | .mark .assign => some none
  | .mark .plusAssign => some (some (.arith .add))
  | .mark .minusAssign => some (some (.arith .sub))
  | .mark .starAssign => some (some (.arith .mul))
  | .mark .slashAssign => some (some (.arith .div))
  | .mark .caretAssign => some (some (.arith .pow))
  | .mark .percentAssign => some (some (.arith .mod))
  | .mark .ampAssign => some (some .concat)
  | _ => none

/-- An expression evaluated for its effect, or an assignment. -/
def simpleStatement (expr : Parser Expr) (start : Nat × Nat) : Parser Stmt := do
  let target ← expr
  match assignOp? (← kind) with
  | none => return .expr (← siteFrom start) target
  | some op =>
    if !target.isPlace then fail .notAssignable
    advance
    let value ← expr
    return .assign (← siteFrom start) op target value

-- ---------------------------------------------------------------------------
-- One statement
-- ---------------------------------------------------------------------------

/-- A statement that starts with the given keyword, which has been read. -/
def keywordStatement (limit : Nat) (expr : Parser Expr) (statement : Parser Stmt) (start : Nat × Nat) :
    Keyword → Parser Stmt
  | .printKw => do
    if ← atStatementEnd then return .print (← siteFrom start) true []
    let arg ← expr
    let (newline, args) ← printArgs expr limit
    return .print (← siteFrom start) newline (arg :: args)
  | .localKw => do
    skipNewlines
    if ← acceptKw .functionKw then
      functionDeclaration limit expr statement start true
    else
      let (names, values) ← declaration limit expr
      return .declare (← siteFrom start) names values
  | .ifKw => do
    let (branches, otherwise) ← ifBranches limit expr statement
    return .branch (← siteFrom start) branches otherwise
  | .whileKw => do
    let cond ← expr
    expectKw .doKw .whileLoop
    let body ← block limit statement .whileLoop
    return .whileLoop (← siteFrom start) cond body
  | .repeatKw => do
    let body ← blockUntil limit statement .untilKw [] .repeatLoop
    expectKw .untilKw .repeatLoop
    let cond ← expr
    return .repeatLoop (← siteFrom start) body cond
  | .forKw => forLoop limit expr statement start
  | .foreachKw => foreachLoop limit expr statement start
  | .functionKw => functionDeclaration limit expr statement start false
  | .returnKw => do
    if ← atStatementEnd then return .result (← siteFrom start) none
    let value ← expr
    return .result (← siteFrom start) (some value)
  | .breakKw => return .leave (← siteFrom start)
  | .continueKw => return .next (← siteFrom start)
  | .passKw => return .pass (← siteFrom start)
  | .assertKw => do
    let cond ← expr
    let message ← if ← acceptMark .comma then some <$> expr else pure none
    return .assert (← siteFrom start) cond message
  | .throwKw => do
    let value ← expr
    return .throw (← siteFrom start) value
  | .doKw => do
    let body ← block limit statement .doBlock
    return .block (← siteFrom start) body
  | .debugKw => do
    if ← accept .eol then
      let body ← block limit statement .debugBlock
      return .debug (← siteFrom start) body
    else
      let s ← statement
      return .debug (← siteFrom start) ⟨start.1, [s]⟩
  | _ => simpleStatement expr start

/-- Keywords that start a statement of their own. -/
def startsStatement : Keyword → Bool
  | .printKw | .localKw | .ifKw | .whileKw | .repeatKw | .forKw | .foreachKw | .functionKw | .returnKw
  | .breakKw | .continueKw | .passKw | .assertKw | .throwKw | .doKw | .debugKw => true
  | _ => false

/-- One statement. -/
def statementWith (limit : Nat) (expr : Parser Expr) (statement : Parser Stmt) : Parser Stmt := do
  let start ← here
  match ← kind with
  | .keyword w =>
    if startsStatement w then
      advance
      keywordStatement limit expr statement start w
    else simpleStatement expr start
  | _ => simpleStatement expr start

-- ---------------------------------------------------------------------------
-- Recursion
-- ---------------------------------------------------------------------------

mutual

/-- Expressions nested at most `depth` levels. -/
def expressionUpTo : (depth : Nat) → Cursor → Except ParseError (Expr × Cursor)
  | 0, c => fail .nestedTooDeeply c
  | depth + 1, c =>
    expressionWith (depth + 1) (expressionUpTo depth) (block (depth + 1) (statementUpTo depth)) c

/-- Statements nested at most `depth` levels. -/
def statementUpTo : (depth : Nat) → Cursor → Except ParseError (Stmt × Cursor)
  | 0, c => fail .nestedTooDeeply c
  | depth + 1, c =>
    statementWith (depth + 1)
      (expressionWith (depth + 1) (expressionUpTo depth) (block (depth + 1) (statementUpTo depth)))
      (statementUpTo depth) c

end

-- ---------------------------------------------------------------------------
-- Scripts
-- ---------------------------------------------------------------------------

/-- Settings such as `option debug = false` at the start of a text. The last one counts. -/
def debugOption : Nat → Option Bool → Parser (Option Bool)
  | 0, _ => fail .nestedTooDeeply
  | limit + 1, setting => do
    if ← acceptKw .optionKw then
      if !(← acceptKw .debugKw) then fail (.invalidOption (← kind))
      let value ←
        if ← acceptMark .assign then
          if ← acceptKw .falseKw then pure false
          else if ← acceptKw .trueKw then pure true
          else fail .invalidOptionValue
        else pure true
      skipSeparators
      debugOption limit (some value)
    else
      return setting

/-- Statements up to the end of the text. -/
def topLevel (statement : Parser Stmt) : Nat → Parser (List Stmt)
  | 0 => fail .nestedTooDeeply
  | limit + 1 => do
    if (← kind) = .eof then return []
    let s ← statement
    statementEnd
    let k ← kind
    if closesBlock k && k ≠ .eof then expected .statement .topLevel
    return s :: (← topLevel statement limit)

/-- A whole script. -/
def script (limit : Nat) : Parser Script := do
  let (line, _) ← here
  skipSeparators
  let debug ← debugOption limit none
  let stmts ← topLevel (statementUpTo limit) limit
  return ⟨debug, ⟨line, stmts⟩⟩

end Rill.Grammar

namespace Rill

/-- Parses a source text. -/
def parse (source : String) : Except ParseError Script := do
  let s := scan source
  let c ← Cursor.start s
  let (script, _) ← Grammar.script (s.tokens.length + 2) c
  return script

end Rill
