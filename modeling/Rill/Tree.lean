-- SUMMARY: The syntax tree: expressions, statements, blocks, function bodies and whole scripts.
import Rill.Source

/-!
# Syntax tree

What a source text says, as the parser reads it and the compiler consumes it. Every expression and
statement carries its `Site`. Blocks are plain statement lists: which constructs open a scope is decided
where scopes matter.
-/

namespace Rill

-- ---------------------------------------------------------------------------
-- Operators
-- ---------------------------------------------------------------------------

/-- An operator on two evaluated operands; `compare` is the three-way comparison. -/
inductive BinaryOp
  | add | sub | mul | div | mod | pow | eq | notEq | lt | ltEq | gt | gtEq | compare
  deriving Repr, DecidableEq

/-- The source spelling. -/
def BinaryOp.symbol : BinaryOp → String
  | .add => "+"
  | .sub => "-"
  | .mul => "*"
  | .div => "/"
  | .mod => "%"
  | .pow => "^"
  | .eq => "=="
  | .notEq => "!="
  | .lt => "<"
  | .ltEq => "<="
  | .gt => ">"
  | .gtEq => ">="
  | .compare => "<=>"

/-- An operator that evaluates its right operand only if the left one does not decide. -/
inductive LogicalOp
  | conj | disj
  deriving Repr, DecidableEq

inductive UnaryOp
  | neg | not
  deriving Repr, DecidableEq

/-- The operator of a compound assignment such as `x += 1`. -/
inductive CompoundOp
  | arith (op : BinaryOp)
  | concat
  deriving Repr, DecidableEq

-- ---------------------------------------------------------------------------
-- Nodes
-- ---------------------------------------------------------------------------

mutual

/-- An expression. `concat` holds all parts of `a & b & c`, `array` its items row by row, `ref` a
reference to a place or to what a call returns. -/
inductive Expr
  | null (site : Site)
  | nan (site : Site)
  | bool (site : Site) (value : Bool)
  | int (site : Site) (value : Int64)
  | float (site : Site) (value : Float)
  | str (site : Site) (text : String)
  | ident (site : Site) (name : String)
  | unary (site : Site) (op : UnaryOp) (operand : Expr)
  | binary (site : Site) (op : BinaryOp) (left right : Expr)
  | logical (site : Site) (op : LogicalOp) (left right : Expr)
  | concat (site : Site) (parts : List Expr)
  | conditional (site : Site) (cond whenTrue whenFalse : Expr)
  | field (site : Site) (object : Expr) (name : String)
  | index (site : Site) (object : Expr) (indices : List Expr)
  | call (site : Site) (callee : Expr) (args : List Expr)
  | ref (site : Site) (target : Expr)
  | list (site : Site) (items : List Expr)
  | array (site : Site) (rows cols : Nat) (items : List Expr)
  | table (site : Site) (entries : List (Expr × Expr))
  | set (site : Site) (items : List Expr)
  | function (site : Site) (fn : Lambda)

/-- The parameters and the body of a function. -/
structure Lambda where
  line : Nat
  params : List Param
  body : Block

/-- A parameter; `type` is evaluated to a class when the function is created. -/
structure Param where
  line : Nat
  name : String
  byRef : Bool
  type : Option Expr

/-- Statements and the line their block starts on. -/
structure Block where
  line : Nat
  stmts : List Stmt

/-- A statement. `declare` makes locals, its values are none or as many as its names; `debug` is
compiled only when debugging is on. -/
inductive Stmt
  | expr (site : Site) (value : Expr)
  | assign (site : Site) (op : Option CompoundOp) (target value : Expr)
  | declare (site : Site) (names : List String) (values : List Expr)
  | function (site : Site) (isLocal : Bool) (name : String) (fn : Lambda)
  | print (site : Site) (newline : Bool) (args : List Expr)
  | branch (site : Site) (branches : List (Expr × Block)) (otherwise : Option Block)
  | whileLoop (site : Site) (cond : Expr) (body : Block)
  | repeatLoop (site : Site) (body : Block) (cond : Expr)
  | forLoop (site : Site) (counter : String) (descending : Bool) (first last : Expr) (step : Option Expr)
      (body : Block)
  | foreachLoop (site : Site) (key : Option String) (value : String) (byRef : Bool) (collection : Expr)
      (body : Block)
  | result (site : Site) (value : Option Expr)
  | leave (site : Site)
  | next (site : Site)
  | pass (site : Site)
  | assert (site : Site) (cond : Expr) (message : Option Expr)
  | throw (site : Site) (value : Expr)
  | debug (site : Site) (body : Block)
  | block (site : Site) (body : Block)

end

instance : Inhabited Expr := ⟨.null default⟩
instance : Inhabited Block := ⟨⟨0, []⟩⟩
instance : Inhabited Stmt := ⟨.pass default⟩

/-- A parsed source text. `debug` is its own debug setting, if it has one. -/
structure Script where
  debug : Option Bool
  body : Block

/-- The most parameters a function can have: reference flags are one word of 64 bits. -/
def maxParams : Nat := 64

-- ---------------------------------------------------------------------------
-- Sites and places
-- ---------------------------------------------------------------------------

def Expr.site : Expr → Site
  | .null s | .nan s | .bool s _ | .int s _ | .float s _ | .str s _ | .ident s _ | .unary s _ _
  | .binary s _ _ _ | .logical s _ _ _ | .concat s _ | .conditional s _ _ _ | .field s _ _ | .index s _ _
  | .call s _ _ | .ref s _ | .list s _ | .array s _ _ _ | .table s _ | .set s _ | .function s _ => s

def Stmt.site : Stmt → Site
  | .expr s _ | .assign s _ _ _ | .declare s _ _ | .function s _ _ _ | .print s _ _ | .branch s _ _
  | .whileLoop s _ _ | .repeatLoop s _ _ | .forLoop s _ _ _ _ _ _ | .foreachLoop s _ _ _ _ _
  | .result s _ | .leave s | .next s | .pass s | .assert s _ _ | .throw s _ | .debug s _ | .block s _ => s

/-- The expression names a storage location: it can be assigned to and passed by reference. -/
def Expr.isPlace : Expr → Bool
  | .ident .. | .field .. | .index .. => true
  | _ => false

end Rill
