-- SUMMARY: What holds of every syntax tree that the grammar makes.
import Rill.Tree

/-!
# Proper syntax trees

The grammar makes fewer trees than the data types allow. The names in a text never start with a dollar
sign, so they never meet the hidden variables of loops; and an array literal is a rectangle.
-/

namespace Rill

/-- A name that a text can spell. -/
def IsName (name : String) : Prop := name.toList.head? ≠ some '$'

mutual

/-- A proper expression: every name can be spelled and every array literal is a rectangle. -/
def Expr.Proper : Expr → Prop
  | .null _ | .nan _ | .bool .. | .int .. | .float .. | .str .. => True
  | .ident _ name => IsName name
  | .unary _ _ e => e.Proper
  | .binary _ _ left right => left.Proper ∧ right.Proper
  | .logical _ _ left right => left.Proper ∧ right.Proper
  | .concat _ parts => ProperAll parts
  | .conditional _ cond whenTrue whenFalse => cond.Proper ∧ whenTrue.Proper ∧ whenFalse.Proper
  | .field _ object _ => object.Proper
  | .index _ object indices => object.Proper ∧ ProperAll indices
  | .call _ callee args => callee.Proper ∧ ProperAll args
  | .ref _ target => target.Proper
  | .list _ items => ProperAll items
  | .array _ rows cols items => rows * cols = items.length ∧ ProperAll items
  | .table _ entries => ProperPairs entries
  | .set _ items => ProperAll items
  | .function _ fn => fn.Proper

def ProperAll : List Expr → Prop
  | [] => True
  | e :: rest => e.Proper ∧ ProperAll rest

def ProperPairs : List (Expr × Expr) → Prop
  | [] => True
  | (key, value) :: rest => key.Proper ∧ value.Proper ∧ ProperPairs rest

def Lambda.Proper : Lambda → Prop
  | ⟨_, params, body⟩ => ProperParams params ∧ body.Proper

def ProperParams : List Param → Prop
  | [] => True
  | ⟨_, _, _, some e⟩ :: rest => e.Proper ∧ ProperParams rest
  | ⟨_, _, _, none⟩ :: rest => ProperParams rest

def Block.Proper : Block → Prop
  | ⟨_, stmts⟩ => ProperStmts stmts

def ProperStmts : List Stmt → Prop
  | [] => True
  | s :: rest => s.Proper ∧ ProperStmts rest

def Stmt.Proper : Stmt → Prop
  | .expr _ value => value.Proper
  | .assign _ _ target value => target.Proper ∧ value.Proper
  | .declare _ _ values => ProperAll values
  | .function _ _ name fn => IsName name ∧ fn.Proper
  | .print _ _ args => ProperAll args
  | .branch _ arms otherwise => ProperArms arms ∧ ProperOption otherwise
  | .whileLoop _ cond body => cond.Proper ∧ body.Proper
  | .repeatLoop _ body cond => body.Proper ∧ cond.Proper
  | .forLoop _ _ _ first last step body =>
    first.Proper ∧ last.Proper ∧ ProperOptionExpr step ∧ body.Proper
  | .foreachLoop _ _ _ _ collection body => collection.Proper ∧ body.Proper
  | .result _ value => ProperOptionExpr value
  | .leave _ | .next _ | .pass _ => True
  | .assert _ cond message => cond.Proper ∧ ProperOptionExpr message
  | .throw _ value => value.Proper
  | .debug _ body => body.Proper
  | .block _ body => body.Proper

def ProperArms : List (Expr × Block) → Prop
  | [] => True
  | (cond, body) :: rest => cond.Proper ∧ body.Proper ∧ ProperArms rest

def ProperOption : Option Block → Prop
  | none => True
  | some body => body.Proper

def ProperOptionExpr : Option Expr → Prop
  | none => True
  | some e => e.Proper

end

theorem Block.Proper.stmts {body : Block} (h : body.Proper) : ProperStmts body.stmts := by
  cases body
  exact h

end Rill
