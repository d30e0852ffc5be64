-- SUMMARY: The written form of instructions, as shown in listings of compiled code.
import Rill.Code

/-!
# Listings

An instruction is written as its name followed by its operands. The name tells the place and its use:
`GetLocal`, `GetUniqueGlobal`, `GetFieldRef`.
-/

namespace Rill

/-- A name followed by operands in parentheses. -/
def withOperands (name : String) (operands : List Nat) : String :=
  name ++ "(" ++ ", ".intercalate (operands.map toString) ++ ")"

/-- A name followed by named operands in braces. -/
def withFields (name : String) (fields : List (String × String)) : String :=
  name ++ " \x7b " ++ ", ".intercalate (fields.map fun (k, v) => k ++ ": " ++ v) ++ " \x7d"

def Slot.name : Slot → String
  | .frame _ => "Local"
  | .captured _ => "Upvalue"
  | .global _ => "Global"

def Slot.operand : Slot → Nat
  | .frame i | .captured i | .global i => i

/-- How an element or a field is written: what it is, what selects it, and what it is used for. -/
def partListing (part : String) (operand : Nat) : Use → String
  | .value => withOperands ("Get" ++ part) [operand]
  | .reference => withOperands ("Get" ++ part ++ "Ref") [operand]
  | .unique => withOperands ("Get" ++ part ++ "Unique") [operand]
  | .argument p => withOperands ("Get" ++ part ++ "Arg") [operand, p]

def slotListing (slot : Slot) : Use → String
  | .unique => withOperands ("GetUnique" ++ slot.name) [slot.operand]
  | use => partListing slot.name slot.operand use

def binaryListing : BinaryOp → String
  | .add => "Add"
  | .sub => "Subtract"
  | .mul => "Multiply"
  | .div => "Divide"
  | .mod => "Modulus"
  | .pow => "Power"
  | .eq => "Equal"
  | .notEq => "NotEqual"
  | .lt => "Less"
  | .ltEq => "LessEqual"
  | .gt => "Greater"
  | .gtEq => "GreaterEqual"
  | .compare => "Compare"

def JumpTest.listing : JumpTest → String
  | .always => "Jump"
  | .ifFalse => "JumpFalse"
  | .ifTrue => "JumpTrue"
  | .ifFalseKeep => "JumpFalseAnd"
  | .ifTrueKeep => "JumpTrueOr"

/-- The written form of an instruction. -/
def Instruction.listing : Instruction → String
  | .pushNull => "PushNull"
  | .pushBool b => "PushBoolean(" ++ toString b ++ ")"
  | .pushSmall n => "PushSmallInt(" ++ toString n.toInt ++ ")"
  | .pushInt k => withOperands "PushInteger" [k]
  | .pushFloat k => withOperands "PushFloat" [k]
  | .pushNan => "PushNan"
  | .pushStr k => withOperands "PushString" [k]
  | .pop => "Pop"
  | .reserve n => withOperands "NewFrame" [n]
  | .read slot use => slotListing slot use
  | .write slot => withOperands ("Set" ++ slot.name) [slot.operand]
  | .define i => withOperands "DefineLocal" [i]
  | .declare slot => withOperands ("Define" ++ slot.name ++ "Function") [slot.operand]
  | .count i true => withOperands "IncrementLocal" [i]
  | .count i false => withOperands "DecrementLocal" [i]
  | .element n use => partListing "Index" n use
  | .setElement n => withOperands "SetIndex" [n]
  | .member k use => partListing "Field" k use
  | .setMember k => withOperands "SetField" [k]
  | .binary op => binaryListing op
  | .negate => "Negate"
  | .not => "Not"
  | .concat n => withOperands "Concat" [n]
  | .jump test target => withOperands test.listing [target]
  | .precall => "Precall"
  | .call n keep => withFields "Call" [("argc", toString n), ("return_ref", toString keep)]
  | .result => "Return"
  | .closure r p => withFields "NewClosure" [("routine", toString r), ("params", toString p)]
  | .list n => withOperands "NewList" [n]
  | .table n => withOperands "NewTable" [n]
  | .set n => withOperands "NewSet" [n]
  | .array r c => withFields "NewArray" [("rows", toString r), ("cols", toString c)]
  | .iterate byRef => "NewIterator(" ++ toString byRef ++ ")"
  | .hasNext => "TestIterator"
  | .nextKey => "NextKey"
  | .nextValue => "NextValue"
  | .print n true => withOperands "PrintLine" [n]
  | .print n false => withOperands "Print" [n]
  | .assert n => withOperands "Assert" [n]
  | .throw => "Throw"

/-- The instructions of a sequence, each behind its source line. -/
def Code.listing (c : Code) : List String :=
  c.ops.toList.mapIdx fun i op => toString (c.lineAt i) ++ ": " ++ op.listing

end Rill
