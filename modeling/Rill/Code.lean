-- SUMMARY: The instruction set and instruction sequences with their line table.
import Rill.Tree

/-!
# Code

Instructions of the operand-stack machine. Operands are indices into the constant pools of the routine,
local slots or captured variables; jump targets are absolute instruction indices. A place can be used in
four ways: for its value, for a reference to it, for a value that may be changed in place, and as an
argument, where the callee decides between the first two.
-/

namespace Rill

-- ---------------------------------------------------------------------------
-- Instructions
-- ---------------------------------------------------------------------------

/-- Where a variable lives: a slot of the frame, a captured variable, or a global named by a constant. -/
inductive Slot
  | frame (index : Nat)
  | captured (index : Nat)
  | global (name : Nat)
  deriving Repr, DecidableEq

/-- What a place is read for. `argument` leaves the choice between value and reference to the callee
whose arguments are being evaluated. -/
inductive Use
  | value
  | reference
  | unique
  | argument (position : Nat)
  deriving Repr, DecidableEq

/-- When a jump is taken. The last two keep the tested value if they jump and drop it otherwise. -/
inductive JumpTest
  | always | ifFalse | ifTrue | ifFalseKeep | ifTrueKeep
  deriving Repr, DecidableEq

/-- One instruction. `define` starts a fresh binding of a slot and never writes through a reference;
`declare` stores a function, as an overload if the slot holds a function already; `precall` records the
callee's reference flags before its arguments. `setElement` finds value, container and indices on the
stack, `setMember` value and object. -/
inductive Instruction
  | pushNull
  | pushBool (value : Bool)
  | pushSmall (value : Int16)
  | pushInt (constant : Nat)
  | pushFloat (constant : Nat)
  | pushNan
  | pushStr (constant : Nat)
  | pop
  | reserve (slots : Nat)
  | read (slot : Slot) (use : Use)
  | write (slot : Slot)
  | define (index : Nat)
  | declare (slot : Slot)
  | count (index : Nat) (up : Bool)
  | element (indices : Nat) (use : Use)
  | setElement (indices : Nat)
  | member (name : Nat) (use : Use)
  | setMember (name : Nat)
  | binary (op : BinaryOp)
  | negate
  | not
  | concat (parts : Nat)
  | jump (test : JumpTest) (target : Nat)
  | precall
  | call (args : Nat) (keepRef : Bool)
  | result
  | closure (routine params : Nat)
  | list (items : Nat)
  | table (entries : Nat)
  | set (items : Nat)
  | array (rows cols : Nat)
  | iterate (byRef : Bool)
  | hasNext
  | nextKey
  | nextValue
  | print (values : Nat) (newline : Bool)
  | assert (operands : Nat)
  | throw
  deriving Repr, DecidableEq

-- ---------------------------------------------------------------------------
-- Instruction sequences
-- ---------------------------------------------------------------------------

/-- Instructions with the source line of each, kept as runs: a pair `(first, line)` opens a run of
instructions of one line. -/
structure Code where
  ops : Array Instruction := #[]
  runs : Array (Nat × Nat) := #[]
  deriving Repr, DecidableEq, Inhabited

/-- The index the next instruction will get. -/
def Code.size (c : Code) : Nat := c.ops.size

/-- Appends an instruction of the given line. -/
def Code.emit (c : Code) (op : Instruction) (line : Nat) : Code :=
  { ops := c.ops.push op
    runs := if c.runs.back?.any (·.2 = line) then c.runs else c.runs.push (c.ops.size, line) }

/-- Replaces the instruction at an index. -/
def Code.patch (c : Code) (index : Nat) (op : Instruction) : Code :=
  { c with ops := c.ops.setIfInBounds index op }

/-- A jump with another target; other instructions are left as they are. -/
def Instruction.retarget (target : Nat) : Instruction → Instruction
  | .jump test _ => .jump test target
  | op => op

/-- Points the jump at an index to a target. -/
def Code.patchJump (c : Code) (index target : Nat) : Code :=
  { c with ops := c.ops.modify index (Instruction.retarget target) }

/-- The source line of an instruction; past the end, that of the last one. -/
def Code.lineAt (c : Code) (index : Nat) : Nat :=
  match (c.runs.toList.takeWhile (·.1 ≤ index)).getLast? with
  | some (_, line) => line
  | none => 0

end Rill
