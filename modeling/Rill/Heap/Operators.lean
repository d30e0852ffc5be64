-- SUMMARY: The operators of the language on values.
import Rill.Decimal.Arithmetic
import Rill.Heap.Compare

/-!
# Operators

Two integers give an integer if it fits into a word; a float operand makes the operation one of floats.
Division is always of floats, and a power of integers that does not fit becomes a float.
-/

namespace Rill.Heap

/-- Operands of one kind. -/
inductive Operands
  | ints (a b : Int64)
  | floats (a b : Float)

def operands (h : Heap) (op : String) (a b : Value) : Except Failure Operands :=
  match h.resolve a, h.resolve b with
  | .int a, .int b => .ok (.ints a b)
  | .int a, .float b => .ok (.floats (widen a) b)
  | .float a, .int b => .ok (.floats a (widen b))
  | .float a, .float b => .ok (.floats a b)
  | _, _ => .error (Fault.invalidOperands op (h.typeName a) (h.typeName b))

/-- A checked operation on integers, or the operation on floats. -/
def arithmetic (h : Heap) (op : String) (ints : Int → Int → Int) (floats : Float → Float → Float)
    (a b : Value) : Except Failure Value := do
  match ← h.operands op a b with
  | .ints a b =>
    match Decimal.word? (ints a.toInt b.toInt) with
    | some n => return .int n
    | none => throw (Fault.integerOverflow op).failure
  | .floats a b => return .float (floats a b)

def divide (h : Heap) (a b : Value) : Except Failure Value := do
  let (a, b) := match ← h.operands "/" a b with
    | .ints a b => (widen a, widen b)
    | .floats a b => (a, b)
  if b == 0 then throw Fault.divisionByZero.failure
  return .float (a / b)

/-- The remainder has the sign of the dividend. -/
def modulus (h : Heap) (a b : Value) : Except Failure Value := do
  match ← h.operands "%" a b with
  | .ints a b =>
    if b = 0 then throw Fault.divisionByZero.failure
    if a = Int64.minValue ∧ b = -1 then throw (Fault.integerOverflow "%").failure
    return .int (a % b)
  | .floats a b => return .float (Decimal.floatRemainder a b)

def power (h : Heap) (a b : Value) : Except Failure Value := do
  match ← h.operands "^" a b with
  | .ints a b =>
    match Decimal.intPower? a b with
    | some n => return .int n
    | none => return .float (widen a ^ widen b)
  | .floats a b => return .float (a ^ b)

/-- A test of the order of two values. Values without an order fail the test. -/
def ordered (h : Heap) (op : String) (test : Ordering → Bool) (a b : Value) : Except Failure Value :=
  match h.order a b with
  | .ok order => .ok (.bool (order.any test))
  | .error _ => .error (Fault.invalidOperands op (h.typeName a) (h.typeName b))

/-- The three-way comparison: -1, 0 or 1. -/
def signOfOrder (h : Heap) (a b : Value) : Except Failure Value := do
  match ← h.order a b with
  | some .lt => return .int (-1)
  | some .eq => return .int 0
  | some .gt => return .int 1
  | none => throw Fault.nanComparison.failure

/-- Applies an operator. -/
def binary (h : Heap) (op : BinaryOp) (a b : Value) : Except Failure Value :=
  match op with
  | .add => h.arithmetic op.symbol (· + ·) (· + ·) a b
  | .sub => h.arithmetic op.symbol (· - ·) (· - ·) a b
  | .mul => h.arithmetic op.symbol (· * ·) (· * ·) a b
  | .div => h.divide a b
  | .mod => h.modulus a b
  | .pow => h.power a b
  | .eq => do return .bool (← h.equals a b)
  | .notEq => do return .bool (!(← h.equals a b))
  | .lt => h.ordered op.symbol Ordering.isLT a b
  | .ltEq => h.ordered op.symbol Ordering.isLE a b
  | .gt => h.ordered op.symbol Ordering.isGT a b
  | .gtEq => h.ordered op.symbol Ordering.isGE a b
  | .compare => h.signOfOrder a b

def negate (h : Heap) (v : Value) : Except Failure Value :=
  match h.resolve v with
  | .int n => if n = Int64.minValue then .error (Fault.integerOverflow "-") else .ok (.int (-n))
  | .float x => .ok (.float (-x))
  | other => .error (Fault.invalidOperand "-" (h.typeName other))

/-- A loop counter one step on. -/
def stepCounter (h : Heap) (v : Value) (up : Bool) : Except Failure Value :=
  match h.resolve v with
  | .int _ | .float _ => h.binary .add v (.int (if up then 1 else -1))
  | other => .error (Fault.badCounter (h.typeName other))

end Rill.Heap
