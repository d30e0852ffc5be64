-- SUMMARY: Conversions and introspection, and what classes of scalars give when called.
import Rill.Decimal.Read
import Rill.Heap.Text
import Rill.Library.Entry
import Rill.Unicode.Property

/-!
# Conversions

A float becomes an integer by dropping its fraction. Texts are read as numbers after blanks around them
are dropped.
-/

namespace Rill

/-- Number of characters of a text or of elements of a container. -/
def Heap.length (h : Heap) (v : Value) : Except Failure Nat :=
  match h.resolve v with
  | .text s => .ok s.length
  | v =>
    match (h.contentOf v).bind Content.size? with
    | some n => .ok n
    | none => .error (Fault.noLength (h.typeName v))

/-- A float without its fraction as an integer, if it is in range. -/
def wholePart? (x : Float) : Option Int64 :=
  if x ≥ -9223372036854775808.0 && x < 9223372036854775808.0 then some (truncate x) else none

/-- A value converted to an integer. -/
def Heap.toInteger (h : Heap) (v : Value) : Except Failure Int64 :=
  match h.resolve v with
  | .int n => .ok n
  | .bool b => .ok (if b then 1 else 0)
  | .float x =>
    match wholePart? x with
    | some n => .ok n
    | none => .error (Fault.floatTooLarge x)
  | .text s =>
    match Decimal.readInt (Unicode.trim s.toList) with
    | some n => .ok n
    | none => .error (Fault.unconvertibleText s "Integer")
  | other => .error (Fault.unconvertible (h.typeName other) "Integer")

/-- A value converted to a float. -/
def Heap.toFloat (h : Heap) (v : Value) : Except Failure Float :=
  match h.resolve v with
  | .float x => .ok x
  | .int n => .ok (widen n)
  | .bool b => .ok (if b then 1 else 0)
  | .text s =>
    match Decimal.readFloat (Unicode.trim s.toList) with
    | some x => .ok x
    | none => .error (Fault.unconvertibleText s "Float")
  | other => .error (Fault.unconvertible (h.typeName other) "Float")

namespace Library

def general (f : GeneralFunction) (args : Arguments) : Run Value := do
  let h ← Run.heap
  let v := args.nth 0
  match f with
  | .typeName => return .text (h.typeName v)
  | .length => return .ofNat (← h.length v)
  | .text => return .text (h.text v)
  | .truth => return .bool (h.truth v)
  | .integer => return .int (← h.toInteger v)
  | .float => return .float (← h.toFloat v)
  | .constant value => return value

def generalEntries : List Entry :=
  let fn (f : GeneralFunction) : Native := .general f
  [ .function "type" (fn .typeName) [.root],
    .function "len" (fn .length) [.root],
    .function "str" (fn .text) [.root],
    .function "bool" (fn .truth) [.root],
    .function "int" (fn .integer) [.root],
    .function "float" (fn .float) [.root],
    .field .string "length" (fn .length),
    .field .list "length" (fn .length),
    .field .table "length" (fn .length),
    .field .set "length" (fn .length),
    .field .array "length" (fn .length),
    .initializer .boolean (fn (.constant (.bool false))) [],
    .initializer .string (fn (.constant (.text ""))) [],
    .initializer .integer (fn (.constant (.int 0))) [],
    .initializer .float (fn (.constant (.float 0.0))) [] ]

end Library

end Rill
