-- SUMMARY: Functions and fields of tables, sets, numeric arrays and modules.
import Rill.Decimal.Arithmetic
import Rill.Library.Entry

/-!
# Tables, sets, arrays and modules

Entries of tables are found by key and keep the order in which their keys were first inserted. So do the
elements of sets; the elements of a combination come in the order of the first set, then of the second.
Arrays are made with one number everywhere. A minimum or maximum passes over nan. A module is made empty;
what is assigned to its fields becomes its members.
-/

namespace Rill.Library

-- ---------------------------------------------------------------------------
-- Tables
-- ---------------------------------------------------------------------------

/-- The value of the key given by the second argument in the table given by the first. -/
def entryOf (args : Arguments) : Run (Option Value) := do
  let key ← args.key 1
  return (← args.table 0).find? key

def table (f : TableFunction) (args : Arguments) : Run Value := do
  let target := args.nth 0
  match f with
  | .create => Run.newTable {}
  | .contains => return .bool (← entryOf args).isSome
  | .isEmpty => return .bool ((← args.table 0).size = 0)
  | .get => return (← entryOf args).getD .null
  | .getOr => return (← entryOf args).getD (← args.value 2)
  | .clear => editTable target fun _ => {}
  | .remove =>
    let key ← args.key 1
    editTable target (·.erase key)
  | .keys => Run.newList ((← args.table 0).keys.map Key.value)
  | .values => Run.newList (← args.table 0).values

def tableEntries : List Entry :=
  let fn (f : TableFunction) : Native := .table f
  let t : ClassId := .table
  let o : ClassId := .root
  [ .initializer .table (fn .create) [],
    .function "contains" (fn .contains) [t, o],
    .function "is_empty" (fn .isEmpty) [t],
    .function "get" (fn .get) [t, o],
    .function "get" (fn .getOr) [t, o, o],
    .editor "clear" (fn .clear) [t],
    .editor "remove" (fn .remove) [t, o],
    .field .table "keys" (fn .keys),
    .field .table "values" (fn .values) ]

-- ---------------------------------------------------------------------------
-- Sets
-- ---------------------------------------------------------------------------

def set (f : SetFunction) (args : Arguments) : Run Value := do
  let target := args.nth 0
  match f with
  | .create => Run.newSet #[]
  | .contains =>
    let key ← args.key 1
    return .bool ((← args.set 0).contains key)
  | .isEmpty => return .bool (← args.set 0).isEmpty
  | .insert =>
    let key ← args.key 1
    editSet target (·.insert key)
  | .remove =>
    let key ← args.key 1
    editSet target (·.erase key)
  | .clear => editSet target fun _ => #[]
  | .intersect =>
    let elements ← args.set 0
    let others ← args.set 1
    Run.newSet (elements.filter others.contains)
  | .unite =>
    let elements ← args.set 0
    Run.newSet ((← args.set 1).foldl KeySet.insert elements)
  | .subtract =>
    let elements ← args.set 0
    let others ← args.set 1
    Run.newSet (elements.filter fun key => !others.contains key)

def setEntries : List Entry :=
  let fn (f : SetFunction) : Native := .set f
  let s : ClassId := .set
  let o : ClassId := .root
  [ .initializer .set (fn .create) [],
    .function "contains" (fn .contains) [s, o],
    .function "is_empty" (fn .isEmpty) [s],
    .editor "insert" (fn .insert) [s, o],
    .editor "remove" (fn .remove) [s, o],
    .editor "clear" (fn .clear) [s],
    .function "intersect" (fn .intersect) [s, s],
    .function "unite" (fn .unite) [s, s],
    .function "subtract" (fn .subtract) [s, s] ]

-- ---------------------------------------------------------------------------
-- Arrays
-- ---------------------------------------------------------------------------

/-- The number that is left when the numbers of an array are combined pairwise from the left. -/
def combined (m : Matrix) (f : Float → Float → Float) : Run Value :=
  match m.data.toList with
  | x :: rest => return .float (rest.foldl f x)
  | [] => Run.fail .emptyArray

def array (f : ArrayFunction) (args : Arguments) : Run Value := do
  match f with
  | .filledRow x => Run.newArray (← Matrix.filled 1 (← args.count 0) x)
  | .filled x => Run.newArray (← Matrix.filled (← args.count 0) (← args.count 1) x)
  | .min => combined (← args.matrix 0) Decimal.floatMin
  | .max => combined (← args.matrix 0) Decimal.floatMax
  | .transpose => Run.newArray (← args.matrix 0).transpose
  | .clear => editArray (args.nth 0) (·.map fun _ => 0)
  | .rows => return .ofNat (← args.matrix 0).rows
  | .cols => return .ofNat (← args.matrix 0).cols

def arrayEntries : List Entry :=
  let fn (f : ArrayFunction) : Native := .array f
  let a : ClassId := .array
  let i : ClassId := .integer
  [ .function "zeros" (fn (.filledRow 0)) [i],
    .function "zeros" (fn (.filled 0)) [i, i],
    .function "ones" (fn (.filledRow 1)) [i],
    .function "ones" (fn (.filled 1)) [i, i],
    .initializer .array (fn (.filledRow 0)) [i],
    .initializer .array (fn (.filled 0)) [i, i],
    .function "min" (fn .min) [a],
    .function "max" (fn .max) [a],
    .function "transpose" (fn .transpose) [a],
    .editor "clear" (fn .clear) [a],
    .field .array "nrow" (fn .rows),
    .field .array "ncol" (fn .cols) ]

-- ---------------------------------------------------------------------------
-- Modules
-- ---------------------------------------------------------------------------

def space (f : ModuleFunction) (args : Arguments) : Run Value := do
  match f with
  | .create => Run.newObject .space (.space { name := ← args.text 0 })
  | .contains =>
    let name ← args.text 1
    let h ← Run.heap
    match h.contentOf (args.nth 0) with
    | some (.space s) => return .bool (s.members.contains name)
    | _ => throw (h.mistyped "Module" (args.nth 0))

def spaceEntries : List Entry :=
  [ .initializer .space (.space .create) [.string],
    .function "contains" (.space .contains) [.space, .string] ]

end Rill.Library
