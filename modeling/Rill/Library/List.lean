-- SUMMARY: Functions on lists.
import Rill.Heap.Compare
import Rill.Heap.Text
import Rill.Library.Math

/-!
# List functions

Positions count from one, negative ones from the end; searches answer zero when nothing is found. Values
are sought by equality.
-/

namespace Rill.Library

-- ---------------------------------------------------------------------------
-- Searching
-- ---------------------------------------------------------------------------

/-- The number of values before the first one that satisfies a test. -/
def firstWhere? (test : Value → Except Failure Bool) : List Value → Except Failure (Option Nat)
  | [] => .ok none
  | v :: rest => do
    if ← test v then return some 0
    return (← firstWhere? test rest).map (· + 1)

/-- The number of values before the last one that satisfies a test. -/
def lastWhere? (test : Value → Except Failure Bool) (items : List Value) : Except Failure (Option Nat) := do
  return (← firstWhere? test items.reverse).map fun behind => items.length - 1 - behind

/-- The list has a value equal to the given one. -/
def hasEqual (h : Heap) (items : List Value) (v : Value) : Except Failure Bool := do
  return (← firstWhere? (h.equals · v) items).isSome

/-- The position of the first value from a position on that equals the given one, or zero. -/
def findItem (h : Heap) (items : List Value) (v : Value) (start : Int64) : Except Failure Nat := do
  if items.isEmpty then return 0
  let first ← resolveIndex start items.length
  return (← firstWhere? (h.equals · v) (items.drop first)).elim 0 (first + · + 1)

/-- The position of the last value up to a position that equals the given one, or zero. -/
def findItemBack (h : Heap) (items : List Value) (v : Value) (start : Int64) : Except Failure Nat := do
  if items.isEmpty then return 0
  let last ← resolveIndex start items.length
  return (← lastWhere? (h.equals · v) (items.take (last + 1))).elim 0 (· + 1)

/-- The values of the second list that the first one lacks are added to it one by one. -/
def union (h : Heap) (items others : List Value) : Except Failure (List Value) :=
  others.foldlM (fun items v => do
    if ← hasEqual h items v then return items else return items ++ [v]) items

-- ---------------------------------------------------------------------------
-- Editing
-- ---------------------------------------------------------------------------

/-- Removes the value at an offset and answers it. -/
def takeAt (items : Array Value) (offset : Nat) : Array Value × Except Failure Value :=
  match items[offset]? with
  | some v => (items.eraseIdxIfInBounds offset, .ok v)
  | none => (items, .error Fault.emptyList)

/-- Puts a value at a position; the one behind the last value is allowed too. -/
def insertItem (items : Array Value) (position : Int64) (v : Value) : Except Failure (Array Value) := do
  let offset ← resolveIndex position (items.size + 1)
  return items.insertIdxIfInBounds offset v

/-- Removes the value at the offset that a search finds. -/
def removeFound (items : Array Value) (found : Except Failure (Option Nat)) : Except Failure (Array Value) := do
  match ← found with
  | some offset => return items.eraseIdxIfInBounds offset
  | none => return items

/-- Sorts a list. It stays rearranged when a comparison fails. -/
def sortItems (h : Heap) (items : Array Value) : Array Value × Except Failure Value :=
  match Heap.sorted h.order items.toList with
  | (items, none) => (items.toArray, .ok .null)
  | (items, some e) => (items.toArray, .error e)

-- ---------------------------------------------------------------------------
-- The functions
-- ---------------------------------------------------------------------------

/-- The value at one end of a list. -/
def endItem (item : Option Value) : Run Value :=
  match item with
  | some v => return v
  | none => Run.fail .emptyList

def list (f : ListFunction) (args : Arguments) : Run Value := do
  let h ← Run.heap
  let target := args.nth 0
  match f with
  | .create => Run.newList #[]
  | .contains => return .bool (← hasEqual h (← args.list 0).toList (args.nth 1))
  | .first => endItem (← args.list 0)[0]?
  | .last => endItem (← args.list 0).back?
  | .find => return .ofNat (← findItem h (← args.list 0).toList (args.nth 1) 1)
  | .findFrom => return .ofNat (← findItem h (← args.list 0).toList (args.nth 1) (← args.integer 2))
  | .findBack => return .ofNat (← findItemBack h (← args.list 0).toList (args.nth 1) (-1))
  | .findBackFrom =>
    return .ofNat (← findItemBack h (← args.list 0).toList (args.nth 1) (← args.integer 2))
  | .left =>
    let items ← args.list 0
    Run.newList (items.take (← args.count 1))
  | .right =>
    let items ← args.list 0
    Run.newList (items.drop (items.size - (← args.count 1)))
  | .join =>
    let separator ← args.text 1
    return .text (separator.intercalate ((← args.list 0).toList.map h.text))
  | .isEmpty => return .bool (← args.list 0).isEmpty
  | .isSorted => return .bool (← Heap.isSorted h.order (← args.list 0).toList)
  | .sample =>
    let items ← args.list 0
    let wanted ← args.count 1
    if wanted > items.size then Run.fail (.sampleTooLarge wanted items.size)
    Run.newList ((← Run.shuffled items).take wanted)
  | .intersect =>
    let items ← args.list 0
    let others := (← args.list 1).toList
    Run.newList (← items.filterM fun v => (firstWhere? (h.equals · v) others).map (·.isSome))
  | .unite => Run.newList (← union h (← args.list 0).toList (← args.list 1).toList).toArray
  | .subtract =>
    let items ← args.list 0
    let others := (← args.list 1).toList
    Run.newList (← items.filterM fun v => (firstWhere? (h.equals · v) others).map (·.isNone))
  | .clear => replaceItems target fun _ => .ok #[]
  | .append =>
    let v ← args.value 1
    replaceItems target fun items => .ok (items.push v)
  | .prepend =>
    let v ← args.value 1
    replaceItems target fun items => .ok (#[v] ++ items)
  | .insert =>
    let position ← args.integer 1
    let v ← args.value 2
    replaceItems target fun items => insertItem items position v
  | .pop => editList target fun items => takeAt items (items.size - 1)
  | .shift => editList target fun items => takeAt items 0
  | .sort => editList target (sortItems h)
  | .reverse => replaceItems target fun items => .ok items.reverse
  | .shuffle =>
    let (id, content) ← ownObject "List" target
    match content with
    | .list items =>
      Run.setContent id (.list (← Run.shuffled items))
      return .null
    | _ => throw (h.mistyped "List" target)
  | .remove =>
    let v ← args.value 1
    replaceItems target fun items => items.filterM fun w => (h.equals w v).map (!·)
  | .removeFirst =>
    let v ← args.value 1
    replaceItems target fun items => removeFound items (firstWhere? (h.equals · v) items.toList)
  | .removeLast =>
    let v ← args.value 1
    replaceItems target fun items => removeFound items (lastWhere? (h.equals · v) items.toList)
  | .removeAt =>
    let position ← args.integer 1
    editList target fun items =>
      match resolveIndex position items.size with
      | .ok offset => takeAt items offset
      | .error e => (items, .error e)

def listEntries : List Entry :=
  let fn (f : ListFunction) : Native := .list f
  let l : ClassId := .list
  let o : ClassId := .root
  let i : ClassId := .integer
  [ .initializer .list (fn .create) [],
    .function "contains" (fn .contains) [l, o],
    .function "first" (fn .first) [l],
    .function "last" (fn .last) [l],
    .function "find" (fn .find) [l, o],
    .function "find" (fn .findFrom) [l, o, i],
    .function "find_back" (fn .findBack) [l, o],
    .function "find_back" (fn .findBackFrom) [l, o, i],
    .function "left" (fn .left) [l, i],
    .function "right" (fn .right) [l, i],
    .function "join" (fn .join) [l, .string],
    .function "is_empty" (fn .isEmpty) [l],
    .function "is_sorted" (fn .isSorted) [l],
    .function "sample" (fn .sample) [l, i],
    .function "intersect" (fn .intersect) [l, l],
    .function "unite" (fn .unite) [l, l],
    .function "subtract" (fn .subtract) [l, l],
    .editor "clear" (fn .clear) [l],
    .editor "append" (fn .append) [l, o],
    .editor "prepend" (fn .prepend) [l, o],
    .editor "insert" (fn .insert) [l, i, o],
    .editor "pop" (fn .pop) [l],
    .editor "shift" (fn .shift) [l],
    .editor "sort" (fn .sort) [l],
    .editor "reverse" (fn .reverse) [l],
    .editor "shuffle" (fn .shuffle) [l],
    .editor "remove" (fn .remove) [l, o],
    .editor "remove_first" (fn .removeFirst) [l, o],
    .editor "remove_last" (fn .removeLast) [l, o],
    .editor "remove_at" (fn .removeAt) [l, i] ]

end Rill.Library
