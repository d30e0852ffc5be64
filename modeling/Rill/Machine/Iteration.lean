-- SUMMARY: Loops over the elements of texts and containers.
import Rill.Machine.State

/-!
# Iteration

A loop holds an iterator. It asks whether a value is left, reads the key at the position, and takes the
value. Keys are positions that count from one, and for tables the keys themselves. A loop by reference
makes the elements it takes cells.
-/

namespace Rill

/-- The state of a loop over a value that is about to start. -/
def Heap.iterator (h : Heap) (v : Value) (byRef : Bool) : Except Failure Iterator :=
  let start (source : Sequence) (referenceable : Bool) : Except Failure Iterator :=
    if byRef && !referenceable then .error (Fault.noReferenceLoop (h.typeName v))
    else .ok { source := source, byRef := byRef }
  match h.resolve v with
  | .text s => start (.text s.toList) false
  | .object id =>
    match h.content? id with
    | some (.list _) | some (.table _) => start (.object id) true
    | some (.set _) | some (.array _) => start (.object id) false
    | _ => .error (Fault.notIterable (h.typeName v))
  | other => .error (Fault.notIterable (h.typeName other))

/-- A value is left. -/
def Heap.hasNext (h : Heap) (it : Iterator) : Bool :=
  match it.source with
  | .text rest => !rest.isEmpty
  | .object id => ((h.content? id).bind Content.size?).any (it.position < ·)

/-- The key at the position. -/
def Heap.nextKey (h : Heap) (it : Iterator) : Value :=
  let table? : Option Table :=
    match it.source with
    | .text _ => none
    | .object id =>
      match h.content? id with
      | some (.table entries) => some entries
      | _ => none
  match table? with
  | some entries => (entries.entries[it.position]?).elim .null fun (key, _) => key.value
  | none => .ofNat (it.count + 1)

namespace Run

/-- The state of the loop whose iterator is given. -/
def iteratorOf (v : Value) : Run (ObjectId × Iterator) := do
  match v with
  | .object id =>
    match (← heap).content? id with
    | some (.iterator it) => return (id, it)
    | _ => fail .iteratorExpected
  | _ => fail .iteratorExpected

/-- The value that a place gives to a loop, and what the place holds from now on. -/
def takeFrom (v : Value) (byRef : Bool) : Run (Value × Value) := do
  if !byRef then return ((← heap).resolve v, v)
  match v with
  | .cell _ => return (v, v)
  | _ =>
    let cell ← allocateCell v
    return (.cell cell, .cell cell)

/-- The value at the position of a loop over an object; null behind the last one. -/
def takeElement (source : ObjectId) (position : Nat) (byRef : Bool) : Run Value := do
  match (← heap).content? source with
  | some (.list items) =>
    match items[position]? with
    | some v =>
      let (taken, held) ← takeFrom v byRef
      setContent source (.list (items.setIfInBounds position held))
      return taken
    | none => return .null
  | some (.table entries) =>
    match entries.entries[position]? with
    | some (key, v) =>
      let (taken, held) ← takeFrom v byRef
      setContent source (.table ⟨entries.entries.setIfInBounds position (key, held)⟩)
      return taken
    | none => return .null
  | some (.set elements) => return (elements[position]?).elim .null Key.value
  | some (.array m) => return (m.at? position).elim .null .float
  | _ => return .null

/-- Takes the value at the position of a loop and moves on. -/
def nextValue (v : Value) : Run Value := do
  let (id, it) ← iteratorOf v
  let advance (source : Sequence) (position : Nat) : Run Unit :=
    setContent id (.iterator { it with source := source, position := position, count := it.count + 1 })
  match it.source with
  | .text [] =>
    advance it.source it.position
    return .null
  | .text (c :: rest) =>
    advance (.text rest) it.position
    return .text (String.ofList [c])
  | .object source =>
    advance it.source (it.position + 1)
    takeElement source it.position it.byRef

end Run

end Rill
