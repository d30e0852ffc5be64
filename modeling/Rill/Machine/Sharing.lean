-- SUMMARY: References to objects and cells, reclamation of what has none, and copies of shared containers.
import Rill.Machine.State

/-!
# Sharing

Who refers to what: globals, operands, active calls and the host refer to values, objects and cells refer
to those they hold. What nothing refers to is reclaimed; a cycle keeps itself alive. A container that is
about to be changed in one variable is copied first if anything else refers to it.
-/

namespace Rill

-- ---------------------------------------------------------------------------
-- References
-- ---------------------------------------------------------------------------

/-- The values that what an object holds refers to. -/
def Heap.children (h : Heap) : Content → List Value
  | .list items => items.toList
  | .table entries => entries.values.toList
  | .function f => f.closures.flatMap fun c => c.captured.toList.map .cell
  | .cls c =>
    match h.classes.get? c with
    | some info => info.members.values.toList ++ info.initializer.toList.map .object
    | none => []
  | .space s => s.members.values.toList
  | .iterator it =>
    match it.source with
    | .object id => [.object id]
    | .text _ => []
  | .set _ | .array _ | .regex _ | .file _ => []

/-- The values that an activation refers to, apart from those on the operand stack. -/
def Activation.references : Activation → List Value
  | .script frame => frame.closure.captured.toList.map .cell
  | .native call => call.args.toList
  | .entering .. => []

/-- The values referred to from outside the heap. -/
def Machine.roots (m : Machine) : List Value :=
  m.stack.toList ++ m.globals.values.toList ++ m.control.flatMap (·.references) ++ m.held ++
    m.heap.classes.toList.map fun c => .object c.object

/-- How often each object and each cell is referred to. -/
structure Tally where
  objects : Array Nat
  cells : Array Nat

def Tally.count (t : Tally) : Value → Tally
  | .object id => { t with objects := t.objects.modify id.index (· + 1) }
  | .cell id => { t with cells := t.cells.modify id.index (· + 1) }
  | _ => t

/-- The references from the roots, from `extra` values, and from everything on the heap. -/
def Machine.tally (m : Machine) (extra : List Value) : Tally :=
  let zero : Tally := ⟨Array.replicate m.heap.objects.size 0, Array.replicate m.heap.cells.size 0⟩
  let outside := (m.roots ++ extra).foldl Tally.count zero
  let inObjects := m.heap.objects.foldl (fun t o =>
    match o with
    | some o => (m.heap.children o.content).foldl Tally.count t
    | none => t) outside
  m.heap.cells.foldl (fun t v => (v.toList.foldl Tally.count t)) inObjects

-- ---------------------------------------------------------------------------
-- Reclamation
-- ---------------------------------------------------------------------------

/-- What an open file has collected is written out when the file is reclaimed. -/
def Object.release (o : Object) (files : Files.Tree) : Files.Tree :=
  match o.content with
  | .file f => (f.flush files).2
  | _ => files

/-- Reclaims what nothing refers to. References from `extra` values count too. -/
def Machine.reclaimOnce (m : Machine) (extra : List Value) : Machine :=
  let t := m.tally extra
  let dead (k : Nat) : Bool := t.objects.getD k 0 = 0
  let files := (m.heap.objects.toList.zipIdx).foldl (fun files (o, k) =>
    if dead k then o.elim files (·.release files) else files) m.files
  let objects := m.heap.objects.mapIdx fun k o => if dead k then none else o
  let cells := m.heap.cells.mapIdx fun k v => if t.cells.getD k 0 = 0 then none else v
  { m with heap := { m.heap with objects := objects, cells := cells }, files := files }

/-- The files that a machine leaves: what its open files have collected is written out. -/
def Machine.finalFiles (m : Machine) : Files.Tree :=
  m.heap.objects.foldl (fun files o => o.elim files (·.release files)) m.files

/-- Number of objects and cells alive. -/
def Heap.population (h : Heap) : Nat := h.objects.countP (·.isSome) + h.cells.countP (·.isSome)

/-- Reclaims until everything left is referred to. -/
def Machine.reclaimWithin (m : Machine) (extra : List Value) : Nat → Machine
  | 0 => m
  | fuel + 1 =>
    let after := m.reclaimOnce extra
    if after.heap.population = m.heap.population then m else after.reclaimWithin extra fuel

/-- Reclaims everything that is not referred to, directly or through other things so reclaimed. -/
def Machine.reclaim (m : Machine) (extra : List Value := []) : Machine :=
  m.reclaimWithin extra m.heap.population

namespace Run

/-- Reclaims what is no longer referred to. -/
def reclaim (extra : List Value := []) : Run Unit := modify (·.reclaim extra)

-- ---------------------------------------------------------------------------
-- Private copies
-- ---------------------------------------------------------------------------

/-- A copy of a container that shares no cell with it. -/
def copyContent (resolve : Value → Value) : Content → Content
  | .list items => .list (items.map resolve)
  | .table entries => .table (entries.map resolve)
  | c => c

/-- A value that may be changed in place: a container that is referred to more than once is copied. -/
def unshare (v : Value) (extra : List Value := []) : Run Value := do
  match v with
  | .object id =>
    reclaim extra
    let m ← get
    match m.heap.object? id with
    | some o =>
      if o.content.isContainer && (m.tally extra).objects.getD id.index 0 > 1 then
        newObject o.cls (copyContent m.heap.resolve o.content)
      else return v
    | none => return v
  | _ => return v

/-- What a variable holds, made ready to be changed in place. The first result is what the variable holds
from now on. -/
def unshareSlot (v : Value) (extra : List Value := []) : Run (Value × Value) := do
  match v with
  | .cell id =>
    let own ← unshare ((← heap).cellValue id) extra
    setCell id own
    return (.cell id, own)
  | v =>
    let own ← unshare v extra
    return (own, own)

end Run

end Rill
