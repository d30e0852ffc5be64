-- SUMMARY: The collection of cycles that nothing outside refers to.
import Rill.Machine.Sharing

/-!
# Collection

Reclaiming what nothing refers to leaves cycles. The collector watches objects of some classes and all
cells. What is watched and has more references than the watched things hold themselves is held from
outside. A collection marks everything that can be reached from there and from the roots, and empties the
watched rest, which breaks its cycles.
-/

namespace Rill

-- ---------------------------------------------------------------------------
-- Watched things
-- ---------------------------------------------------------------------------

/-- The collector watches the object. -/
def Heap.isWatched (h : Heap) (o : Object) : Bool := h.classes.isCollectable o.cls

/-- The objects alive. -/
def Heap.living (h : Heap) : List (ObjectId × Object) :=
  h.objects.toList.zipIdx.filterMap fun (o, k) => o.map (⟨k⟩, ·)

/-- The cells alive. -/
def Heap.livingCells (h : Heap) : List (CellId × Value) :=
  h.cells.toList.zipIdx.filterMap fun (v, k) => v.map (⟨k⟩, ·)

/-- The watched objects alive. -/
def Heap.watchedObjects (h : Heap) : List (ObjectId × Object) := h.living.filter fun p => h.isWatched p.2

/-- Number of watched objects and cells alive. -/
def Heap.watched (h : Heap) : Nat := h.watchedObjects.length + h.livingCells.length

-- ---------------------------------------------------------------------------
-- Numbers of references
-- ---------------------------------------------------------------------------

/-- The closures that an object holds. -/
def Content.closures : Content → List Closure
  | .function f => f.closures
  | .list _ | .table _ | .set _ | .array _ | .cls _ | .iterator _ | .space _ | .regex _ | .file _ => []

/-- The values that an object holds itself, not through a closure. -/
def Heap.heldValues (h : Heap) : Content → List Value
  | .function _ => []
  | c => h.children c

/-- The captured cells of a closure. -/
def Closure.cells (c : Closure) : List Value := c.captured.toList.map .cell

/-- The closures whose serial numbers have not been seen, each once. -/
def unseenClosures (seen : Array Bool) : List Closure → List Closure
  | [] => []
  | c :: rest =>
    if seen.getD c.serial true then unseenClosures seen rest
    else c :: unseenClosures (seen.setIfInBounds c.serial true) rest

/-- The closures of a list, each once. -/
def distinctClosures (closures : List Closure) : List Closure :=
  unseenClosures (Array.replicate (closures.foldl (fun n c => max n (c.serial + 1)) 0) false) closures

/-- The references that objects hold, and those of some further closures. A closure holds its references
once, however many functions share it. -/
def Heap.referencesOf (h : Heap) (objects : List (ObjectId × Object)) (closures : List Closure) :
    List Value :=
  objects.flatMap (fun p => h.heldValues p.2.content) ++
    (distinctClosures (closures ++ objects.flatMap fun p => p.2.content.closures)).flatMap (·.cells)

/-- The closures that an activation runs. -/
def Activation.closures : Activation → List Closure
  | .script frame => [frame.closure]
  | _ => []

/-- The arguments that an activation keeps. -/
def Activation.arguments : Activation → List Value
  | .native call => call.args.toList
  | _ => []

/-- The values that operands, globals, native functions, the host and the classes refer to. -/
def Machine.directReferences (m : Machine) : List Value :=
  m.stack.toList ++ m.globals.values.toList ++ m.control.flatMap (·.arguments) ++ m.held ++
    m.heap.classes.toList.map fun c => .object c.object

/-- All references to objects and cells. -/
def Machine.references (m : Machine) : List Value :=
  m.directReferences ++ m.heap.livingCells.map (·.2) ++
    m.heap.referencesOf m.heap.living (m.control.flatMap (·.closures))

/-- The collector can look into the object. -/
def Machine.isOpen (m : Machine) (p : ObjectId × Object) : Bool := !m.borrowed.contains p.1

/-- The references that watched things hold, as far as the collector can see. -/
def Machine.insideReferences (m : Machine) : List Value :=
  m.heap.livingCells.map (·.2) ++ m.heap.referencesOf (m.heap.watchedObjects.filter m.isOpen) []

/-- How often each object and each cell is among some values. -/
def Heap.tallyOf (h : Heap) (values : List Value) : Tally :=
  values.foldl Tally.count ⟨Array.replicate h.objects.size 0, Array.replicate h.cells.size 0⟩

/-- The watched things that have more references than watched things hold. -/
def Machine.heldOutside (m : Machine) : List Value :=
  let all := m.heap.tallyOf m.references
  let inside := m.heap.tallyOf m.insideReferences
  let objects := m.heap.watchedObjects.filter fun (id, _) =>
    all.objects.getD id.index 0 > inside.objects.getD id.index 0
  let cells := m.heap.livingCells.filter fun (id, _) =>
    all.cells.getD id.index 0 > inside.cells.getD id.index 0
  objects.map (.object ·.1) ++ cells.map (.cell ·.1)

-- ---------------------------------------------------------------------------
-- Marking
-- ---------------------------------------------------------------------------

namespace Marks

/-- The value refers to nothing that is still to be marked. -/
def has (marks : Marks) (mark : Nat) : Value → Bool
  | .object id => marks.objects.getD id.index mark = mark
  | .cell id => marks.cells.getD id.index mark = mark
  | _ => true

def add (marks : Marks) (mark : Nat) : Value → Marks
  | .object id => { marks with objects := marks.objects.setIfInBounds id.index mark }
  | .cell id => { marks with cells := marks.cells.setIfInBounds id.index mark }
  | _ => marks

/-- Number of entries that are still to be marked. -/
def unmarked (marks : Marks) (mark : Nat) : Nat :=
  marks.objects.countP (· ≠ mark) + marks.cells.countP (· ≠ mark)

theorem countP_setIfInBounds_lt {xs : Array Nat} {k mark : Nat} (h : ¬xs.getD k mark = mark) :
    (xs.setIfInBounds k mark).countP (· ≠ mark) < xs.countP (· ≠ mark) := by
  have hk : k < xs.size := by
    apply Decidable.byContradiction
    intro hge
    simp [Array.getD, hge] at h
  have hx : xs[k] ≠ mark := by simpa [Array.getD, hk] using h
  have hpos : 0 < xs.countP (· ≠ mark) :=
    Array.countP_pos_iff.mpr ⟨xs[k], Array.getElem_mem hk, by simpa using hx⟩
  have hset : (xs.set k mark hk).countP (· ≠ mark) = xs.countP (· ≠ mark) - 1 := by
    rw [Array.countP_set]
    simp [hx]
  rw [Array.setIfInBounds, dif_pos hk, hset]
  omega

theorem unmarked_add_lt {marks : Marks} {mark : Nat} {v : Value} (h : ¬marks.has mark v = true) :
    (marks.add mark v).unmarked mark < marks.unmarked mark := by
  cases v with
  | object id =>
    have := countP_setIfInBounds_lt (by simpa [has] using h : ¬marks.objects.getD id.index mark = mark)
    simp only [unmarked, add]
    omega
  | cell id =>
    have := countP_setIfInBounds_lt (by simpa [has] using h : ¬marks.cells.getD id.index mark = mark)
    simp only [unmarked, add]
    omega
  | _ => simp [has] at h

/-- Marks what can be reached from a list of values. -/
def reach (next : Value → List Value) (mark : Nat) (work : List Value) (marks : Marks) : Marks :=
  match work with
  | [] => marks
  | v :: work =>
    if marks.has mark v then reach next mark work marks
    else reach next mark (next v ++ work) (marks.add mark v)
termination_by (marks.unmarked mark, work.length)
decreasing_by
  · exact .right _ (by simp)
  · exact .left _ _ (unmarked_add_lt ‹_›)

/-- The marks of everything on a heap. -/
def fit (marks : Marks) (h : Heap) : Marks :=
  ⟨(Array.range h.objects.size).map fun k => marks.objects.getD k 0,
    (Array.range h.cells.size).map fun k => marks.cells.getD k 0⟩

end Marks

/-- What an object or a cell refers to. -/
def Heap.links (h : Heap) : Value → List Value
  | .object id => (h.object? id).elim [] fun o => h.children o.content
  | .cell id => (h.cell? id).toList
  | _ => []

/-- What an object or a cell refers to, as far as the collector can see. -/
def Machine.successors (m : Machine) : Value → List Value
  | .object id => if m.borrowed.contains id then [] else m.heap.links (.object id)
  | v => m.heap.links v

/-- Where marking begins. -/
def Machine.starts (m : Machine) : List Value :=
  m.heldOutside ++ m.globals.values.toList ++ m.stack.toList ++
    (m.control.flatMap (·.closures)).flatMap (·.cells) ++
    m.heap.classes.toList.map fun c => .object c.object

-- ---------------------------------------------------------------------------
-- Collection
-- ---------------------------------------------------------------------------

/-- Watched objects and cells that were not reached are counted in `freed`, all that are watched in
`tracked`. -/
structure CollectionStats where
  tracked : Nat
  freed : Nat
  deriving Repr, DecidableEq

namespace Machine

/-- The mark of the next collection. -/
def nextMark (m : Machine) : Nat := if m.collector.mark = 1 then 2 else 1

/-- The marks that the next collection leaves. -/
def nextMarks (m : Machine) : Marks :=
  Marks.reach m.successors m.nextMark m.starts (m.collector.marks.fit m.heap)

/-- The object is watched and was not reached. -/
def isGarbage (m : Machine) (marks : Marks) (id : ObjectId) (o : Object) : Bool :=
  m.heap.isWatched o && !marks.has m.nextMark (.object id)

/-- The heap with everything emptied that was not reached. -/
def emptied (m : Machine) (marks : Marks) : Heap :=
  { m.heap with
    objects := m.heap.objects.mapIdx fun k o => o.map fun o =>
      if m.isGarbage marks ⟨k⟩ o && m.isOpen (⟨k⟩, o) then
        { o with content := o.content.emptied?.getD o.content }
      else o
    cells := m.heap.cells.mapIdx fun k v => if marks.has m.nextMark (.cell ⟨k⟩) then v else v.map fun _ => .null }

/-- What a collection that left these marks did. -/
def collectionStats (m : Machine) (marks : Marks) : CollectionStats where
  tracked := m.heap.watched
  freed := m.heap.living.countP (fun (id, o) => m.isGarbage marks id o) +
    m.heap.livingCells.countP fun (id, _) => !marks.has m.nextMark (.cell id)

/-- The machine with everything emptied that can not be reached. -/
def swept (m : Machine) : Machine :=
  let marks := m.nextMarks
  { m with heap := m.emptied marks, collector := ⟨m.nextMark, marks⟩, registrations := 0 }

end Machine

namespace Run

/-- Runs a collection. -/
def collect : Run CollectionStats := do
  reclaim
  let m ← get
  set m.swept
  reclaim
  return m.collectionStats m.nextMarks

/-- Runs a collection and prints what it did. -/
def collectAndReport : Run Unit := do
  let stats ← collect
  write ("garbage collected: " ++ toString stats.freed ++ "/" ++ toString stats.tracked ++ " objects\n")

/-- Runs a collection if enough has been registered since the last one. -/
def collectIfDue : Run Unit := do
  let m ← get
  if m.config.gcThreshold > 0 ∧ m.registrations ≥ m.config.gcThreshold then
    let _ ← collect

/-- Number of watched objects and cells alive. -/
def tracked : Run Nat := do
  reclaim
  return (← heap).watched

end Run

end Rill
