-- SUMMARY: Computations that make no cells and find none beyond a bound.
import Rill.Proofs.Cells.Bounds
import Rill.Proofs.Safety.Objects

/-!
# Still computations

A computation is *still* at a number if it keeps a machine below that number, makes no cells, and has a
result below the number. What it is given has to be below the number for that.
-/

namespace Rill

open Bounded (below)

/-- Started in a machine below the number, the computation ends in one with as many cells. So is its
result. -/
def Still {α : Type} [Bounded α] (n : Nat) (x : Run α) : Prop :=
  ∀ m : Machine, m.Below n → match x m with
    | .ok a m' => m'.Below n ∧ m'.heap.cells.size = m.heap.cells.size ∧ below n a
    | .error _ m' => m'.Below n ∧ m'.heap.cells.size = m.heap.cells.size

namespace Still

variable {α β : Type} [Bounded α] [Bounded β] {n : Nat}

-- ---------------------------------------------------------------------------
-- Composition
-- ---------------------------------------------------------------------------

@[grind .]
theorem pure {a : α} (ha : below n a) : Still n (Pure.pure a : Run α) := fun _ hm => ⟨hm, rfl, ha⟩

@[grind .]
theorem bind {x : Run α} {f : α → Run β} (hx : Still n x) (hf : ∀ a, below n a → Still n (f a)) :
    Still n (x >>= f) := by
  intro m hm
  have hxm := hx m hm
  change match EStateM.bind x f m with
    | .ok b m' => m'.Below n ∧ m'.heap.cells.size = m.heap.cells.size ∧ below n b
    | .error _ m' => m'.Below n ∧ m'.heap.cells.size = m.heap.cells.size
  cases h : x m with
  | error e m' =>
    simp only [h] at hxm
    simpa only [EStateM.bind, h] using hxm
  | ok a m' =>
    simp only [h] at hxm
    obtain ⟨hm', hsize, ha⟩ := hxm
    have hfm := hf a ha m' hm'
    simp only [EStateM.bind, h]
    cases h' : f a m' with
    | ok b m'' =>
      simp only [h'] at hfm
      exact ⟨hfm.1, hfm.2.1.trans hsize, hfm.2.2⟩
    | error e m'' =>
      simp only [h'] at hfm
      exact ⟨hfm.1, hfm.2.trans hsize⟩

@[grind .]
theorem map {x : Run α} {f : α → β} (hx : Still n x) (hf : ∀ a, below n a → below n (f a)) :
    Still n (f <$> x) := by
  rw [map_eq_pure_bind]
  exact hx.bind fun a ha => pure (hf a ha)

@[grind .]
theorem throw (e : Failure) : Still n (MonadExcept.throw e : Run α) := fun _ hm => ⟨hm, rfl⟩

@[grind .]
theorem fail (fault : Fault) : Still n (Run.fail fault : Run α) := throw fault.failure

/-- A computation without effects. -/
@[grind .]
theorem lift {x : Except Failure α} (hx : below n x) : Still n (monadLift x : Run α) := by
  cases x with
  | ok a => exact pure (hx a rfl)
  | error e => exact throw e

@[grind .]
theorem get : Still n (MonadState.get : Run Machine) := fun _ hm => ⟨hm, rfl, hm⟩

@[grind .]
theorem heap : Still n Run.heap := get.bind fun _ hm => pure hm.heap

@[grind .]
theorem config : Still n Run.config := get.bind fun _ _ => pure trivial

theorem change {f : Machine → Machine}
    (hf : ∀ m : Machine, m.Below n → (f m).Below n ∧ (f m).heap.cells.size = m.heap.cells.size) :
    Still n (modify f : Run PUnit) :=
  fun m hm => ⟨(hf m hm).1, (hf m hm).2, trivial⟩

/-- What changes holds no references. -/
theorem adjust {f : Machine → Machine} (hheap : ∀ m, (f m).heap = m.heap) (hstack : ∀ m, (f m).stack = m.stack)
    (hglobals : ∀ m, (f m).globals = m.globals) (hcontrol : ∀ m, (f m).control = m.control)
    (hheld : ∀ m, (f m).held = m.held) : Still n (modify f : Run PUnit) := by
  refine change fun m hm => ⟨⟨?_, ?_, ?_, ?_, ?_⟩, by rw [hheap]⟩
  · rw [hheap]
    exact hm.heap
  · rw [hstack]
    exact hm.stack
  · rw [hglobals]
    exact hm.globals
  · rw [hcontrol]
    exact hm.control
  · rw [hheld]
    exact hm.held

theorem changeHeap {f : Heap → Heap}
    (hf : ∀ h : Heap, h.Below n → (f h).Below n ∧ (f h).cells.size = h.cells.size) :
    Still n (Run.modifyHeap f) :=
  change fun m hm => ⟨⟨(hf m.heap hm.heap).1, hm.stack, hm.globals, hm.control, hm.held⟩, (hf m.heap hm.heap).2⟩

-- ---------------------------------------------------------------------------
-- Loops
-- ---------------------------------------------------------------------------

section Loops

variable {γ : Type} {as : List γ}

theorem foldlM {f : β → γ → Run β} (hf : ∀ b a, below n b → Still n (f b a)) {b : β} (hb : below n b) :
    Still n (as.foldlM f b) := by
  induction as generalizing b with
  | nil => exact pure hb
  | cons a rest ih =>
    rw [List.foldlM_cons]
    exact (hf b a hb).bind fun _ hb => ih hb

/-- A loop that carries nothing along. -/
theorem forIn {f : γ → PUnit → Run (ForInStep PUnit)} (hf : ∀ a b, Still n (f a b)) (b : PUnit) :
    Still n (ForIn.forIn as b f) := by
  induction as with
  | nil => exact pure trivial
  | cons a rest ih =>
    rw [List.forIn_cons]
    refine (hf a b).bind fun step _ => ?_
    cases step with
    | done b => exact pure trivial
    | yield b => exact ih

end Loops

-- ---------------------------------------------------------------------------
-- The heap
-- ---------------------------------------------------------------------------

@[grind .]
theorem allocate (cls : ClassId) {c : Content} (hc : below n c) : Still n (Run.allocate cls c) :=
  fun _ hm => ⟨⟨hm.heap.allocate cls hc, hm.stack, hm.globals, hm.control, hm.held⟩, rfl, trivial⟩

@[grind .]
theorem newObject (cls : ClassId) {c : Content} (hc : below n c) : Still n (Run.newObject cls c) :=
  (allocate cls hc).bind fun _ _ => pure trivial

@[grind .]
theorem newList {items : Array Value} (h : below n items) : Still n (Run.newList items) := newObject _ h

@[grind .]
theorem newTable {entries : Table} (h : below n entries) : Still n (Run.newTable entries) := newObject _ h

@[grind .]
theorem newSet (elements : KeySet) : Still n (Run.newSet elements) := newObject _ trivial

@[grind .]
theorem newArray (matrix : Matrix) : Still n (Run.newArray matrix) := newObject _ trivial

@[grind .]
theorem newFunction {f : Function} (h : below n f.closures) : Still n (Run.newFunction f) := newObject _ h

@[grind .]
theorem setContent (id : ObjectId) {c : Content} (hc : below n c) : Still n (Run.setContent id c) :=
  changeHeap fun _ hh => ⟨hh.setContent id hc, rfl⟩

@[grind .]
theorem setCell (id : CellId) {v : Value} (hv : below n v) : Still n (Run.setCell id v) :=
  changeHeap fun _ hh => ⟨hh.setCell id hv, by simp [Heap.setCell]⟩

@[grind .]
theorem setGlobal (name : String) {v : Value} (hv : below n v) : Still n (Run.setGlobal name v) :=
  change fun _ hm => ⟨⟨hm.heap, hm.stack, Bounded.below_insert hm.globals name hv, hm.control, hm.held⟩, rfl⟩

@[grind .]
theorem write (text : String) : Still n (Run.write text) :=
  adjust (fun _ => rfl) (fun _ => rfl) (fun _ => rfl) (fun _ => rfl) fun _ => rfl

-- ---------------------------------------------------------------------------
-- Reclamation and collection
-- ---------------------------------------------------------------------------

@[grind .]
theorem reclaim (extra : List Value) : Still n (Run.reclaim extra) :=
  change fun m hm => ⟨(m.reclaim_shrinks extra).below hm, (m.reclaim_shrinks extra).cells_size⟩

@[grind .]
theorem collect : Still n Run.collect := by
  refine (reclaim []).bind fun _ _ => fun m hm => ?_
  have hshrinks := m.swept.reclaim_shrinks []
  exact ⟨hshrinks.below hm.swept, hshrinks.cells_size.trans m.cells_size_swept, trivial⟩

@[grind .]
theorem collectIfDue : Still n Run.collectIfDue := by grind [Run.collectIfDue]

@[grind .]
theorem collectAndReport : Still n Run.collectAndReport := by grind [Run.collectAndReport]

-- ---------------------------------------------------------------------------
-- Sharing and functions
-- ---------------------------------------------------------------------------

/-- A copy of a container holds what the container holds, with values in the places of cells. -/
theorem below_copyContent {h : Heap} (hh : h.Below n) {c : Content} (hc : below n c) :
    below n (Run.copyContent h.resolve c) := by
  cases c with
  | list items =>
    intro v hv
    obtain ⟨w, hw, rfl⟩ := Array.mem_map.mp hv
    exact hh.resolve (hc w hw)
  | table entries =>
    have hentries : below n entries := hc
    exact Bounded.below_mapValues _ (fun _ hv => hh.resolve hv) hentries
  | _ => exact hc

@[grind .]
theorem unshare {v : Value} (hv : below n v) (extra : List Value) : Still n (Run.unshare v extra) := by
  cases v with
  | object id =>
    refine (reclaim extra).bind fun _ _ => get.bind fun m hm => ?_
    split
    · next o ho =>
      split
      · exact newObject _ (below_copyContent hm.heap (hm.heap.object? ho))
      · exact pure trivial
    · exact pure trivial
  | _ => exact pure hv

@[grind .]
theorem unshareSlot {v : Value} (hv : below n v) (extra : List Value) :
    Still n (Run.unshareSlot v extra) := by
  cases v with
  | cell id =>
    exact heap.bind fun h hh => (unshare (hh.cellValue id) extra).bind fun own hown =>
      (setCell id hown).bind fun _ _ => pure ⟨hv, hown⟩
  | _ => exact (unshare hv extra).bind fun own hown => pure ⟨hown, hown⟩

/-- Overloads hold what the functions hold that they are made of. -/
theorem below_addAll {f g : Function} {cs : List Closure} (hg : f.addAll cs = .ok g)
    (hf : below n f.closures) (hcs : below n cs) : below n g.closures := by
  intro d hd
  rcases Function.mem_closures_addAll hg hd with hold | hnew
  · exact hf d hold
  · exact hcs d hnew

@[grind .]
theorem merge (existing : Value) (function : ObjectId) : Still n (Run.merge existing function) := by
  refine heap.bind fun h hh => ?_
  split
  · next old new hold hnew =>
    split
    · exact pure trivial
    · have hadded : below n (old.addAll new.closures) := fun g hg =>
        below_addAll hg (hh.contentOf hold) (hh.content? hnew)
      exact (lift hadded).bind fun f hf => (allocate _ hf).bind fun _ _ => pure trivial
  · exact pure trivial

-- ---------------------------------------------------------------------------
-- Loading
-- ---------------------------------------------------------------------------

@[grind .]
theorem loadText (file source : String) : Still n (Run.loadText file source) := by
  refine config.bind fun config _ => (lift fun _ _ => trivial).bind fun routine _ => get.bind fun m _ => ?_
  refine bind (adjust (fun _ => rfl) (fun _ => rfl) (fun _ => rfl) (fun _ => rfl) fun _ => rfl) fun _ _ => ?_
  refine newFunction fun c hc => ?_
  obtain rfl := List.mem_singleton.mp hc
  exact ⟨fun _ hcell => absurd hcell (Array.not_mem_empty _), trivial⟩

@[grind .]
theorem withFiles {f : Files.Tree → Except Failure (α × Files.Tree)} (hf : ∀ t, below n (f t)) :
    Still n (Run.withFiles f) :=
  (reclaim []).bind fun _ _ => get.bind fun m _ => (lift (hf m.files)).bind fun _ hr =>
    bind (adjust (fun _ => rfl) (fun _ => rfl) (fun _ => rfl) (fun _ => rfl) fun _ => rfl) fun _ _ => pure hr.1

@[grind .]
theorem readFile (path : String) : Still n (Run.readFile path) :=
  withFiles fun _ _ _ => ⟨trivial, trivial⟩

@[grind .]
theorem loadFile (path : String) : Still n (Run.loadFile path) := by grind [Run.loadFile]

end Still

end Rill
