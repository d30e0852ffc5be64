-- SUMMARY: Computations that leave operand stack and activations alone, and the primitive ones among them.
import Rill.Proofs.Collection.Exact
import Rill.Proofs.Depth.Stretch
import Rill.Proofs.Safety.Computations

/-!
# Tame computations

What a script does to its values happens on the heap, among the globals and outside. Such a computation
*spares* the machine: operand stack, activations and recorded flags stay as they are, iterators on the
stack stay iterators, and all closures on the heap stay sound. A computation that spares every machine,
and fails with no defect of the code, is *tame*.
-/

namespace Rill

-- ---------------------------------------------------------------------------
-- Sound heaps
-- ---------------------------------------------------------------------------

/-- The closure of a script function has sound code, all variables that the code captures, and room for
its arguments among its slots. -/
def Closure.IsSound (c : Closure) : Prop :=
  match c.callable with
  | .script routine _ =>
    Sound routine ∧ c.captured.size = routine.captures.size ∧ c.arity ≤ routine.frameSize
  | .native .. => True

/-- All closures in what an object holds are sound. -/
def Content.IsSound (c : Content) : Prop := ∀ closure ∈ c.closures, closure.IsSound

namespace Heap

/-- All closures on the heap are sound. -/
def IsSound (h : Heap) : Prop := ∀ id c, h.content? id = some c → c.IsSound

/-- The object is the state of a loop. -/
def IsIterator (h : Heap) (id : ObjectId) : Prop := ∃ it, h.content? id = some (.iterator it)

theorem isSound_of_objects {h h' : Heap} (hobjects : h'.objects = h.objects) (hs : h.IsSound) :
    h'.IsSound := by
  intro id c hc
  exact hs id c (by rwa [content?, object?, ← hobjects])

theorem isIterator_of_objects {h h' : Heap} (hobjects : h'.objects = h.objects) {id : ObjectId}
    (hi : h.IsIterator id) : h'.IsIterator id := by
  obtain ⟨it, hit⟩ := hi
  exact ⟨it, by rwa [content?, object?, hobjects]⟩

end Heap

-- ---------------------------------------------------------------------------
-- Spared machines
-- ---------------------------------------------------------------------------

/-- The second machine has the operand stack and the activations of the first one. Iterators on the stack
are still iterators. -/
structure Machine.Spares (m m' : Machine) : Prop where
  config : m'.config = m.config
  stack : m'.stack = m.stack
  control : m'.control = m.control
  precall : m'.precall = m.precall
  iterators : ∀ id, .object id ∈ m.stack → m.heap.IsIterator id → m'.heap.IsIterator id
  sound : m.heap.IsSound → m'.heap.IsSound

namespace Machine.Spares

theorem refl (m : Machine) : m.Spares m := ⟨rfl, rfl, rfl, rfl, fun _ _ => id, id⟩

theorem trans {m₁ m₂ m₃ : Machine} (h : m₁.Spares m₂) (h' : m₂.Spares m₃) : m₁.Spares m₃ where
  config := h'.config.trans h.config
  stack := h'.stack.trans h.stack
  control := h'.control.trans h.control
  precall := h'.precall.trans h.precall
  iterators id hid hi := h'.iterators id (h.stack ▸ hid) (h.iterators id hid hi)
  sound hs := h'.sound (h.sound hs)

/-- Nothing that matters has changed. -/
theorem of_objects {m m' : Machine} (hconfig : m'.config = m.config) (hstack : m'.stack = m.stack)
    (hcontrol : m'.control = m.control) (hprecall : m'.precall = m.precall)
    (hobjects : m'.heap.objects = m.heap.objects) : m.Spares m' :=
  ⟨hconfig, hstack, hcontrol, hprecall, fun _ _ => Heap.isIterator_of_objects hobjects,
    Heap.isSound_of_objects hobjects⟩

/-- Only the heap has changed. -/
theorem of_heap {m : Machine} {h : Heap} (hiterators : ∀ id, m.heap.IsIterator id → h.IsIterator id)
    (hsound : m.heap.IsSound → h.IsSound) : m.Spares { m with heap := h } :=
  ⟨rfl, rfl, rfl, rfl, fun id _ => hiterators id, hsound⟩

end Machine.Spares

/-- The computation spares every machine with a sound heap, and fails with no defect of the code. -/
def Tame (x : Run α) : Prop :=
  ∀ m, m.heap.IsSound → match x m with
    | .ok _ m' => m.Spares m'
    | .error e m' => m.Spares m' ∧ e.fault.isDefect = false

namespace Tame

@[grind .]
theorem pure (a : α) : Tame (Pure.pure a) := fun m _ => .refl m

@[grind .]
theorem bind {x : Run α} {f : α → Run β} (hx : Tame x) (hf : ∀ a, Tame (f a)) : Tame (x >>= f) := by
  intro m hm
  have hxm := hx m hm
  change match EStateM.bind x f m with
    | .ok _ m' => m.Spares m'
    | .error e m' => m.Spares m' ∧ e.fault.isDefect = false
  cases h : x m with
  | error e m' =>
    simp only [h] at hxm
    simpa only [EStateM.bind, h] using hxm
  | ok a m' =>
    simp only [h] at hxm
    have hfm := hf a m' (hxm.sound hm)
    simp only [EStateM.bind, h]
    cases h' : f a m' with
    | ok b m'' =>
      simp only [h'] at hfm
      exact hxm.trans hfm
    | error e m'' =>
      simp only [h'] at hfm
      exact ⟨hxm.trans hfm.1, hfm.2⟩

@[grind .]
theorem map {x : Run α} {f : α → β} (hx : Tame x) : Tame (f <$> x) := by
  rw [map_eq_pure_bind]
  exact hx.bind fun _ => pure _

@[grind .]
theorem throw {e : Failure} (h : e.fault.isDefect = false) : Tame (MonadExcept.throw e : Run α) :=
  fun m _ => ⟨.refl m, h⟩

@[grind .]
theorem fail {fault : Fault} (h : fault.isDefect = false) : Tame (Run.fail fault : Run α) := throw h

@[grind .]
theorem foldlM {f : β → α → Run β} (hf : ∀ b a, Tame (f b a)) (as : List α) (b : β) :
    Tame (as.foldlM f b) := by
  induction as generalizing b with
  | nil => exact pure b
  | cons a rest ih =>
    rw [List.foldlM_cons]
    exact (hf b a).bind ih

@[grind .]
theorem filterM {f : α → Run Bool} (hf : ∀ a, Tame (f a)) (as : Array α) : Tame (as.filterM f) := by
  unfold Array.filterM
  rw [← Array.foldlM_toList]
  refine foldlM (fun b a => (hf a).bind fun keep => ?_) _ _
  split <;> exact pure _

@[grind .]
theorem forM {f : α → Run PUnit} (hf : ∀ a, Tame (f a)) (as : List α) : Tame (as.forM f) := by
  induction as with
  | nil => exact pure _
  | cons a rest ih => exact (hf a).bind fun _ => ih

@[grind .]
theorem forIn {f : α → β → Run (ForInStep β)} (hf : ∀ a b, Tame (f a b)) (as : List α) (b : β) :
    Tame (ForIn.forIn as b f) := by
  induction as generalizing b with
  | nil => exact pure b
  | cons a rest ih =>
    rw [List.forIn_cons]
    refine (hf a b).bind fun step => ?_
    cases step with
    | done b => exact pure b
    | yield b => exact ih b

/-- A computation without effects. -/
@[grind .]
theorem lift {x : Except Failure α} (hx : Harmless x) : Tame (monadLift x : Run α) := by
  cases x with
  | ok a => exact pure a
  | error e => exact throw (hx e rfl)

theorem lift_bind {x : Except Failure α} {f : α → Run β} (hx : Harmless x)
    (hf : ∀ a, x = .ok a → Tame (f a)) : Tame ((monadLift x : Run α) >>= f) := by
  cases x with
  | ok a => exact hf a rfl
  | error e => exact throw (hx e rfl)

@[grind .]
theorem get : Tame (MonadState.get : Run Machine) := fun m _ => .refl m

theorem heap_bind {f : Heap → Run α} (hf : ∀ h, h.IsSound → Tame (f h)) : Tame (Run.heap >>= f) :=
  fun m hm => hf m.heap hm m hm

@[grind .]
theorem heap : Tame Run.heap := get.bind fun _ => pure _

@[grind .]
theorem config : Tame Run.config := get.bind fun _ => pure _

theorem change {f : Machine → Machine} (hf : ∀ m : Machine, m.heap.IsSound → m.Spares (f m)) :
    Tame (modify f : Run PUnit) :=
  fun m hm => hf m hm

end Tame

-- ---------------------------------------------------------------------------
-- The heap
-- ---------------------------------------------------------------------------

namespace Heap

theorem content?_setContent (h : Heap) (id other : ObjectId) (c : Content) :
    (h.setContent id c).content? other =
      if id = other then (h.content? other).map fun old => if old.sameKind c then c else old
      else h.content? other := by
  obtain ⟨i⟩ := id
  obtain ⟨j⟩ := other
  simp only [setContent, modifyContent, content?, object?, Array.getElem?_modify, ObjectId.mk.injEq]
  split
  · cases h.objects[j]? with
    | none => rfl
    | some o => cases o <;> rfl
  · rfl

theorem content?_allocate (h : Heap) (cls : ClassId) (c : Content) (id : ObjectId) :
    (h.allocate cls c).2.content? id = if id.index = h.objects.size then some c else h.content? id := by
  simp only [allocate, content?, object?, Array.getElem?_push]
  split <;> rfl

/-- An iterator can only be given the state of another one. -/
theorem IsIterator.setContent {h : Heap} {id : ObjectId} (hi : h.IsIterator id) (other : ObjectId)
    (c : Content) : (h.setContent other c).IsIterator id := by
  obtain ⟨it, hit⟩ := hi
  simp only [IsIterator, content?_setContent, hit]
  split
  · cases c <;> simp [Content.sameKind]
  · exact ⟨it, rfl⟩

theorem IsIterator.allocate {h : Heap} {id : ObjectId} (hi : h.IsIterator id) (cls : ClassId)
    (c : Content) : (h.allocate cls c).2.IsIterator id := by
  obtain ⟨it, hit⟩ := hi
  refine ⟨it, ?_⟩
  rw [content?_allocate, if_neg, hit]
  intro hlast
  have hnone : h.objects[id.index]? = none := by
    rw [hlast]
    exact Array.getElem?_size
  simp [content?, object?, hnone] at hit

theorem IsSound.setContent {h : Heap} (hs : h.IsSound) (id : ObjectId) {c : Content} (hc : c.IsSound) :
    (h.setContent id c).IsSound := by
  intro other d hd
  rw [content?_setContent] at hd
  split at hd
  · obtain ⟨old, hold, rfl⟩ := Option.map_eq_some_iff.mp hd
    split
    · exact hc
    · exact hs other old hold
  · exact hs other d hd

theorem IsSound.allocate {h : Heap} (hs : h.IsSound) (cls : ClassId) {c : Content} (hc : c.IsSound) :
    (h.allocate cls c).2.IsSound := by
  intro id d hd
  rw [content?_allocate] at hd
  split at hd
  · cases hd
    exact hc
  · exact hs id d hd

/-- A function on a sound heap has sound closures. -/
theorem IsSound.function {h : Heap} (hs : h.IsSound) {v : Value} {f : Function}
    (hf : h.contentOf v = some (.function f)) : ∀ c ∈ f.closures, c.IsSound := by
  unfold contentOf at hf
  split at hf
  · exact hs _ _ hf
  · cases hf

end Heap

/-- Contents without closures are sound. -/
theorem Content.isSound_of_closures {c : Content} (h : c.closures = []) : c.IsSound := by
  intro closure hmem
  simp [h] at hmem

attribute [grind =] Content.closures

namespace Tame

theorem allocate {cls : ClassId} {c : Content} (hc : c.IsSound) : Tame (Run.allocate cls c) :=
  fun _ _ => ⟨rfl, rfl, rfl, rfl, fun _ _ hi => hi.allocate cls c, fun hs => hs.allocate cls hc⟩

@[grind .]
theorem allocateCell (v : Value) : Tame (Run.allocateCell v) := fun _ _ => .of_objects rfl rfl rfl rfl rfl

theorem newObject {cls : ClassId} {c : Content} (hc : c.IsSound) : Tame (Run.newObject cls c) :=
  (allocate hc).bind fun _ => pure _

/-- Objects that hold no closures. -/
@[grind .]
theorem newObject_plain {cls : ClassId} {c : Content} (hc : c.closures = []) :
    Tame (Run.newObject cls c) :=
  newObject (Content.isSound_of_closures hc)

@[grind .]
theorem newList (items : Array Value) : Tame (Run.newList items) := newObject_plain rfl

@[grind .]
theorem newTable (entries : Table) : Tame (Run.newTable entries) := newObject_plain rfl

@[grind .]
theorem newSet (elements : KeySet) : Tame (Run.newSet elements) := newObject_plain rfl

@[grind .]
theorem newArray (matrix : Matrix) : Tame (Run.newArray matrix) := newObject_plain rfl

theorem newFunction {f : Function} (hf : ∀ c ∈ f.closures, c.IsSound) : Tame (Run.newFunction f) :=
  newObject hf

@[grind .]
theorem setContent {id : ObjectId} {c : Content} (hc : c.closures = []) : Tame (Run.setContent id c) :=
  change fun _ _ => .of_heap (fun _ hi => hi.setContent id c)
    fun hs => hs.setContent id (Content.isSound_of_closures hc)

@[grind .]
theorem setCell (id : CellId) (v : Value) : Tame (Run.setCell id v) :=
  change fun _ _ => .of_objects rfl rfl rfl rfl rfl

@[grind .]
theorem setGlobal (name : String) (v : Value) : Tame (Run.setGlobal name v) :=
  change fun _ _ => .of_objects rfl rfl rfl rfl rfl

@[grind .]
theorem write (text : String) : Tame (Run.write text) := change fun _ _ => .of_objects rfl rfl rfl rfl rfl

@[grind .]
theorem modifyClasses (f : ClassTree → ClassTree) : Tame (Run.modifyClasses f) :=
  change fun _ _ => .of_objects rfl rfl rfl rfl rfl

-- ---------------------------------------------------------------------------
-- Reclamation and collection
-- ---------------------------------------------------------------------------

end Tame

namespace Machine

theorem mem_roots_of_mem_stack {m : Machine} {v : Value} (h : v ∈ m.stack) : v ∈ m.roots := by
  simp [roots, h]

theorem spares_reclaim (m : Machine) (extra : List Value) : m.Spares (m.reclaim extra) := by
  have hshrinks := m.reclaim_shrinks extra
  have hstack : (m.reclaim extra).stack = m.stack := by rw [hshrinks.rest]
  refine ⟨by rw [hshrinks.rest], hstack, by rw [hshrinks.rest], by rw [hshrinks.rest], ?_, ?_⟩
  · intro id hid ⟨it, hit⟩
    refine ⟨it, ?_⟩
    rwa [Heap.content?, object?_reclaim_of_mem_roots (mem_roots_of_mem_stack hid)]
  · intro hs id c hc
    rw [Heap.content?] at hc
    rcases hshrinks.object? id with h | h
    · rw [h] at hc
      exact hs id c hc
    · simp [h] at hc

/-- The collector empties no iterator, and what it leaves of a function has no closures. -/
theorem spares_swept (m : Machine) : m.Spares m.swept := by
  refine ⟨rfl, rfl, rfl, rfl, fun id _ ⟨it, hit⟩ => ⟨it, ?_⟩, fun hs id c hc => ?_⟩
  · obtain ⟨o, ho, hcontent⟩ := Option.map_eq_some_iff.mp hit
    rw [Heap.content?, object?_swept, ho]
    cases o with
    | mk cls content =>
      obtain rfl : content = .iterator it := hcontent
      simp [Content.emptied?]
  · obtain ⟨o', ho', rfl⟩ := Option.map_eq_some_iff.mp hc
    rw [object?_swept] at ho'
    obtain ⟨o, ho, rfl⟩ := Option.map_eq_some_iff.mp ho'
    have hold : o.content.IsSound := hs id _ (by simp [Heap.content?, ho])
    split
    · cases hempty : o.content.emptied? with
      | none => exact hold
      | some c =>
        refine Content.isSound_of_closures ?_
        cases hcontent : o.content <;> simp_all [Content.emptied?, Content.closures] <;> grind
    · exact hold

end Machine

namespace Tame

@[grind .]
theorem reclaim (extra : List Value) : Tame (Run.reclaim extra) := change fun m _ => m.spares_reclaim extra

@[grind .]
theorem collect : Tame Run.collect :=
  (reclaim []).bind fun _ => fun m _ => m.spares_swept.trans (m.swept.spares_reclaim [])

@[grind .]
theorem collectIfDue : Tame Run.collectIfDue := by grind [Run.collectIfDue]

@[grind .]
theorem collectAndReport : Tame Run.collectAndReport := by grind [Run.collectAndReport]

end Tame

end Rill
