-- SUMMARY: Activations that wait for a call, and what a machine keeps while a host call runs.
import Rill.Machine.Execution
import Rill.Proofs.Safety.Tame

/-!
# Waiting activations

A call that a host makes piles activations on those of the host. Each of them waits for the call it made:
it knows the slot where the result will be, the reference flags that are recorded meanwhile, and the shape
with which its code goes on. What is below that slot stays as it is until then.
-/

namespace Rill

-- ---------------------------------------------------------------------------
-- The lower part of the operand stack
-- ---------------------------------------------------------------------------

/-- The place on the operand stack holds an iterator. -/
def Machine.HoldsIterator (m : Machine) (k : Nat) : Prop :=
  ∃ id, m.stack[k]? = some (.object id) ∧ m.heap.IsIterator id

/-- Below a height the second machine has the operands of the first one. Iterators there are still
iterators. -/
structure Machine.SparesBelow (m m' : Machine) (height : Nat) : Prop where
  stack : ∀ k < height, m'.stack[k]? = m.stack[k]?
  iterators : ∀ k < height, m.HoldsIterator k → m'.HoldsIterator k

namespace Machine

theorem SparesBelow.mono {m m' : Machine} {height lower : Nat} (h : m.SparesBelow m' height)
    (hle : lower ≤ height) : m.SparesBelow m' lower :=
  ⟨fun k hk => h.stack k (by omega), fun k hk => h.iterators k (by omega)⟩

/-- The heap is as it was. -/
theorem SparesBelow.of_stack {m m' : Machine} {height : Nat} (hheap : m'.heap = m.heap)
    (hstack : ∀ k < height, m'.stack[k]? = m.stack[k]?) : m.SparesBelow m' height := by
  refine ⟨hstack, fun k hk ⟨id, hid, hiter⟩ => ⟨id, ?_, ?_⟩⟩
  · rw [hstack k hk, hid]
  · rwa [hheap]

theorem Spares.holdsIterator {m m' : Machine} (h : m.Spares m') {k : Nat} (hk : m.HoldsIterator k) :
    m'.HoldsIterator k := by
  obtain ⟨id, hid, hiter⟩ := hk
  exact ⟨id, by rwa [h.stack], h.iterators id (Array.mem_of_getElem? hid) hiter⟩

theorem Spares.below {m m' : Machine} (h : m.Spares m') (height : Nat) : m.SparesBelow m' height :=
  ⟨fun k _ => by rw [h.stack], fun _ _ => h.holdsIterator⟩

end Machine

-- ---------------------------------------------------------------------------
-- Frames
-- ---------------------------------------------------------------------------

/-- The code of the frame fits together with an assignment of shapes, finds its captured variables, and
has slots for the arguments. -/
structure Frame.Fits (f : Frame) (shape : Nat → Shape) : Prop where
  sound : Sound f.routine
  assigned : Assigned f.routine shape
  captured : f.closure.captured.size = f.routine.captures.size
  arity : f.closure.arity ≤ f.routine.frameSize

/-- What a shape promises beyond numbers: iterators are where it says, and no callee waits in a slot. -/
structure Frame.Meets (f : Frame) (s : Shape) (m : Machine) : Prop where
  iterators : ∀ i ∈ s.iterators, i < f.routine.frameSize ∧ m.HoldsIterator (f.base + i)
  pending : ∀ height ∈ s.pending, 0 < height

theorem Frame.Meets.spared {f : Frame} {s : Shape} {m m' : Machine} (h : f.Meets s m)
    (hm : m.SparesBelow m' (f.base + f.routine.frameSize)) : f.Meets s m' :=
  ⟨fun i hi => ⟨(h.iterators i hi).1, hm.iterators _ (by have := (h.iterators i hi).1; omega)
    (h.iterators i hi).2⟩, h.pending⟩

theorem Frame.Meets.weaken {f : Frame} {s t : Shape} {m : Machine} (h : f.Meets s m) (hle : s ≤ t) :
    f.Meets t m :=
  ⟨fun i hi => h.iterators i (hle.iterators hi), hle.pending ▸ h.pending⟩

/-- Number of slots that the frame has: those of its arguments, until its first instruction makes all. -/
def Frame.slots (f : Frame) : Nat := if f.ip = 0 then f.closure.arity else f.routine.frameSize

theorem Frame.Fits.slots_le {f : Frame} {shape : Nat → Shape} (h : f.Fits shape) :
    f.slots ≤ f.routine.frameSize := by
  unfold Frame.slots
  split
  · exact h.arity
  · exact Nat.le_refl _

-- ---------------------------------------------------------------------------
-- Activations
-- ---------------------------------------------------------------------------

/-- The activations wait for a call whose callee is in a slot, and which was made when some reference
flags were recorded. The outermost of them are those of a host that has made a call with its callee in
the slot `callee`. A native function knows its slot; the code of a script goes on behind a call with the
shape that the call hands on. -/
inductive Waits (host : Machine) (callee : Nat) (m : Machine) :
    List Activation → Nat → List RefFlags → Prop
  | host : Waits host callee m host.control callee host.precall
  | native {w : NativeCall} {rest : List Activation} {precall : List RefFlags}
      (outer : Waits host callee m rest w.slot precall) (above : w.slot < w.inner)
      (room : w.inner < host.config.stackLimit) (precalls : w.precalls = precall.length) :
      Waits host callee m (.native w :: rest) w.inner precall
  | script {f : Frame} {rest : List Activation} {slot : Nat} {precall own : List RefFlags}
      {shape : Nat → Shape} {count height : Nat} {keepRef : Bool}
      (outer : Waits host callee m rest slot precall) (base : f.base = slot + 1) (fits : f.Fits shape)
      (called : f.routine.Has f.ip (.call count keepRef))
      (operands : (shape f.ip).operands = height + count + 1)
      (pending : (shape f.ip).pending.length = own.length + 1) (meets : f.Meets (shape f.ip) m) :
      Waits host callee m (.script f :: rest) (f.base + f.routine.frameSize + height) (own ++ precall)

namespace Waits

variable {host m m' : Machine} {callee slot : Nat} {acts : List Activation} {precall : List RefFlags}

theorem callee_le (h : Waits host callee m acts slot precall) : callee ≤ slot := by
  induction h with
  | host => exact Nat.le_refl _
  | native _ above _ _ ih => omega
  | script _ base _ _ _ _ _ ih => omega

/-- Only what is below the slot matters. -/
theorem spared (h : Waits host callee m acts slot precall) (hm : m.SparesBelow m' slot) :
    Waits host callee m' acts slot precall := by
  induction h with
  | host => exact .host
  | native _ above room precalls ih => exact .native (ih (hm.mono (by omega))) above room precalls
  | script _ base fits called operands pending meets ih =>
    exact .script (ih (hm.mono (by omega))) base fits called operands pending
      (meets.spared (hm.mono (by omega)))

theorem precall_suffix (h : Waits host callee m acts slot precall) : host.precall <:+ precall := by
  induction h with
  | host => exact List.suffix_refl _
  | native _ _ _ _ ih => exact ih
  | script _ _ _ _ _ _ _ ih => exact ih.trans (List.suffix_append _ _)

theorem control_suffix (h : Waits host callee m acts slot precall) : host.control <:+ acts := by
  induction h with
  | host => exact List.suffix_refl _
  | native _ _ _ _ ih => exact ih.trans (List.suffix_cons _ _)
  | script _ _ _ _ _ _ _ ih => exact ih.trans (List.suffix_cons _ _)

/-- All slots of the waiting frames exist. -/
theorem slots (h : Waits host callee m acts slot precall) :
    ∀ f ∈ acts.filterMap Activation.frame?, f ∈ host.frames ∨ f.base + f.slots ≤ slot := by
  induction h with
  | host => exact fun f hf => .inl hf
  | native _ above _ _ ih =>
    intro f hf
    exact (ih f hf).imp_right fun h => by omega
  | script _ base fits _ _ _ _ ih =>
    intro f hf
    rcases List.mem_cons.mp hf with rfl | hf
    · have := fits.slots_le
      exact .inr (by omega)
    · exact (ih f hf).imp_right fun h => by omega

end Waits

-- ---------------------------------------------------------------------------
-- Machines during a call
-- ---------------------------------------------------------------------------

/-- What is true of a machine all through a call that a host makes. -/
structure Within (host : Machine) (callee : Nat) (m : Machine) : Prop where
  config : m.config = host.config
  room : m.stack.size ≤ host.config.stackLimit
  below : ∀ k < callee, m.stack[k]? = host.stack[k]?
  sound : m.heap.IsSound
  depth : m.frames.length ≤ host.config.callDepth

/-- Changes above the slot of the innermost waiting activation. -/
theorem Within.spared {host m m' : Machine} {callee : Nat} (h : Within host callee m)
    (hm : m.SparesBelow m' callee) (hconfig : m'.config = m.config)
    (hroom : m'.stack.size ≤ host.config.stackLimit) (hsound : m'.heap.IsSound)
    (hframes : m'.frames.length ≤ m.frames.length) : Within host callee m' where
  config := hconfig.trans h.config
  room := hroom
  below k hk := (hm.stack k hk).trans (h.below k hk)
  sound := hsound
  depth := Nat.le_trans hframes h.depth

/-- A machine in which a step has failed. Activations that have begun but wait for nothing, reference
flags that are no longer needed, and operands above the slot that is waited for are left over. -/
inductive Interrupted (host : Machine) (callee : Nat) (m : Machine) : Prop
  | intro {begun acts : List Activation} {slot : Nat} {precall : List RefFlags}
      (within : Within host callee m) (control : m.control = begun ++ acts)
      (unguarded : ∀ a ∈ begun, a.isGuarded = false) (waits : Waits host callee m acts slot precall)
      (height : slot ≤ m.stack.size) (suffix : precall <:+ m.precall)

theorem Interrupted.within {host m : Machine} {callee : Nat} (h : Interrupted host callee m) :
    Within host callee m := by
  cases h
  assumption

theorem Interrupted.callee_le {host m : Machine} {callee : Nat} (h : Interrupted host callee m) :
    callee ≤ m.stack.size := by
  obtain ⟨-, -, -, hwaits, hheight, -⟩ := h
  exact Nat.le_trans hwaits.callee_le hheight

end Rill
