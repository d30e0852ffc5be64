-- SUMMARY: Overloads of one function stay consistent, however they are declared, registered and merged.
import Rill.Machine.Step
import Rill.Proofs.Dispatch.Choice
import Rill.Proofs.Safety.Calling

/-!
# Consistent overloads

Arguments are prepared with the flags of a function before one of its closures is chosen. That is right
because the closures agree with the function at all their positions. Adding a closure compares it only
with the flags of the function up to its largest arity; that this is enough is an invariant of the
functions made in this way. A stored function is never changed: an overload makes a new one.
-/

namespace Rill

-- ---------------------------------------------------------------------------
-- Consistent functions
-- ---------------------------------------------------------------------------

theorem Closure.arity_eq {c d : Closure} (h : c.signature = d.signature) : c.arity = d.arity :=
  congrArg List.length h

namespace Function

/-- The closures are sorted by arity and have different signatures, `maxArity` is the largest arity, any
two closures pass the same ones of their common positions by reference, and so do each closure and the
function. -/
structure Consistent (f : Function) : Prop where
  sorted : f.closures.Pairwise (·.arity ≤ ·.arity)
  distinct : f.closures.Pairwise (·.signature ≠ ·.signature)
  bounded : ∀ c ∈ f.closures, c.arity ≤ f.maxArity
  attained : (f.closures = [] ∧ f.maxArity = 0) ∨ ∃ c ∈ f.closures, c.arity = f.maxArity
  agree : f.closures.Pairwise Closure.Agrees
  flags : ∀ c ∈ f.closures, ∀ p < c.arity, c.refFlags.isRef p = f.refFlags.isRef p

/-- Closures that agree with the flags of one function agree with each other. -/
theorem agree_of_flags {f : Function}
    (h : ∀ c ∈ f.closures, ∀ p < c.arity, c.refFlags.isRef p = f.refFlags.isRef p) :
    f.closures.Pairwise Closure.Agrees := by
  refine List.pairwise_of_forall_mem_list fun c hc d hd p hp => ?_
  have hpc : p < c.arity := Nat.lt_of_lt_of_le hp (Nat.min_le_left _ _)
  have hpd : p < d.arity := Nat.lt_of_lt_of_le hp (Nat.min_le_right _ _)
  rw [h c hc p hpc, h d hd p hpd]

theorem Consistent.empty (name : String) : Consistent { name := name } where
  sorted := .nil
  distinct := .nil
  bounded _ hc := nomatch hc
  attained := .inl ⟨rfl, rfl⟩
  agree := .nil
  flags _ hc := nomatch hc

/-- A closure without conflict has the flags of the function up to its largest arity. -/
theorem flags_of_conflict? {f : Function} {c : Closure} (h : f.conflict? c = none)
    (hne : f.closures ≠ []) : ∀ p < min c.arity f.maxArity, c.refFlags.isRef p = f.refFlags.isRef p := by
  intro p hp
  have hsome : ¬f.closures.isEmpty = true := by simpa using hne
  rw [conflict?, if_neg hsome, List.find?_eq_none] at h
  simpa using h p (List.mem_range.mpr hp)

/-- The function after a closure has replaced one with the same parameter classes. -/
theorem Consistent.replace {f : Function} {c d : Closure} {i : Nat} (h : f.Consistent)
    (hi : f.closures[i]? = some d) (hsignature : d.signature = c.signature)
    (hflags : ∀ p < c.arity, c.refFlags.isRef p = f.refFlags.isRef p) :
    Consistent { f with closures := f.closures.set i c } := by
  -- What the closures are said to be by their signatures stays as it was.
  have hsame : (f.closures.set i c).map Closure.signature = f.closures.map Closure.signature := by
    obtain ⟨hlt, rfl⟩ := List.getElem?_eq_some_iff.mp hi
    rw [List.map_set, ← hsignature, ← List.getElem_map Closure.signature (h := by simpa using hlt)]
    exact List.set_getElem_self _
  have hpairs {R : List ClassId → List ClassId → Prop}
      (hR : f.closures.Pairwise fun a b => R a.signature b.signature) :
      (f.closures.set i c).Pairwise fun a b => R a.signature b.signature := by
    rw [← List.pairwise_map (f := Closure.signature)] at hR ⊢
    rwa [hsame]
  have hd : d ∈ f.closures := List.mem_of_getElem? hi
  have hall : ∀ a ∈ f.closures.set i c, ∀ p < a.arity, a.refFlags.isRef p = f.refFlags.isRef p := by
    intro a ha
    rcases List.mem_or_eq_of_mem_set ha with ha | rfl
    · exact h.flags a ha
    · exact hflags
  refine ⟨hpairs (R := fun a b => a.length ≤ b.length) h.sorted, hpairs h.distinct, ?_, .inr ?_,
    agree_of_flags hall, hall⟩
  · intro a ha
    rcases List.mem_or_eq_of_mem_set ha with ha | rfl
    · exact h.bounded a ha
    · exact Closure.arity_eq hsignature ▸ h.bounded d hd
  · rcases h.attained with ⟨hnil, -⟩ | ⟨a, ha, harity⟩
    · rw [hnil] at hd
      cases hd
    · -- The place of the longest closure still has its signature.
      have hmem : a.signature ∈ (f.closures.set i c).map Closure.signature := by
        rw [hsame]
        exact List.mem_map_of_mem ha
      obtain ⟨b, hb, hba⟩ := List.mem_map.mp hmem
      exact ⟨b, hb, (Closure.arity_eq hba).trans harity⟩

/-- The function after a closure with new parameter classes has been put behind those with as many
parameters; a longer one than all before gives its flags to the function. -/
theorem Consistent.insert {f : Function} {c : Closure} (h : f.Consistent)
    (hnew : ∀ d ∈ f.closures, d.signature ≠ c.signature)
    (hflags : f.closures ≠ [] → ∀ p < min c.arity f.maxArity, c.refFlags.isRef p = f.refFlags.isRef p)
    {flags : RefFlags} {maxArity : Nat}
    (hword : (flags = c.refFlags ∧ maxArity = c.arity ∧ (f.closures = [] ∨ f.maxArity < c.arity)) ∨
      (flags = f.refFlags ∧ maxArity = f.maxArity ∧ f.closures ≠ [] ∧ c.arity ≤ f.maxArity))
    {closures : List Closure} (hperm : closures.Perm (c :: f.closures))
    (hsorted : closures.Pairwise (·.arity ≤ ·.arity)) :
    Consistent { f with closures := closures, refFlags := flags, maxArity := maxArity } := by
  have hall : ∀ a ∈ closures, ∀ p < a.arity, a.refFlags.isRef p = flags.isRef p := by
    intro a ha p hp
    rcases hword with ⟨rfl, -, hlonger⟩ | ⟨rfl, -, hne, hle⟩
    · rcases List.mem_cons.mp (hperm.subset ha) with rfl | ha
      · rfl
      · have hle := h.bounded a ha
        rcases hlonger with hnil | hlt
        · rw [hnil] at ha
          cases ha
        · rw [h.flags a ha p hp]
          exact (hflags (List.ne_nil_of_mem ha) p (by omega)).symm
    · rcases List.mem_cons.mp (hperm.subset ha) with rfl | ha
      · exact hflags hne p (by omega)
      · exact h.flags a ha p hp
  refine ⟨hsorted, ?_, fun a ha => ?_, .inr ?_, agree_of_flags hall, hall⟩
  · refine (hperm.pairwise_iff Ne.symm).mpr (List.pairwise_cons.mpr ⟨fun d hd => ?_, h.distinct⟩)
    exact (hnew d hd).symm
  · rcases hword with ⟨-, rfl, hlonger⟩ | ⟨-, rfl, -, hle⟩
    · rcases List.mem_cons.mp (hperm.subset ha) with rfl | ha
      · exact Nat.le_refl _
      · rcases hlonger with hnil | hlt
        · rw [hnil] at ha
          cases ha
        · exact (h.bounded a ha).trans (Nat.le_of_lt hlt)
    · rcases List.mem_cons.mp (hperm.subset ha) with rfl | ha
      · exact hle
      · exact h.bounded a ha
  · rcases hword with ⟨-, rfl, -⟩ | ⟨-, rfl, hne, -⟩
    · exact ⟨c, hperm.symm.subset List.mem_cons_self, rfl⟩
    · rcases h.attained with ⟨hnil, -⟩ | ⟨a, ha, harity⟩
      · exact absurd hnil hne
      · exact ⟨a, hperm.symm.subset (List.mem_cons_of_mem c ha), harity⟩

/-- An overload that is accepted leaves a consistent function consistent. -/
theorem Consistent.add {f g : Function} {c : Closure} (h : f.Consistent) (hadd : f.add c = .ok g) :
    g.Consistent := by
  unfold Function.add at hadd
  split at hadd
  · cases hadd
  · next hconflict =>
    have hflags := flags_of_conflict? hconflict
    split at hadd
    · next i hi =>
      cases hadd
      obtain ⟨hlt, hsignature, -⟩ := List.findIdx?_eq_some_iff_getElem.mp hi
      have hmem : f.closures[i] ∈ f.closures := List.getElem_mem hlt
      have hsame : f.closures[i].signature = c.signature := by simpa using hsignature
      refine h.replace (List.getElem?_eq_getElem hlt) hsame fun p hp => ?_
      have hle : c.arity ≤ f.maxArity := Closure.arity_eq hsame ▸ h.bounded _ hmem
      exact hflags (List.ne_nil_of_mem hmem) p (by omega)
    · next hnone =>
      cases hadd
      have hnew : ∀ d ∈ f.closures, d.signature ≠ c.signature := by
        simpa using List.findIdx?_eq_none_iff.mp hnone
      have hperm : (f.closures.takeWhile (fun d => decide (d.arity ≤ c.arity)) ++
          c :: f.closures.dropWhile fun d => decide (d.arity ≤ c.arity)).Perm (c :: f.closures) :=
        List.perm_middle.trans (.cons c (.of_eq List.takeWhile_append_dropWhile))
      have hsorted := sorted_insert h.sorted c
      by_cases hlonger : f.closures.isEmpty ∨ c.arity > f.maxArity
      · simp only [if_pos hlonger]
        refine h.insert hnew hflags (.inl ⟨rfl, rfl, ?_⟩) hperm hsorted
        simpa using hlonger
      · simp only [if_neg hlonger]
        refine h.insert hnew hflags (.inr ⟨rfl, rfl, ?_⟩) hperm hsorted
        simpa using hlonger

/-- Overloads added one after the other. -/
theorem Consistent.addAll {f g : Function} {cs : List Closure} (h : f.Consistent)
    (hadd : f.addAll cs = .ok g) : g.Consistent := by
  induction cs generalizing f with
  | nil =>
    cases hadd
    exact h
  | cons c rest ih =>
    rw [Function.addAll, List.foldlM_cons] at hadd
    cases hc : f.add c with
    | error e => simp [hc, bind, Except.bind] at hadd
    | ok f' =>
      simp only [hc, bind, Except.bind] at hadd
      exact ih (h.add hc) hadd

/-- The function after an attempt to add an overload: as it was if the overload is refused. -/
def offer (f : Function) (c : Closure) : Function :=
  match f.add c with
  | .ok g => g
  | .error _ => f

theorem Consistent.offer {f : Function} (h : f.Consistent) (c : Closure) : (f.offer c).Consistent := by
  unfold Function.offer
  split
  · exact h.add ‹_›
  · exact h

/-- Any attempts to add overloads, accepted or not. -/
theorem Consistent.offers {f : Function} (h : f.Consistent) (cs : List Closure) :
    (cs.foldl Function.offer f).Consistent := by
  induction cs generalizing f with
  | nil => exact h
  | cons c rest ih => exact ih (h.offer c)

/-- A function made of one closure is the empty one with this closure added. -/
theorem add_empty (name : String) (c : Closure) :
    Function.add { name := name } c = .ok (ofClosure name c) := by
  simp [Function.add, conflict?, ofClosure]

theorem Consistent.ofClosure (name : String) (c : Closure) : (ofClosure name c).Consistent :=
  (Consistent.empty name).add (add_empty name c)

end Function

-- ---------------------------------------------------------------------------
-- Machines that get functions
-- ---------------------------------------------------------------------------

/-- All functions on the heap are consistent. -/
def Heap.Consistent (h : Heap) : Prop := ∀ id f, h.content? id = some (.function f) → f.Consistent

/-- The function that a value refers to is one on the heap. -/
theorem Heap.Consistent.function {h : Heap} (hc : h.Consistent) {v : Value} {f : Function}
    (hf : h.contentOf v = some (.function f)) : f.Consistent := by
  unfold Heap.contentOf at hf
  split at hf
  · exact hc _ f hf
  · cases hf

/-- What was on the heap is still there as it was, and new functions are as consistent as the old ones. -/
structure Machine.Preserves (m m' : Machine) : Prop where
  kept : ∀ id o, m.heap.object? id = some o → m'.heap.object? id = some o
  consistent : m.heap.Consistent → m'.heap.Consistent

/-- The second machine is the first one with further objects on the heap. -/
structure Machine.OnlyAdds (m m' : Machine) : Prop extends m.Preserves m' where
  rest : m' = { m with
    heap := { m.heap with objects := m'.heap.objects }, registrations := m'.registrations }

namespace Machine

theorem Preserves.refl (m : Machine) : m.Preserves m := ⟨fun _ _ => id, id⟩

theorem Preserves.trans {m₁ m₂ m₃ : Machine} (h : m₁.Preserves m₂) (h' : m₂.Preserves m₃) :
    m₁.Preserves m₃ :=
  ⟨fun id o ho => h'.kept id o (h.kept id o ho), fun hc => h'.consistent (h.consistent hc)⟩

/-- A stored function is still the same one. -/
theorem Preserves.function {m m' : Machine} (h : m.Preserves m') {id : ObjectId} {f : Function}
    (hf : m.heap.content? id = some (.function f)) : m'.heap.content? id = some (.function f) := by
  obtain ⟨o, ho, hcontent⟩ := Option.map_eq_some_iff.mp hf
  rw [Heap.content?, h.kept id o ho]
  exact congrArg some hcontent

/-- Machines with the same objects. -/
theorem Preserves.of_objects {m m' : Machine} (h : m'.heap.objects = m.heap.objects) :
    m.Preserves m' := by
  have hobject (id : ObjectId) : m'.heap.object? id = m.heap.object? id := by
    rw [Heap.object?, Heap.object?, h]
  refine ⟨fun id o ho => (hobject id).trans ho, fun hc id f hf => hc id f ?_⟩
  rwa [Heap.content?, ← hobject id]

theorem OnlyAdds.refl (m : Machine) : m.OnlyAdds m := ⟨.refl m, rfl⟩

theorem OnlyAdds.trans {m₁ m₂ m₃ : Machine} (h : m₁.OnlyAdds m₂) (h' : m₂.OnlyAdds m₃) :
    m₁.OnlyAdds m₃ := by
  refine ⟨h.toPreserves.trans h'.toPreserves, ?_⟩
  have hrest := h'.rest
  rwa [h.rest] at hrest

theorem OnlyAdds.allocate (m : Machine) (cls : ClassId) {c : Content}
    (hc : ∀ f, c = .function f → f.Consistent) (registrations : Nat) :
    m.OnlyAdds { m with heap := (m.heap.allocate cls c).2, registrations := registrations } := by
  refine ⟨⟨fun id o ho => ?_, fun hm id f hf => ?_⟩, rfl⟩
  · have hlt : id.index < m.heap.objects.size := by
      by_contra hge
      simp [Heap.object?, Array.getElem?_eq_none (Nat.le_of_not_lt hge)] at ho
    rw [Heap.object?, Heap.allocate, Array.getElem?_push, if_neg (Nat.ne_of_lt hlt)]
    exact ho
  · rw [Heap.content?_allocate] at hf
    split at hf
    · exact hc f (Option.some.inj hf)
    · exact hm id f hf

end Machine

-- ---------------------------------------------------------------------------
-- Computations that only add objects
-- ---------------------------------------------------------------------------

/-- Whether it succeeds or fails, the computation does nothing but put consistent functions and other
objects on the heap. -/
def OnlyAdding (x : Run α) : Prop :=
  ∀ m, m.heap.Consistent → match x m with
    | .ok _ m' => m.OnlyAdds m'
    | .error _ m' => m.OnlyAdds m'

namespace OnlyAdding

theorem pure (a : α) : OnlyAdding (Pure.pure a) := fun m _ => .refl m

theorem fail (fault : Fault) : OnlyAdding (Run.fail fault : Run α) := fun m _ => .refl m

theorem get_bind {f : Machine → Run α} (hf : ∀ m, m.heap.Consistent → OnlyAdding (f m)) :
    OnlyAdding (MonadState.get >>= f) :=
  fun m hm => hf m hm m hm

theorem lift_bind {x : Except Failure α} {f : α → Run β} (hf : ∀ a, x = .ok a → OnlyAdding (f a)) :
    OnlyAdding ((monadLift x : Run α) >>= f) := by
  cases x with
  | ok a => exact hf a rfl
  | error e => exact fun m _ => .refl m

theorem bind {x : Run α} {f : α → Run β} (hx : OnlyAdding x) (hf : ∀ a, OnlyAdding (f a)) :
    OnlyAdding (x >>= f) := by
  intro m hm
  have hxm := hx m hm
  change match EStateM.bind x f m with
    | .ok _ m' => m.OnlyAdds m'
    | .error _ m' => m.OnlyAdds m'
  cases h : x m with
  | error e m' =>
    simp only [h] at hxm
    simpa only [EStateM.bind, h] using hxm
  | ok a m' =>
    simp only [h] at hxm
    have hfm := hf a m' (hxm.consistent hm)
    simp only [EStateM.bind, h]
    cases h' : f a m' <;> simp only [h'] at hfm <;> exact hxm.trans hfm

theorem allocate {cls : ClassId} {c : Content} (hc : ∀ f, c = .function f → f.Consistent) :
    OnlyAdding (Run.allocate cls c) :=
  fun m _ => .allocate m cls hc _

theorem newFunction {f : Function} (hf : f.Consistent) : OnlyAdding (Run.newFunction f) :=
  (allocate fun _ h => Content.function.inj h ▸ hf).bind fun _ => pure _

theorem newNative (name : String) (fn : Native) (signature : List ClassId) (refs : RefFlags) :
    OnlyAdding (Run.newNative name fn signature refs) :=
  allocate fun _ h => Content.function.inj h ▸ Function.Consistent.ofClosure _ _

theorem merge (existing : Value) (function : ObjectId) : OnlyAdding (Run.merge existing function) := by
  refine get_bind fun m hm => ?_
  split
  · next old new hold hnew =>
    split
    · exact pure _
    · refine lift_bind fun f hf => allocate fun g hg => ?_
      cases hg
      exact (hm.function hold).addAll hf
  · exact pure _

theorem local? (f : Frame) (index : Nat) : OnlyAdding (Run.local? f index) := by
  refine get_bind fun m _ => ?_
  split
  · exact pure _
  · exact fail _

theorem capturedCell (f : Frame) (index : Nat) : OnlyAdding (Run.capturedCell f index) := by
  unfold Run.capturedCell
  split
  · exact pure _
  · exact fail _

theorem constant (f : Frame) (index : Nat) : OnlyAdding (Run.constant f index) := by
  unfold Run.constant
  split
  · exact pure _
  · exact fail _

theorem declaredBefore (f : Frame) (slot : Slot) : OnlyAdding (Run.declaredBefore f slot) := by
  cases slot with
  | frame i => exact local? f i
  | captured i => exact (capturedCell f i).bind fun _ => pure _
  | global k => exact get_bind fun _ _ => (constant f k).bind fun _ => pure _

end OnlyAdding

-- ---------------------------------------------------------------------------
-- Changes of variables
-- ---------------------------------------------------------------------------

/-- The computation succeeds and leaves all objects as they are. -/
def Assigning (x : Run α) : Prop := ∀ m, ∃ a m', x m = .ok a m' ∧ m'.heap.objects = m.heap.objects

namespace Assigning

theorem pure (a : α) : Assigning (Pure.pure a) := fun m => ⟨a, m, rfl, rfl⟩

theorem bind {x : Run α} {f : α → Run β} (hx : Assigning x) (hf : ∀ a, Assigning (f a)) :
    Assigning (x >>= f) := by
  intro m
  obtain ⟨a, m', hxm, hobjects⟩ := hx m
  obtain ⟨b, m'', hfm, hobjects'⟩ := hf a m'
  refine ⟨b, m'', ?_, hobjects'.trans hobjects⟩
  change EStateM.bind x f m = _
  rw [EStateM.bind, hxm]
  exact hfm

theorem change {f : Machine → Machine} (hf : ∀ m, (f m).heap.objects = m.heap.objects) :
    Assigning (modify f : Run PUnit) :=
  fun m => ⟨⟨⟩, f m, rfl, hf m⟩

theorem setCell (id : CellId) (v : Value) : Assigning (Run.setCell id v) := change fun _ => rfl

theorem assign (old v : Value) : Assigning (Run.assign old v) := by
  unfold Run.assign
  split
  · split
    · exact pure _
    · exact (setCell _ v).bind fun _ => pure _
  · exact pure _

theorem setGlobal (name : String) (v : Value) : Assigning (Run.setGlobal name v) := change fun _ => rfl

theorem modifyClasses (f : ClassTree → ClassTree) : Assigning (Run.modifyClasses f) :=
  change fun _ => rfl

end Assigning

/-- The computation keeps all objects on the heap and adds consistent functions only. If it fails, it has
changed nothing else either. -/
def Registers (x : Run α) : Prop :=
  ∀ m, m.heap.Consistent → match x m with
    | .ok _ m' => m.Preserves m'
    | .error _ m' => m.OnlyAdds m'

theorem OnlyAdding.registers {x : Run α} (hx : OnlyAdding x) : Registers x := by
  intro m hm
  have hxm := hx m hm
  cases h : x m <;> simp only [h] at hxm
  · exact hxm.toPreserves
  · exact hxm

theorem Assigning.registers {x : Run α} (hx : Assigning x) : Registers x := by
  intro m _
  obtain ⟨a, m', hxm, hobjects⟩ := hx m
  rw [hxm]
  exact .of_objects hobjects

/-- What only adds objects may come before a change of variables. -/
theorem OnlyAdding.registers_bind {x : Run α} {f : α → Run β} (hx : OnlyAdding x)
    (hf : ∀ a, Registers (f a)) : Registers (x >>= f) := by
  intro m hm
  have hxm := hx m hm
  change match EStateM.bind x f m with
    | .ok _ m' => m.Preserves m'
    | .error _ m' => m.OnlyAdds m'
  cases h : x m with
  | error e m' =>
    simp only [h] at hxm
    simpa only [EStateM.bind, h] using hxm
  | ok a m' =>
    simp only [h] at hxm
    have hfm := hf a m' (hxm.consistent hm)
    simp only [EStateM.bind, h]
    cases h' : f a m' <;> simp only [h'] at hfm
    · exact hxm.toPreserves.trans hfm
    · exact hxm.trans hfm

namespace Registers

theorem get_bind {f : Machine → Run α} (hf : ∀ m, Registers (f m)) : Registers (MonadState.get >>= f) :=
  fun m hm => hf m m hm

theorem writeSlot (f : Frame) (slot : Slot) (v : Value) : Registers (Run.writeSlot f slot v) := by
  cases slot with
  | frame i =>
    refine (OnlyAdding.local? f i).registers_bind fun old => Assigning.registers ?_
    exact (Assigning.assign old v).bind fun _ => Assigning.change fun _ => rfl
  | captured i =>
    exact (OnlyAdding.capturedCell f i).registers_bind fun cell => (Assigning.setCell cell v).registers
  | global k =>
    refine (OnlyAdding.constant f k).registers_bind fun name => get_bind fun m => ?_
    split
    · exact ((Assigning.assign _ v).bind fun _ => Assigning.setGlobal name _).registers
    · exact (Assigning.setGlobal name v).registers

theorem declare (f : Frame) (slot : Slot) (v : Value) : Registers (Run.declare f slot v) := by
  refine (OnlyAdding.declaredBefore f slot).registers_bind fun before => ?_
  split
  · exact (OnlyAdding.merge before _).registers_bind fun _ => writeSlot f slot _
  · exact writeSlot f slot _

theorem addGlobalFunction (name : String) (fn : Native) (signature : List ClassId) (refs : RefFlags) :
    Registers (Run.addGlobalFunction name fn signature refs) :=
  (OnlyAdding.newNative name fn signature refs).registers_bind fun _ => get_bind fun _ =>
    (OnlyAdding.merge _ _).registers_bind fun _ => (Assigning.setGlobal name _).registers

theorem addMethod (cls : ClassId) (name : String) (fn : Native) (signature : List ClassId)
    (refs : RefFlags) : Registers (Run.addMethod cls name fn signature refs) :=
  (OnlyAdding.newNative name fn signature refs).registers_bind fun _ => get_bind fun _ =>
    (OnlyAdding.merge _ _).registers_bind fun _ => (Assigning.modifyClasses _).registers

theorem addInitializer (cls : ClassId) (fn : Native) (signature : List ClassId) (refs : RefFlags) :
    Registers (Run.addInitializer cls fn signature refs) :=
  get_bind fun _ => (OnlyAdding.newNative _ fn signature refs).registers_bind fun _ =>
    (OnlyAdding.merge _ _).registers_bind fun _ => (Assigning.modifyClasses _).registers

end Registers

-- ---------------------------------------------------------------------------
-- Sequences of declarations and registrations
-- ---------------------------------------------------------------------------

/-- What gives functions to a machine: a function made of overloads that are accepted one after the other,
the declaration of a function in a variable of a script, and what a host registers. -/
inductive Overloading
  | make (name : String) (closures : List Closure)
  | declare (frame : Frame) (slot : Slot) (function : Value)
  | global (name : String) (fn : Native) (signature : List ClassId) (refs : RefFlags)
  | method (cls : ClassId) (name : String) (fn : Native) (signature : List ClassId) (refs : RefFlags)
  | initializer (cls : ClassId) (fn : Native) (signature : List ClassId) (refs : RefFlags)

namespace Overloading

def run : Overloading → Run Unit
  | make name closures => do
    let _ ← Run.newFunction (closures.foldl Function.offer { name := name })
  | declare frame slot function => Run.declare frame slot function
  | global name fn signature refs => Run.addGlobalFunction name fn signature refs
  | method cls name fn signature refs => Run.addMethod cls name fn signature refs
  | initializer cls fn signature refs => Run.addInitializer cls fn signature refs

theorem registers (op : Overloading) : Registers op.run := by
  cases op with
  | make name closures =>
    have hf := (Function.Consistent.empty name).offers closures
    exact ((OnlyAdding.newFunction hf).bind fun _ => .pure _).registers
  | declare frame slot function => exact .declare frame slot function
  | global name fn signature refs => exact .addGlobalFunction name fn signature refs
  | method cls name fn signature refs => exact .addMethod cls name fn signature refs
  | initializer cls fn signature refs => exact .addInitializer cls fn signature refs

/-- The machine after an attempt, whether it succeeds or fails. -/
def attempt (m : Machine) (op : Overloading) : Machine :=
  match op.run m with
  | .ok _ m' | .error _ m' => m'

theorem preserves_attempt {m : Machine} (hm : m.heap.Consistent) (op : Overloading) :
    m.Preserves (attempt m op) := by
  have hop := op.registers m hm
  unfold attempt
  cases h : op.run m <;> simp only [h] at hop
  · exact hop
  · exact hop.toPreserves

end Overloading

/-- The machine after a sequence of attempts. -/
def Machine.afterAll (m : Machine) (ops : List Overloading) : Machine :=
  ops.foldl Overloading.attempt m

theorem Machine.preserves_afterAll {m : Machine} (hm : m.heap.Consistent) (ops : List Overloading) :
    m.Preserves (m.afterAll ops) := by
  induction ops generalizing m with
  | nil => exact .refl m
  | cons op rest ih =>
    have hop := Overloading.preserves_attempt hm op
    exact hop.trans (ih (hop.consistent hm))

-- ---------------------------------------------------------------------------
-- Flags that are recorded and closures that are chosen
-- ---------------------------------------------------------------------------

namespace Heap

theorem Consistent.calledFunction {h : Heap} (hc : h.Consistent) {callee : Value} {f : Function}
    (hf : h.calledFunction callee = .ok f) : f.Consistent := by
  obtain ⟨v, hv⟩ := contentOf_calledFunction hf
  exact hc.function hv

/-- The closure that a call takes passes its arguments as the flags of the callee say. -/
theorem Consistent.dispatch {h : Heap} (hc : h.Consistent) {callee : Value} {args : Array Value}
    {c : Closure} (hd : h.dispatch callee args = .ok c) :
    ∀ p < args.size, c.refFlags.isRef p = (h.calledFlags callee).isRef p := by
  unfold Heap.dispatch at hd
  cases hf : h.calledFunction callee with
  | error e => simp [hf, bind, Except.bind] at hd
  | ok f =>
    simp only [hf, bind, Except.bind] at hd
    obtain ⟨hmem, harity⟩ := f.choose_mem hd
    have hsize : c.arity = args.size := by simpa using harity
    intro p hp
    rw [Heap.calledFlags, hf]
    exact (hc.calledFunction hf).flags c hmem p (hsize ▸ hp)

/-- The flags of a function on the heap. -/
theorem calledFlags_object {h : Heap} {id : ObjectId} {f : Function}
    (hf : h.content? id = some (.function f)) : h.calledFlags (.object id) = f.refFlags := by
  have hcontent : h.contentOf (.object id) = some (.function f) := hf
  simp [Heap.calledFlags, Heap.calledFunction, hcontent]

end Heap

/-- Whatever overloads scripts declare and hosts register, one after the other and whether they are
accepted or refused: every function on the heap is consistent; a function that was stored before is still
the same one; an attempt that fails changes no variable; and the closure that a call takes passes its
arguments as the flags of its callee say, those of a function as they were recorded before. -/
theorem overloads_consistent {m : Machine} (hm : m.heap.Consistent) (ops : List Overloading) :
    (∀ id f, (m.afterAll ops).heap.content? id = some (.function f) → f.Consistent) ∧
    (∀ id f, m.heap.content? id = some (.function f) →
      (m.afterAll ops).heap.content? id = some (.function f)) ∧
    (∀ op e m', Overloading.run op (m.afterAll ops) = .error e m' → (m.afterAll ops).OnlyAdds m') ∧
    (∀ callee args c, (m.afterAll ops).heap.dispatch callee args = .ok c →
      ∀ p < args.size, c.refFlags.isRef p = ((m.afterAll ops).heap.calledFlags callee).isRef p) ∧
    ∀ id f, m.heap.content? id = some (.function f) →
      ∀ args c, (m.afterAll ops).heap.dispatch (.object id) args = .ok c →
        ∀ p < args.size, c.refFlags.isRef p = (m.heap.calledFlags (.object id)).isRef p := by
  have hafter := Machine.preserves_afterAll hm ops
  have hconsistent := hafter.consistent hm
  refine ⟨hconsistent, fun id f hf => hafter.function hf, fun op e m' hop => ?_,
    fun callee args c hd => hconsistent.dispatch hd, fun id f hf args c hd p hp => ?_⟩
  · have hregisters := op.registers (m.afterAll ops) hconsistent
    rwa [hop] at hregisters
  · rw [Heap.calledFlags_object hf, ← Heap.calledFlags_object (hafter.function hf)]
    exact hconsistent.dispatch hd p hp

/-- A function of one closure that takes a reference refuses a longer overload that takes a value there. -/
theorem overloads_consistent_refused :
    ∃ (m : Machine) (ops : List Overloading) (op : Overloading) (e : Failure) (m' : Machine),
      m.heap.Consistent ∧ op.run (m.afterAll ops) = .error e m' ∧ (m.afterAll ops).OnlyAdds m' ∧
      ∀ id f, (m.afterAll ops).heap.content? id = some (.function f) → f.Consistent := by
  let m : Machine := { config := {} }
  let ops : List Overloading := [.global "f" (.core .collect) [⟨1⟩] 1]
  let op : Overloading := .global "f" (.core .quit) [⟨2⟩, ⟨1⟩] 0
  have hempty : m.heap.Consistent := by
    intro id f hf
    simp [m, Heap.content?, Heap.object?] at hf
  have hrefused : (match op.run (m.afterAll ops) with
      | .ok .. => false
      | .error .. => true) = true := by decide +kernel
  have hafter := overloads_consistent hempty ops
  cases hrun : op.run (m.afterAll ops) with
  | ok a m' => simp [hrun] at hrefused
  | error e m' => exact ⟨m, ops, op, e, m', hempty, hrun, hafter.2.2.1 op e m' hrun, hafter.1⟩

end Rill
