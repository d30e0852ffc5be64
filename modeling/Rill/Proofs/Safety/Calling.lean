-- SUMMARY: Calls that begin, are entered and are completed while a machine runs.
import Rill.Proofs.Safety.Performing

/-!
# Calls of a running machine

Between two steps of a call that a host has made, the innermost activation fits the operand stack: a call
has its callee and arguments there, a frame what the shape of its next instruction says, and a native
function the result it waits for. A call that is entered leads to a frame or to the answer of a native
function, and a call that is completed to an activation that goes on.
-/

namespace Rill

-- ---------------------------------------------------------------------------
-- Choice of a closure
-- ---------------------------------------------------------------------------

namespace Function

/-- After a step, the scan holds the closure it has seen or the one it held. -/
theorem consider_closure {found : Option Candidate} {cost : Nat} {c : Closure} {best : Candidate}
    (h : consider found cost c = some best) :
    best.closure = c ∨ ∃ b, found = some b ∧ best.closure = b.closure := by
  unfold consider at h
  grind

/-- A call runs one of the closures of its function, with as many parameters as there are arguments. -/
theorem choose_mem {f : Function} {classes : ClassTree} {args : List (Option ClassId)}
    {shown : List String} {c : Closure} (h : f.choose classes args shown = .ok c) :
    c ∈ f.closures ∧ c.arity = args.length := by
  let Fitting (c : Closure) : Prop := c ∈ f.closures ∧ c.arity = args.length
  have happlicable : ∀ x ∈ f.applicable classes args, Fitting x.2 := by
    intro x hx
    obtain ⟨d, hd, hdx⟩ := List.mem_filterMap.mp hx
    split at hdx
    · rename_i harity
      obtain ⟨cost, -, rfl⟩ := Option.map_eq_some_iff.mp hdx
      exact ⟨List.takeWhile_subset _ hd, harity⟩
    · cases hdx
  let Held (found : Option Candidate) : Prop := ∀ best, found = some best → Fitting best.closure
  have hscan : Held ((f.applicable classes args).foldl (fun best x => consider best x.1 x.2) none) := by
    refine List.foldlRecOn (motive := Held) _ _ (fun _ h => by cases h) ?_
    intro found hfound x hx best hbest
    rcases consider_closure hbest with heq | ⟨b, hb, heq⟩
    · exact heq ▸ happlicable x hx
    · exact heq ▸ hfound b hb
  simp only [choose] at h
  split at h
  · cases h
  · rename_i best hbest
    split at h
    · cases h
    · cases h
      exact hscan best hbest

end Function

namespace Heap

/-- The function that is called is one on the heap. -/
theorem contentOf_calledFunction {h : Heap} {callee : Value} {f : Function} (hf : h.calledFunction callee = .ok f) :
    ∃ v, h.contentOf v = some (.function f) := by
  simp only [calledFunction] at hf
  split at hf
  · split at hf
    · split at hf
      · next hcontent =>
        cases hf
        exact ⟨_, hcontent⟩
      · cases hf
    · cases hf
  · split at hf
    · next hcontent =>
      cases hf
      exact ⟨_, hcontent⟩
    · cases hf

theorem calledFunction_isSound {h : Heap} (hs : h.IsSound) {callee : Value} {f : Function}
    (hf : h.calledFunction callee = .ok f) : ∀ c ∈ f.closures, c.IsSound := by
  obtain ⟨v, hv⟩ := contentOf_calledFunction hf
  exact hs.function hv

theorem dispatch_isSound {h : Heap} (hs : h.IsSound) {callee : Value} {args : Array Value} {c : Closure}
    (hc : h.dispatch callee args = .ok c) : c.IsSound ∧ c.arity = args.size := by
  unfold dispatch at hc
  cases hf : h.calledFunction callee with
  | error e => simp [hf, bind, Except.bind] at hc
  | ok f =>
    simp only [hf, bind, Except.bind] at hc
    obtain ⟨hmem, harity⟩ := f.choose_mem hc
    exact ⟨calledFunction_isSound hs hf c hmem, by simpa using harity⟩

end Heap

-- ---------------------------------------------------------------------------
-- Running machines
-- ---------------------------------------------------------------------------

/-- The innermost activation works on the stack up to a height, above the callee in a slot. The other ones
wait for a result there. -/
structure Atop (host : Machine) (callee : Nat) (a : Activation) (rest : List Activation) (slot : Nat)
    (precall : List RefFlags) (height : Nat) (m : Machine) : Prop where
  within : Within host callee m
  control : m.control = a :: rest
  waits : Waits host callee m rest slot precall
  precall : m.precall = precall
  size : m.stack.size = height
  above : slot < height

/-- The function that is the innermost activation has waited for a call: its result is on the stack, up to
a height, above what the function waits with. -/
structure Resuming (host : Machine) (callee : Nat) (w : NativeCall) (rest : List Activation)
    (precall : List RefFlags) (height : Nat) (m : Machine) : Prop where
  atop : Atop host callee (.native w) rest w.slot precall height m
  waits : Waits host callee m (.native w :: rest) w.inner precall

/-- A machine between two steps of a call that a host has made with its callee in the slot `callee`. -/
inductive Running (host : Machine) (callee : Nat) (m : Machine) : Prop
  | done (within : Within host callee m) (control : m.control = host.control)
      (precall : m.precall = host.precall) (size : m.stack.size = callee + 1)
  | entering {count : Nat} {keepRef : Bool} {rest : List Activation} {slot : Nat}
      {precall : List RefFlags} (atop : Atop host callee (.entering count keepRef) rest slot precall (slot + 1 + count) m)
  | answered {w : NativeCall} {rest : List Activation} {precall : List RefFlags}
      (resuming : Resuming host callee w rest precall (w.inner + 1) m) (above : w.slot < w.inner)
  | entered {f : Frame} {rest : List Activation} {slot height : Nat} {precall : List RefFlags}
      {shape : Nat → Shape} (atop : Atop host callee (.script f) rest slot precall height m)
      (base : f.base = slot + 1) (fits : f.Fits shape) (start : f.ip = 0)
      (arguments : f.base + f.closure.arity ≤ height) (room : height ≤ f.base + f.routine.frameSize)
  | executing {f : Frame} {rest : List Activation} {slot : Nat} {precall : List RefFlags}
      {shape : Nat → Shape} (fits : f.Fits shape) (exists_ip : f.ip < f.routine.code.size)
      (site : FrameSite.At ⟨host, callee, f, rest, slot, precall⟩ (shape f.ip) m)

-- ---------------------------------------------------------------------------
-- Operands above a callee
-- ---------------------------------------------------------------------------

namespace Atop

variable {host : Machine} {callee slot height : Nat} {a : Activation} {rest : List Activation}
  {precall : List RefFlags} {m m' : Machine}

theorem interrupted (h : Atop host callee a rest slot precall height m) (ha : a.isGuarded = false) :
    Interrupted host callee m := by
  have hcontrol : m.control = [a] ++ rest := h.control
  refine .intro h.within hcontrol (fun b hb => ?_) h.waits ?_ (h.precall ▸ List.suffix_refl _)
  · rwa [List.mem_singleton.mp hb]
  · have := h.size
    have := h.above
    omega

/-- Operands above the callee have changed. -/
theorem moved (h : Atop host callee a rest slot precall height m) (hm : m.SparesBelow m' slot)
    (hconfig : m'.config = m.config) (hcontrol : m'.control = m.control)
    (hprecall : m'.precall = m.precall) (hsound : m'.heap.IsSound)
    (hroom : m'.stack.size ≤ host.config.stackLimit) (habove : slot < m'.stack.size) :
    Atop host callee a rest slot precall m'.stack.size m' where
  within := h.within.spared (hm.mono h.waits.callee_le) hconfig hroom hsound
    (Nat.le_of_eq (by rw [Machine.frames, hcontrol, Machine.frames]))
  control := hcontrol.trans h.control
  waits := h.waits.spared hm
  precall := hprecall.trans h.precall
  size := rfl
  above := habove

theorem spared (h : Atop host callee a rest slot precall height m) (hm : m.Spares m') :
    Atop host callee a rest slot precall height m' := by
  have hsize : m'.stack.size = height := by rw [hm.stack, h.size]
  have hroom : m'.stack.size ≤ host.config.stackLimit := hm.stack ▸ h.within.room
  have := h.moved (hm.below _) hm.config hm.control hm.precall (hm.sound h.within.sound) hroom
    (hsize ▸ h.above)
  rwa [hsize] at this

theorem tame (ha : a.isGuarded = false) {x : Run α} (hx : Tame x) :
    Triple (Atop host callee a rest slot precall height) x (fun _ => Atop host callee a rest slot precall height)
      (Interrupted host callee) :=
  hx.triple (fun _ _ => .spared) (fun _ h => h.within.sound) fun _ h => h.interrupted ha

/-- Only operands above the callee have changed. -/
theorem restacked (h : Atop host callee a rest slot precall height m) {stack : Array Value} {height' : Nat}
    (hbelow : ∀ k < slot, stack[k]? = m.stack[k]?) (hsize : stack.size = height')
    (hroom : stack.size ≤ host.config.stackLimit) (habove : slot < height') :
    Atop host callee a rest slot precall height' { m with stack := stack } := by
  subst hsize
  have hspares : m.SparesBelow { m with stack := stack } slot := .of_stack rfl hbelow
  exact h.moved hspares rfl rfl rfl h.within.sound hroom habove

theorem push (ha : a.isGuarded = false) (v : Value) :
    Triple (Atop host callee a rest slot precall height) (Run.push v)
      (fun _ => Atop host callee a rest slot precall (height + 1)) (Interrupted host callee) := by
  refine .look fun m hm => ?_
  have hsize := hm.size
  have habove := hm.above
  split
  · exact .fail rfl fun _ h => h ▸ hm.interrupted ha
  · rename_i hroom
    rw [hm.within.config] at hroom
    refine .modify fun _ h => h ▸ hm.restacked (fun k hk => ?_) (by simp [hsize]) (by simp; omega) (by omega)
    rw [Array.getElem?_push_lt (by omega), Array.getElem?_eq_getElem (by omega)]

theorem pushAll (ha : a.isGuarded = false) (vs : List Value) (height : Nat) :
    Triple (Atop host callee a rest slot precall height) (vs.forM Run.push)
      (fun _ => Atop host callee a rest slot precall (height + vs.length)) (Interrupted host callee) := by
  induction vs generalizing height with
  | nil => exact .pure fun _ => id
  | cons v vs ih =>
    refine (push ha v).bind fun _ => (ih (height + 1)).after fun _ m hm => ?_
    rwa [List.length_cons, Nat.add_comm vs.length, ← Nat.add_assoc]

theorem popMany {n : Nat} (habove : slot < height) :
    Triple (Atop host callee a rest slot precall (height + n)) (Run.popMany n)
      (fun _ => Atop host callee a rest slot precall height) (Interrupted host callee) := by
  refine .look fun m hm => ?_
  have hsize := hm.size
  have hroom := hm.within.room
  dsimp only
  rw [if_neg (by omega)]
  refine (Triple.modify fun _ h => h ▸ hm.restacked (fun k hk => ?_) (by simp; omega) (by simp; omega) habove).bind
    (Q := fun _ => Atop host callee a rest slot precall height) fun _ => .pure fun _ => id
  simp [Array.getElem?_extract]
  omega

/-- Something else that runs no code takes the place of the innermost activation. -/
theorem become {b : Activation} (hb : b.frame? = none) :
    Triple (Atop host callee a rest slot precall height) (Run.become b)
      (fun _ => Atop host callee b rest slot precall height) (Interrupted host callee) := by
  refine .modify fun m hm => ?_
  have hspares : m.SparesBelow { m with control := b :: m.control.drop 1 } slot := .of_stack rfl fun _ _ => rfl
  refine ⟨hm.within.spared (hspares.mono hm.waits.callee_le) rfl hm.within.room hm.within.sound ?_,
    by simp [hm.control], hm.waits.spared hspares, hm.precall, hm.size, hm.above⟩
  simp only [Machine.frames, hm.control, List.drop_succ_cons, List.drop_zero, List.filterMap_cons, hb]
  split <;> simp

end Atop

-- ---------------------------------------------------------------------------
-- Completion
-- ---------------------------------------------------------------------------

/-- The machine is in the hands of a host: no activation goes on by itself. The innermost one, if there is
one, is the native function that is the host. -/
def Machine.IsIdle (m : Machine) : Prop := ∀ a ∈ m.control.head?, ∃ w, a = .native w

/-- The activations after a call is completed: a frame goes on behind the call. -/
def resumed : List Activation → List Activation
  | .script f :: rest => .script { f with ip := f.ip + 1 } :: rest
  | acts => acts

theorem resumed_of_idle {m : Machine} (h : m.IsIdle) : resumed m.control = m.control := by
  unfold resumed
  split
  · rename_i f rest heq
    obtain ⟨w, hw⟩ := h (.script f) (by simp [heq])
    cases hw
  · rfl

theorem length_frames_resumed (acts : List Activation) :
    ((resumed acts).filterMap Activation.frame?).length = (acts.filterMap Activation.frame?).length := by
  unfold resumed
  split <;> rfl

theorem complete_run (slot : Nat) (keepRef : Bool) (v : Value) (m : Machine) :
    Run.complete slot keepRef v m = .ok () { m with
      stack := (m.stack.shrink slot).push (if keepRef then v else m.heap.resolve v)
      control := resumed (m.control.drop 1) } := rfl

/-- The result takes its place, and the activation that waits for it goes on. -/
theorem Waits.resume {host m : Machine} {callee slot : Nat} {acts : List Activation}
    {precall : List RefFlags} (h : Waits host callee m acts slot precall) (hidle : host.IsIdle)
    (within : Within host callee m) (control : m.control = resumed acts) (hprecall : m.precall = precall)
    (size : m.stack.size = slot + 1) : Running host callee m := by
  cases h with
  | host => exact .done within (control.trans (resumed_of_idle hidle)) hprecall size
  | native outer above room precalls =>
    exact .answered ⟨⟨within, control, outer, hprecall, size, by omega⟩, .native outer above room precalls⟩ above
  | @script f rest slot precall own shape count height keepRef outer base fits called operands pending meets =>
    have hmem : (f.ip + 1, (shape f.ip).after f.routine (.call count keepRef)) ∈
        (shape f.ip).edges f.routine f.ip (.call count keepRef) := List.mem_singleton_self _
    obtain ⟨hip, hle⟩ := fits.assigned.edges _ _ called _ hmem
    have site : FrameSite.At ⟨host, callee, { f with ip := f.ip + 1 }, rest, slot, precall⟩
        ((shape f.ip).after f.routine (.call count keepRef)) m := by
      refine ⟨within, control, base, outer.spared ?_, ⟨own, hprecall, ?_⟩, ?_, ⟨meets.iterators, ?_⟩, nofun⟩
      · exact .of_stack rfl fun _ _ => rfl
      · simp [Shape.after, pending]
      · simp [Shape.after, operands, Instruction.pops, Instruction.pushes, size]
        omega
      · exact fun a ha => meets.pending a (List.mem_of_mem_tail ha)
    exact .executing (f := { f with ip := f.ip + 1 }) ⟨fits.sound, fits.assigned, fits.captured, fits.arity⟩ hip
      (site.weaken hle)

/-- A completed call leaves its result, and the activation that waited for it goes on. -/
theorem complete_running {host : Machine} {callee slot height : Nat} {a : Activation}
    {rest : List Activation} {precall : List RefFlags} (hidle : host.IsIdle) (keepRef : Bool) (v : Value) :
    Triple (Atop host callee a rest slot precall height) (Run.complete slot keepRef v)
      (fun _ => Running host callee) (Interrupted host callee) := by
  intro m hm
  rw [complete_run]
  have hsize := hm.size
  have habove := hm.above
  have hroom := hm.within.room
  have hspares : m.SparesBelow { m with
      stack := (m.stack.shrink slot).push (if keepRef then v else m.heap.resolve v)
      control := resumed (m.control.drop 1) } slot := by
    refine .of_stack rfl fun k hk => ?_
    rw [Array.getElem?_push_lt (by simp; omega)]
    simp
  refine (hm.waits.spared hspares).resume hidle ?_ (by rw [hm.control]; rfl) hm.precall (by simp; omega)
  refine hm.within.spared (hspares.mono hm.waits.callee_le) rfl (by simp; omega) hm.within.sound ?_
  rw [Machine.frames, length_frames_resumed, hm.control, Machine.frames, hm.control]
  exact List.Sublist.length_le (List.Sublist.filterMap _ (List.sublist_cons_self a rest))

-- ---------------------------------------------------------------------------
-- Entering
-- ---------------------------------------------------------------------------

section Entering

variable {host : Machine} {callee count slot height : Nat} {keepRef : Bool} {a : Activation}
  {rest : List Activation} {precall : List RefFlags}

theorem prepareAll_atop (ha : a.isGuarded = false) {base : Nat} (hbase : slot < base) (flags : RefFlags)
    (n : Nat) :
    Triple (Atop host callee a rest slot precall height) (Run.prepareAll base flags n)
      (fun _ => Atop host callee a rest slot precall height) (Interrupted host callee) := by
  refine .forM fun k _ => .look fun m hm => ?_
  refine ((Atop.tame ha (.prepare _ _)).before fun _ h => h ▸ hm).bind fun v => .modify fun m hm => ?_
  exact hm.restacked (fun i hi => Array.getElem?_setIfInBounds_ne (by omega)) (by simp [hm.size])
    (by simpa using hm.within.room) hm.above

/-- The frame of a closure takes the place of the call. -/
theorem Atop.frame {m : Machine}
    (h : Atop host callee (.entering count keepRef) rest slot precall (slot + 1 + count) m) {closure : Closure}
    {routine : Routine} {key : RoutineKey} (hsound : closure.IsSound)
    (hcallable : closure.callable = .script routine key) (harity : closure.arity = count)
    (hdepth : m.frames.length < host.config.callDepth) (keepRef : Bool) :
    Running host callee { m with
      control := .script
        { closure := closure, routine := routine, key := key, base := slot + 1, keepRef := keepRef } ::
          m.control.drop 1 } := by
  simp only [Closure.IsSound, hcallable] at hsound
  obtain ⟨hroutine, hcaptured, hfits⟩ := hsound
  obtain ⟨shape, hshape⟩ := (hroutine routine .self).balanced
  have hsize := h.size
  have hcontrol := h.control
  have hwithin := h.within
  simp only [Machine.frames, hcontrol] at hdepth
  refine .entered ⟨⟨hwithin.config, hwithin.room, hwithin.below, hwithin.sound, ?_⟩, by rw [hcontrol]; rfl,
    h.waits.spared (.of_stack rfl fun _ _ => rfl), h.precall, hsize, h.above⟩ rfl
    ⟨hroutine, hshape, hcaptured, hfits⟩ rfl (by simp; omega) (by simp; omega)
  simp only [Machine.frames, hcontrol, List.drop_succ_cons, List.drop_zero]
  exact hdepth

/-- What a call that has begun leads to: a native function that runs, or a frame. -/
def Begun (host : Machine) (callee : Nat) (rest : List Activation) (precall : List RefFlags) :
    Option NativeCall → Machine → Prop
  | some w, m =>
    (Activation.native w).isGuarded = false ∧ Atop host callee (.native w) rest w.slot precall (w.slot + 1) m
  | none, m => Running host callee m

theorem begin_running :
    Triple (Atop host callee (.entering count keepRef) rest slot precall (slot + 1 + count))
      (Run.begin count keepRef) (Begun host callee rest precall) (Interrupted host callee) := by
  refine .look fun m hm => ?_
  have hsize := hm.size
  have hslot : m.stack.size - 1 - count = slot := by omega
  dsimp only
  rw [if_neg (by omega), hslot]
  refine (Triple.lift (m.heap.dispatch_harmless _ _) fun _ h => h ▸ hm.interrupted rfl).bind fun closure =>
    .given fun hclosure => ?_
  obtain ⟨hsound, harity⟩ := Heap.dispatch_isSound hm.within.sound hclosure
  rw [Array.size_extract, Nat.min_self, hsize, Nat.add_sub_cancel_left] at harity
  refine ((prepareAll_atop rfl (Nat.lt_succ_self slot) _ _).before fun _ h => h ▸ hm).bind fun _ => ?_
  split
  · refine (Atop.popMany (Nat.lt_succ_self slot)).bind fun args => (Atop.become rfl).bind fun _ => ?_
    exact .pure fun m hm => ⟨rfl, hm⟩
  · rename_i hcallable
    split
    · exact .fail rfl fun _ h => h.interrupted rfl
    · rename_i hdepth
      rw [hm.within.config, Machine.frames, hm.control] at hdepth
      refine (Triple.modify fun m hm => ?_).bind (Q := fun _ => Running host callee) fun _ => .pure fun _ => id
      exact hm.frame hsound hcallable harity (by rw [Machine.frames, hm.control]; omega) _

-- ---------------------------------------------------------------------------
-- Native functions
-- ---------------------------------------------------------------------------

/-- A native function waits for a call that it makes. -/
theorem askNative_running {w : NativeCall} (hw : (Activation.native w).isGuarded = false) (function : Value)
    (args : Array Value) (guarded : Bool) :
    Triple (Atop host callee (.native w) rest w.slot precall (w.slot + 1))
      (Run.continueNative w (.call function args guarded)) (fun _ => Running host callee)
      (Interrupted host callee) := by
  obtain ⟨items⟩ := args
  refine .look fun m hm => ?_
  have hsize := hm.size
  rw [List.forM_toArray' _ _ rfl]
  refine ((Atop.push hw function).before fun _ h => h ▸ hm).bind fun _ => ?_
  refine (Atop.pushAll hw items _).bind fun _ => (Atop.become rfl).bind fun _ => .modify fun m' h => ?_
  have hsize' := h.size
  have hroom := h.within.room
  have hspares : m'.SparesBelow { m' with control := .entering items.length false :: m'.control }
      m'.stack.size := .of_stack rfl fun _ _ => rfl
  have hcallee := h.waits.callee_le
  let waiting : NativeCall :=
    { w with inner := m.stack.size, precalls := m.precall.length, guarded := guarded }
  have hwaits : Waits host callee { m' with control := .entering items.length false :: m'.control }
      (.native waiting :: rest) waiting.inner precall :=
    .native (h.waits.spared (hspares.mono (by omega))) (by simp [waiting]; omega) (by simp [waiting]; omega)
      (congrArg List.length hm.precall)
  refine .entering ⟨?_, congrArg (Activation.entering items.length false :: ·) h.control, hwaits, h.precall,
    ?_, by omega⟩
  · exact h.within.spared (hspares.mono (by omega)) rfl hroom h.within.sound (Nat.le_refl _)
  · simp [waiting]
    omega

/-- A native function has answered: its call is complete, or it waits for one that it makes. -/
theorem continueNative_running (hidle : host.IsIdle) {w : NativeCall}
    (hw : (Activation.native w).isGuarded = false) (reply : Reply) :
    Triple (Atop host callee (.native w) rest w.slot precall (w.slot + 1)) (Run.continueNative w reply)
      (fun _ => Running host callee) (Interrupted host callee) := by
  cases reply with
  | value v => exact complete_running hidle w.keepRef v
  | call function args guarded => exact askNative_running hw function args guarded

theorem Resuming.spared {w : NativeCall} {m m' : Machine} (h : Resuming host callee w rest precall height m)
    (hm : m.Spares m') : Resuming host callee w rest precall height m' :=
  ⟨h.atop.spared hm, h.waits.spared (hm.below _)⟩

/-- The function still waits for its result while it makes something of it. -/
theorem Resuming.interrupted {w : NativeCall} {m : Machine}
    (h : Resuming host callee w rest precall height m) (hheight : w.inner ≤ height) :
    Interrupted host callee m := by
  have hcontrol : m.control = [] ++ .native w :: rest := h.atop.control
  refine .intro h.atop.within hcontrol (by simp) h.waits (h.atop.size ▸ hheight) ?_
  exact h.atop.precall ▸ List.suffix_refl _

theorem pop_resuming {w : NativeCall} (above : w.slot < w.inner) :
    Triple (Resuming host callee w rest precall (w.inner + 1)) Run.pop
      (fun _ => Resuming host callee w rest precall w.inner) (Interrupted host callee) := by
  refine .look fun m ⟨hatop, hwaits⟩ => ?_
  have hsize := hatop.size
  have hroom := hatop.within.room
  have hbelow : ∀ k < w.inner, m.stack.pop[k]? = m.stack[k]? := by
    intro k hk
    rw [Array.getElem?_pop, if_pos (by omega)]
  split
  · refine (Triple.modify fun _ h => ?_).bind
      (Q := fun _ => Resuming host callee w rest precall w.inner) fun _ => .pure fun _ => id
    rw [h]
    exact ⟨hatop.restacked (fun k hk => hbelow k (by omega)) (by simp; omega) (by simp; omega) above,
      hwaits.spared (.of_stack rfl hbelow)⟩
  · rename_i hempty
    rw [Array.back?_eq_none_iff] at hempty
    simp [hempty] at hsize

/-- A native function goes on with the result of the call it waited for. -/
theorem resumeNative_running (hidle : host.IsIdle) {w : NativeCall} (above : w.slot < w.inner) :
    Triple (Resuming host callee w rest precall (w.inner + 1)) (Run.resumeNative w)
      (fun _ => Running host callee) (Interrupted host callee) := by
  refine (pop_resuming above).bind fun v => ?_
  split
  · refine ((Tame.newList _).triple (fun _ _ h hm => h.spared hm) (fun _ h => h.atop.within.sound)
      fun _ h => h.interrupted (Nat.le_refl _)).bind fun pair => ?_
    exact (complete_running hidle w.keepRef pair).before fun _ h => h.atop
  · exact (complete_running hidle w.keepRef v).before fun _ h => h.atop

end Entering

end Rill
