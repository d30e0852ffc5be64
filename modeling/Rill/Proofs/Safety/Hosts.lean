-- SUMMARY: Calls of a host leave its part of the machine alone, and running scripts stay within all limits.
import Rill.Proofs.Runs.Outcomes
import Rill.Proofs.Safety.Running

/-!
# Calls of a host

A host makes a machine, computes with values, pushes and pops them, and calls functions. A native function
that a script has called is a host, too. Whatever becomes of a call, what the host had below the callee
stays; and while a script runs, operand stack and frames stay within the limits, and no instruction fails
because code and machine do not fit together.
-/

namespace Rill

-- ---------------------------------------------------------------------------
-- Reachable machines
-- ---------------------------------------------------------------------------

/-- The machine after a computation, whether it fails or not. -/
def Run.leaves (x : Run α) (m : Machine) : Machine :=
  match x m with
  | .ok _ m' | .error _ m' => m'

/-- A host can come to have the machine. It starts with an empty one in some configuration and
surroundings, and computes: what it registers, loads or makes of values leaves operand stack and
activations alone. It pushes within the limit and pops, and makes calls. A native function that has been called gets the
machine when its arguments have been taken from the stack. -/
inductive Machine.Arises : Machine → Prop
  | start (config : Config) (files : Files.Tree) (input : List Char) (home : Option String) (seed : UInt64) :
      Arises { config := config, files := files, input := input, home := home, seed := seed }
  | compute {m : Machine} {x : Run α} (before : Arises m) (tame : Tame x) : Arises (x.leaves m)
  | push {m : Machine} (before : Arises m) (v : Value) (room : m.stack.size < m.config.stackLimit) :
      Arises { m with stack := m.stack.push v }
  | pop {m : Machine} (before : Arises m) : Arises { m with stack := m.stack.pop }
  | called {m after : Machine} {steps count : Nat} {mustBeClass guarded : Bool} (before : Arises m)
      (call : Run.hostCall steps count mustBeClass guarded m = .ok true after) : Arises after
  | failed {m after : Machine} {steps count : Nat} {mustBeClass guarded : Bool} {e : Failure}
      (before : Arises m) (call : Run.hostCall steps count mustBeClass guarded m = .error e after) :
      Arises after
  | native {m during inside : Machine} {ended : Bool} {steps count args : Nat} {mustBeClass keepRef : Bool}
      {rest : List Activation} {w : NativeCall} (before : Arises m) (fits : count < m.stack.size)
      (run : Run.callPushed steps count mustBeClass m = .ok ended during)
      (control : during.control = .entering args keepRef :: rest)
      (began : Run.begin args keepRef during = .ok (some w) inside) : Arises inside

/-- A machine in the hands of a host. -/
structure Machine.IsStanding (m : Machine) : Prop where
  sound : m.heap.IsSound
  room : m.stack.size ≤ m.config.stackLimit
  idle : m.IsIdle
  depth : m.frames.length ≤ m.config.callDepth

-- ---------------------------------------------------------------------------
-- Calls
-- ---------------------------------------------------------------------------

section Calls

variable {m : Machine} {count : Nat}

theorem Machine.IsStanding.within (h : m.IsStanding) (callee : Nat) : Within m callee m :=
  ⟨rfl, h.room, fun _ _ => rfl, h.sound, h.depth⟩

/-- A call that a host has pushed is one that is entered. -/
theorem Machine.IsStanding.entering (h : m.IsStanding) (hcount : count < m.stack.size) :
    Running m (m.stack.size - 1 - count) { m with control := .entering count false :: m.control } := by
  have hwithin := h.within (m.stack.size - 1 - count)
  have hspares : m.SparesBelow { m with control := .entering count false :: m.control } (m.stack.size - 1 - count) :=
    .of_stack rfl fun _ _ => rfl
  refine .entering ⟨hwithin.spared hspares rfl h.room h.sound (Nat.le_refl _), rfl, .host, rfl, ?_, ?_⟩
  · simp only
    omega
  · omega

/-- A call that a host makes runs until it is over or fails. -/
theorem callPushed_running (h : m.IsStanding) (hcount : count < m.stack.size) (steps : Nat)
    (mustBeClass : Bool) :
    Triple (· = m) (Run.callPushed steps count mustBeClass)
      (fun ended after => Running m (m.stack.size - 1 - count) after ∧
        (ended = true → after.control.length ≤ m.control.length))
      (Interrupted m (m.stack.size - 1 - count)) := by
  refine .look fun x hx => ?_
  obtain rfl := hx.symm
  refine .ite (fun _ => ?_) fun _ => ?_
  · have hcontrol : m.control = [] ++ m.control := rfl
    refine .fail rfl fun x hx => ?_
    obtain rfl := hx.symm
    exact .intro (h.within _) hcontrol (by simp) .host (by omega) (List.suffix_refl _)
  · refine (Triple.modify fun x hx => ?_).bind (Q := fun _ => Running m (m.stack.size - 1 - count)) fun _ =>
      attempts_running h.idle steps
    obtain rfl := hx.symm
    exact h.entering hcount

/-- The second machine has what the first one had on its operand stack below a slot, its activations, and
the reference flags it had recorded. -/
structure Machine.Keeps (m m' : Machine) (slot : Nat) : Prop where
  stack : ∀ k < slot, m'.stack[k]? = m.stack[k]?
  control : m'.control = m.control
  frames : m'.frames = m.frames
  precall : m'.precall = m.precall

theorem Machine.IsStanding.of_keeps {m' : Machine} {slot : Nat} (h : m.IsStanding) (hk : m.Keeps m' slot)
    (hconfig : m'.config = m.config) (hsound : m'.heap.IsSound)
    (hroom : m'.stack.size ≤ m.config.stackLimit) : m'.IsStanding where
  sound := hsound
  room := hconfig ▸ hroom
  idle := fun a ha => h.idle a (hk.control ▸ ha)
  depth := by
    rw [hk.frames, hconfig]
    exact h.depth

/-- What is left of a call that has failed is taken away. -/
theorem Interrupted.keeps {host : Machine} {callee : Nat} (h : Interrupted host callee m)
    {stack : Array Value} (hstack : ∀ k < callee, stack[k]? = m.stack[k]?) :
    host.Keeps { (m.forgetPrecalls host.precall.length).forgetActivations host.control.length with
      stack := stack } callee := by
  obtain ⟨hwithin, hcontrol, -, hwaits, -, hsuffix⟩ := h
  have hacts : host.control <:+ m.control :=
    hcontrol ▸ hwaits.control_suffix.trans (List.suffix_append _ _)
  have hkept : m.control.drop (m.control.length - host.control.length) = host.control :=
    (List.suffix_iff_eq_drop.mp hacts).symm
  refine ⟨fun k hk => (hstack k hk).trans (hwithin.below k hk), hkept,
    congrArg (List.filterMap Activation.frame?) hkept, ?_⟩
  exact (List.suffix_iff_eq_drop.mp (hwaits.precall_suffix.trans hsuffix)).symm

/-- A call that is over has its result in the place of callee and arguments. -/
theorem Running.keeps {host : Machine} {callee : Nat} (h : Running host callee m)
    (hover : m.control.length ≤ host.control.length) :
    host.Keeps m callee ∧ m.stack.size = callee + 1 := by
  have habsurd {a : Activation} {rest : List Activation} {slot height : Nat} {precall : List RefFlags}
      (hatop : Atop host callee a rest slot precall height m) : False := by
    have := hatop.waits.control_suffix.length_le
    rw [hatop.control, List.length_cons] at hover
    omega
  cases h with
  | done within control precall size =>
    refine ⟨⟨within.below, control, ?_, precall⟩, size⟩
    rw [Machine.frames, control, Machine.frames]
  | entering atop => exact (habsurd atop).elim
  | answered resuming => exact (habsurd resuming.atop).elim
  | entered atop => exact (habsurd atop).elim
  | executing fits inside site =>
    have hle := site.waits.control_suffix.length_le
    have hcontrol := site.control
    simp only at hle hcontrol
    rw [hcontrol, List.length_cons] at hover
    omega

/-- What becomes of a call that a host makes with its callee in the stack slot `callee`. -/
def Machine.CallEnds (m : Machine) (callee : Nat) (guarded : Bool) : EStateM.Result Failure Machine Bool → Prop
  | .ok ended after => ended = true → m.Keeps after callee ∧ after.stack.size = callee + 1
  | .error e after =>
    m.Keeps after callee ∧
      if guarded then after.stack.size = callee + 1 ∧ after.stack.back? = some (.text e.headline)
      else after.stack.size = callee

theorem hostCall_underflow (h : ¬count < m.stack.size) {steps : Nat} {mustBeClass guarded : Bool} :
    Run.hostCall steps count mustBeClass guarded m = .error Fault.stackUnderflow.failure m := by
  unfold Run.hostCall
  rw [if_pos (by omega)]

theorem hostCall_ok {steps : Nat} {mustBeClass guarded ended : Bool} {after : Machine}
    (h : Run.hostCall steps count mustBeClass guarded m = .ok ended after) :
    Run.callPushed steps count mustBeClass m = .ok ended after := by
  unfold Run.hostCall at h
  split at h
  · cases h
  · split at h <;> cases h
    assumption

theorem hostCall_error (hcount : count < m.stack.size) {steps : Nat} {mustBeClass guarded : Bool}
    {e : Failure} {after : Machine} (h : Run.hostCall steps count mustBeClass guarded m = .error e after) :
    ∃ interrupted, Run.callPushed steps count mustBeClass m = .error e interrupted := by
  unfold Run.hostCall at h
  rw [if_neg (by omega)] at h
  split at h <;> cases h
  exact ⟨_, ‹_›⟩

theorem hostCall_ends (h : m.IsStanding) (hcount : count < m.stack.size) (steps : Nat)
    (mustBeClass guarded : Bool) :
    m.CallEnds (m.stack.size - 1 - count) guarded (Run.hostCall steps count mustBeClass guarded m) := by
  have hrun := callPushed_running h hcount steps mustBeClass m rfl
  unfold Run.hostCall
  rw [if_neg (by omega)]
  cases hcall : Run.callPushed steps count mustBeClass m with
  | ok ended after =>
    simp only [hcall] at hrun ⊢
    exact fun hover => hrun.1.keeps (hrun.2 hover)
  | error e after =>
    simp only [hcall] at hrun ⊢
    have hsize := hrun.1.callee_le
    refine ⟨hrun.1.keeps fun k hk => ?_, ?_⟩
    · have hbelow : (after.stack.shrink (m.stack.size - 1 - count))[k]? = after.stack[k]? := by
        simp [Array.getElem?_extract]
        omega
      cases guarded
      · exact hbelow
      · have hin : k < (after.stack.shrink (m.stack.size - 1 - count)).size := by
          simp
          omega
        exact (Array.getElem?_push_lt hin).trans ((Array.getElem?_eq_getElem hin).symm.trans hbelow)
    · cases guarded
      · simp [Machine.forgetPrecalls, Machine.forgetActivations]
        omega
      · simp [Machine.forgetPrecalls, Machine.forgetActivations]
        omega

/-- The machine after a call has the configuration of the host, sound code, and room for more. -/
theorem hostCall_within (h : m.IsStanding) (hcount : count < m.stack.size) (steps : Nat)
    (mustBeClass guarded : Bool) :
    let after := (Run.hostCall steps count mustBeClass guarded).leaves m
    after.config = m.config ∧ after.heap.IsSound ∧ after.stack.size ≤ m.config.stackLimit := by
  have hrun := callPushed_running h hcount steps mustBeClass m rfl
  unfold Run.leaves Run.hostCall
  rw [if_neg (by omega)]
  cases hcall : Run.callPushed steps count mustBeClass m with
  | ok ended after =>
    simp only [hcall] at hrun ⊢
    have hwithin := hrun.1.interrupted.within
    exact ⟨hwithin.config, hwithin.sound, hwithin.room⟩
  | error e after =>
    simp only [hcall] at hrun ⊢
    have hwithin := hrun.1.within
    have hroom := h.room
    refine ⟨hwithin.config, hwithin.sound, ?_⟩
    split
    · simp
      omega
    · simp
      omega

theorem Machine.IsStanding.spared {m' : Machine} (h : m.IsStanding) (hm : m.Spares m') : m'.IsStanding where
  sound := hm.sound h.sound
  room := by
    rw [hm.stack, hm.config]
    exact h.room
  idle := fun a ha => h.idle a (hm.control ▸ ha)
  depth := by
    rw [Machine.frames, hm.control, hm.config]
    exact h.depth

/-- A call that is about to be entered has its callee and arguments on top of the stack. -/
theorem Running.entering_atop {host : Machine} {callee args : Nat} {keepRef : Bool}
    {rest : List Activation} (h : Running host callee m) (hidle : host.IsIdle)
    (hcontrol : m.control = .entering args keepRef :: rest) :
    ∃ slot precall, Atop host callee (.entering args keepRef) rest slot precall (slot + 1 + args) m := by
  cases h with
  | done _ control =>
    obtain ⟨w, hw⟩ := hidle (.entering args keepRef) (by simp [← control, hcontrol])
    cases hw
  | entering atop =>
    cases hcontrol.symm.trans atop.control
    exact ⟨_, _, atop⟩
  | answered resuming => cases hcontrol.symm.trans resuming.atop.control
  | entered atop => cases hcontrol.symm.trans atop.control
  | executing _ _ site => cases hcontrol.symm.trans site.control

/-- Whatever a host has done, it has a machine in its hands. -/
theorem Machine.Arises.standing (h : m.Arises) : m.IsStanding := by
  induction h with
  | start config files input home seed =>
    refine ⟨fun id c hc => ?_, Nat.zero_le _, by simp [Machine.IsIdle], Nat.zero_le _⟩
    simp [Heap.content?, Heap.object?] at hc
  | @compute α m x before tame ih =>
    have := tame m ih.sound
    unfold Run.leaves
    cases hx : x m with
    | ok _ m' =>
      simp only [hx] at this
      exact ih.spared this
    | error _ m' =>
      simp only [hx] at this
      exact ih.spared this.1
  | push before v room ih => exact ⟨ih.sound, by simp; omega, ih.idle, ih.depth⟩
  | pop before ih => exact ⟨ih.sound, by have := ih.room; simp; omega, ih.idle, ih.depth⟩
  | @called m after steps count mustBeClass guarded before call ih =>
    have hcount : count < m.stack.size := by
      by_contra hcount
      rw [hostCall_underflow hcount] at call
      cases call
    have hends := hostCall_ends ih hcount steps mustBeClass guarded
    have hwithin := hostCall_within ih hcount steps mustBeClass guarded
    simp only [call, Run.leaves] at hends hwithin
    exact ih.of_keeps (hends rfl).1 hwithin.1 hwithin.2.1 hwithin.2.2
  | @failed m after steps count mustBeClass guarded e before call ih =>
    by_cases hcount : count < m.stack.size
    · have hends := hostCall_ends ih hcount steps mustBeClass guarded
      have hwithin := hostCall_within ih hcount steps mustBeClass guarded
      simp only [call, Run.leaves] at hends hwithin
      exact ih.of_keeps hends.1 hwithin.1 hwithin.2.1 hwithin.2.2
    · rw [hostCall_underflow hcount] at call
      cases call
      exact ih
  | @native m during inside ended steps count args mustBeClass keepRef rest w before fits run control began ih =>
    have hrun := callPushed_running ih fits steps mustBeClass m rfl
    rw [run] at hrun
    obtain ⟨slot, precall, hatop⟩ := hrun.1.entering_atop ih.idle control
    have hbegun := begin_running during hatop
    rw [began] at hbegun
    obtain ⟨-, hinside⟩ := hbegun
    have hwithin := hinside.within
    exact ⟨hwithin.sound, hwithin.config ▸ hwithin.room, by simp [Machine.IsIdle, hinside.control],
      hwithin.config ▸ hwithin.depth⟩

end Calls

-- ---------------------------------------------------------------------------
-- Limits
-- ---------------------------------------------------------------------------

/-- The operand stack and the frames are within the limits, and all slots of frames exist. -/
structure Machine.IsSafe (m : Machine) : Prop where
  room : m.stack.size ≤ m.config.stackLimit
  depth : m.frames.length ≤ m.config.callDepth
  slots : ∀ f ∈ m.frames, f.base + f.slots ≤ m.stack.size

/-- If the fault is an internal one, there were too many operands or calls, or containers were compared that
contain themselves. -/
def Fault.IsOrdinary (f : Fault) : Prop := f.category = .internal → f = .stackOverflow ∨ f = .endless

theorem Fault.isOrdinary_of_not_isDefect {f : Fault} (h : f.isDefect = false) : f.IsOrdinary :=
  fun hcategory => f.internal_cases hcategory h

section Limits

variable {host m : Machine} {callee : Nat}

theorem Within.isSafe (h : Within host callee m) (hslots : ∀ f ∈ m.frames, f.base + f.slots ≤ m.stack.size) :
    m.IsSafe :=
  ⟨h.config ▸ h.room, h.config ▸ h.depth, hslots⟩

/-- All slots of the frames that a call has made exist. -/
theorem Running.isSafe (h : Running host callee m) (hhost : host.frames = []) : m.IsSafe := by
  refine h.interrupted.within.isSafe ?_
  have hrest {acts : List Activation} {slot : Nat} {precall : List RefFlags}
      (hwaits : Waits host callee m acts slot precall) (hslot : slot ≤ m.stack.size) :
      ∀ f ∈ acts.filterMap Activation.frame?, f.base + f.slots ≤ m.stack.size := by
    intro f hf
    have := (hwaits.slots f hf).resolve_left (by simp [hhost])
    omega
  cases h with
  | done within control =>
    intro f hf
    rw [Machine.frames, control] at hf
    rw [Machine.frames] at hhost
    simp [hhost] at hf
  | entering atop =>
    have hsize := atop.size
    rw [Machine.frames, atop.control]
    exact fun f hf => hrest atop.waits (by omega) f hf
  | answered resuming above =>
    have hsize := resuming.atop.size
    rw [Machine.frames, resuming.atop.control]
    exact fun f hf => hrest resuming.atop.waits (by omega) f hf
  | @entered f _ _ _ _ _ atop base fits start arguments room =>
    rw [Machine.frames, atop.control]
    intro g hg
    rcases List.mem_cons.mp hg with rfl | hg
    · rw [Frame.slots, if_pos start, atop.size]
      exact arguments
    · exact hrest atop.waits (by have := atop.size; have := atop.above; omega) g hg
  | @executing f rest slot precall shape fits inside site =>
    have hsize : m.stack.size = f.base + f.routine.frameSize + (shape f.ip).operands := site.size
    have hbase : f.base = slot + 1 := site.base
    rw [Machine.frames, site.control]
    intro g hg
    rcases List.mem_cons.mp hg with rfl | hg
    · have := fits.slots_le
      omega
    · exact hrest site.waits (show slot ≤ m.stack.size by omega) g hg

end Limits

theorem step_nil {m : Machine} (h : m.control = []) : Run.step m = .ok () m := by
  rw [Run.step, Run.bind_get, h]
  rfl

/-- While a call runs that is made when no other one does, the machine is within its limits, and no
instruction fails because code and machine do not fit together. -/
theorem call_safe {m : Machine} (h : m.Arises) (hcontrol : m.control = []) {count : Nat}
    (hcount : count < m.stack.size) (steps : Nat) (mustBeClass guarded : Bool) :
    match Run.hostCall steps count mustBeClass guarded m with
    | .ok _ after => after.IsSafe ∧ ∀ e after', Run.step after = .error e after' → e.fault.IsOrdinary
    | .error e after => after.IsSafe ∧ e.fault.IsOrdinary := by
  have hrun := callPushed_running h.standing hcount steps mustBeClass m rfl
  have hframes : m.frames = [] := by
    rw [Machine.frames, hcontrol]
    rfl
  cases hcall : Run.hostCall steps count mustBeClass guarded m with
  | ok ended after =>
    rw [hostCall_ok hcall] at hrun
    refine ⟨hrun.1.isSafe hframes, fun e after' hstep => Fault.isOrdinary_of_not_isDefect ?_⟩
    by_cases hover : after.control.length ≤ m.control.length
    · have hdone : after.control = [] := (hrun.1.keeps hover).1.control.trans hcontrol
      rw [step_nil hdone] at hstep
      cases hstep
    · have := step_running h.standing.idle after ⟨hrun.1, Nat.lt_of_not_le hover⟩
      rw [hstep] at this
      exact this.2
  | error e after =>
    obtain ⟨interrupted, hpushed⟩ := hostCall_error hcount hcall
    rw [hpushed] at hrun
    have hends := hostCall_ends h.standing hcount steps mustBeClass guarded
    have hwithin := hostCall_within h.standing hcount steps mustBeClass guarded
    simp only [hcall, Run.leaves] at hends hwithin
    have hafter := h.standing.of_keeps hends.1 hwithin.1 hwithin.2.1 hwithin.2.2
    refine ⟨⟨hafter.room, hafter.depth, ?_⟩, Fault.isOrdinary_of_not_isDefect hrun.2⟩
    rw [hends.1.frames, hframes]
    simp

theorem push_ok {m m' : Machine} {v : Value} (h : Run.push v m = .ok () m') :
    m.stack.size < m.config.stackLimit ∧ m' = { m with stack := m.stack.push v } := by
  change (if m.stack.size ≥ m.config.stackLimit then (Run.fail .stackOverflow >>= fun _ : PUnit => Run.put v)
    else Run.put v) m = .ok () m' at h
  split at h
  · cases h
  · cases h
    exact ⟨by omega, rfl⟩

/-- While a source text runs, on whatever machine, that machine is within its limits, and no instruction
fails because code and machine do not fit together. -/
theorem script_safe {m loaded : Machine} (h : m.Arises) (hcontrol : m.control = []) {file source : String}
    (hload : (do Run.push (← Run.loadText file source)) m = .ok () loaded) (steps : Nat) (guarded : Bool) :
    match Run.hostCall steps 0 false guarded loaded with
    | .ok _ after => after.IsSafe ∧ ∀ e after', Run.step after = .error e after' → e.fault.IsOrdinary
    | .error e after => after.IsSafe ∧ e.fault.IsOrdinary := by
  have hload' : EStateM.bind (Run.loadText file source) Run.push m = .ok () loaded := hload
  unfold EStateM.bind at hload'
  split at hload'
  · rename_i v compiled hcompiled
    have htame : Tame (Run.loadText file source) := .loadText file source
    have hcompiledArises : compiled.Arises := by
      have := h.compute htame
      rwa [Run.leaves, hcompiled] at this
    have hspares := htame m h.standing.sound
    rw [hcompiled] at hspares
    obtain ⟨hroom, rfl⟩ := push_ok hload'
    exact call_safe (hcompiledArises.push v hroom) (hspares.control.trans hcontrol) (by simp) steps false guarded
  · cases hload'

/-- A text that calls a function of itself in a loop. -/
def loopingText : String :=
  "function twice(f, x)\n return f(f(x))\nend\nforeach i in [1, 2] do\n print twice(function(x) return x + i end, i)\nend"

theorem script_safe_looping : ∃ m loaded : Machine, m.Arises ∧ m.control = [] ∧
    (do Run.push (← Run.loadText "looping.rill" loopingText)) m = .ok () loaded ∧
    ∀ steps, match Run.hostCall steps 0 false true loaded with
      | .ok _ after => after.IsSafe ∧ ∀ e after', Run.step after = .error e after' → e.fault.IsOrdinary
      | .error e after => after.IsSafe ∧ e.fault.IsOrdinary := by
  have hrun : Ends (do Run.push (← Run.loadText "looping.rill" loopingText)) { config := {} } (fun _ _ => True)
      fun _ => False := by
    decide +kernel
  obtain ⟨_, loaded, h, -⟩ := hrun.exists_ok
  have hstart : Machine.Arises { config := {} } := .start {} {} [] none 0
  exact ⟨_, loaded, hstart, rfl, h, fun steps => script_safe hstart rfl h steps true⟩

end Rill
