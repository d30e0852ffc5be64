-- SUMMARY: A failure reaches the caller with the line of the innermost frame and a trace of all active ones.
import Rill.Proofs.Layout.Lines
import Rill.Proofs.Loops.Control

/-!
# Positions of failures

A failure gets its position where it is raised: the line that the innermost frame is at, and an entry for every
active frame. The step that fails has left the frames as they were, each at the instruction it executes, and
all but the innermost one at a call. From there on the failure goes to the caller as it is, unless a guarded
call takes it.
-/

namespace Rill

-- ---------------------------------------------------------------------------
-- Frames and entries of traces
-- ---------------------------------------------------------------------------

/-- The frame executes a call. -/
def Frame.IsCalling (f : Frame) : Prop := ∃ count keepRef, f.routine.Has f.ip (.call count keepRef)

/-- The entry of a trace shows the frame: the name and the file of its routine, and the line of the instruction
that it executes, which is the one that the instruction was emitted with. -/
structure Frame.ShownAs (f : Frame) (entry : TraceFrame) : Prop where
  name : entry.name = f.routine.name
  file : entry.file = f.routine.file
  line : entry.line = f.routine.code.lineAt f.ip
  emitted : ∀ lines, f.routine.code.Emitted lines → lines[f.ip]? = some entry.line

/-- What becomes of a failure that is raised while frames are active, the innermost one first. One that has a
position stays as it is, and so does one that is raised outside of all frames. Any other one gets the position
of the innermost frame and a trace of all of them. -/
inductive Failure.ReachesAs (raised : Failure) (frames : List Frame) : Failure → Prop
  | kept (h : raised.line.isSome ∨ frames = []) : ReachesAs raised frames raised
  | placed {entry : TraceFrame} {outer : List TraceFrame} (bare : raised.line = none)
      (shown : List.Forall₂ Frame.ShownAs frames (entry :: outer)) :
      ReachesAs raised frames
        { raised with line := some entry.line, file := some entry.file, trace := entry :: outer }

/-- How a trace shows the frame. -/
def Frame.entry (f : Frame) : TraceFrame := ⟨f.routine.name, f.routine.file, f.routine.code.lineAt f.ip⟩

theorem Frame.shownAs_entry {f : Frame} (h : f.ip < f.routine.code.size) : f.ShownAs f.entry :=
  ⟨rfl, rfl, rfl, fun _ hlines => hlines.lineAt h⟩

theorem Frame.ShownAs.eq {f : Frame} {entry : TraceFrame} (h : f.ShownAs entry) : entry = f.entry := by
  cases entry
  simp only [Frame.entry, TraceFrame.mk.injEq]
  exact ⟨h.name, h.file, h.line⟩

/-- The frames have one trace only. -/
theorem trace_eq {frames : List Frame} {entries : List TraceFrame} (h : List.Forall₂ Frame.ShownAs frames entries) :
    entries = frames.map Frame.entry := by
  induction h with
  | nil => rfl
  | cons hf _ ih => rw [hf.eq, ih, List.map_cons]

theorem shown_trace {frames : List Frame} (h : ∀ f ∈ frames, f.ip < f.routine.code.size) :
    List.Forall₂ Frame.ShownAs frames (frames.map Frame.entry) := by
  rw [List.forall₂_map_right_iff, List.forall₂_same]
  exact fun f hf => Frame.shownAs_entry (h f hf)

/-- What the machine makes of a failure is what reaches the caller. -/
theorem reachesAs_iff {m : Machine} {raised e : Failure} (h : ∀ f ∈ m.frames, f.ip < f.routine.code.size) :
    raised.ReachesAs m.frames e ↔ e = m.locate raised := by
  unfold Machine.locate
  constructor
  · rintro (hkept | ⟨hbare, hshown⟩)
    · rcases hkept with hline | hnone
      · obtain ⟨line, hline⟩ := Option.isSome_iff_exists.mp hline
        simp [hline]
      · simp [hnone]
    · have htrace := trace_eq hshown
      cases hframes : m.frames with
      | nil => simp [hframes] at htrace
      | cons f frames =>
        rw [hframes, List.map_cons, List.cons.injEq] at htrace
        obtain ⟨rfl, rfl⟩ := htrace
        simp [hbare, Machine.trace, hframes, Frame.entry]
  · rintro rfl
    split
    · next f frames hbare hframes =>
      have hshown := shown_trace h
      rw [hframes, List.map_cons] at hshown
      simp only [Machine.trace, hframes, List.map_cons]
      exact .placed hbare hshown
    · next hnot =>
      refine .kept ?_
      cases hline : raised.line with
      | some line => exact .inl rfl
      | none =>
        cases hframes : m.frames with
        | nil => exact .inr rfl
        | cons f frames => exact absurd hframes (hnot f frames hline)

-- ---------------------------------------------------------------------------
-- Steps that fail
-- ---------------------------------------------------------------------------

/-- The second machine has the frames of the first one, and its activations are guarded where those of the first
one are. -/
structure Machine.Stands (m m' : Machine) : Prop where
  frames : m'.frames = m.frames
  guards : m'.control.map Activation.isGuarded = m.control.map Activation.isGuarded

/-- None of the activations that began since there were `outer` waits for a guarded call. -/
def Machine.IsUnguarded (m : Machine) (outer : Nat) : Prop :=
  ∀ a ∈ m.control.take (m.control.length - outer), a.isGuarded = false

namespace Machine

variable {m m' : Machine}

theorem Stands.of_control (h : m'.control = m.control) : m.Stands m' :=
  ⟨by rw [Machine.frames, h, Machine.frames], by rw [h]⟩

/-- Something else has taken the place of the innermost activation. -/
theorem Stands.replaced {a b : Activation} {rest : List Activation} (hm : m.control = a :: rest)
    (hm' : m'.control = b :: rest) (hframe : b.frame? = a.frame?) (hguard : b.isGuarded = a.isGuarded) :
    m.Stands m' := by
  refine ⟨?_, ?_⟩
  · simp only [Machine.frames, hm, hm', List.filterMap_cons, hframe]
  · simp only [hm, hm', List.map_cons, hguard]

theorem Stands.isUnguarded (h : m.Stands m') (outer : Nat) : m'.IsUnguarded outer ↔ m.IsUnguarded outer := by
  have hlength : m'.control.length = m.control.length := by simpa using congrArg List.length h.guards
  have hall (m : Machine) (n : Nat) :
      (∀ a ∈ m.control.take n, a.isGuarded = false) ↔ ∀ g ∈ (m.control.map Activation.isGuarded).take n, g = false := by
    rw [← List.map_take, List.forall_mem_map]
  rw [IsUnguarded, IsUnguarded, hall, hall, h.guards, hlength]

/-- A failure is taken if and only if a guarded call waits. -/
theorem recover_eq_none {outer : Nat} (houter : outer ≤ m.control.length) (e : Failure) :
    m.recover outer e = none ↔ m.IsUnguarded outer := by
  let begun := m.control.take (m.control.length - outer)
  let host := m.control.drop (m.control.length - outer)
  have hcontrol : m.control = begun ++ host := (List.take_append_drop _ _).symm
  have hhost : host.length = outer := by simp [host]; omega
  unfold recover
  constructor
  · intro hnone a ha
    by_contra hguarded
    -- The innermost guarded call is among the activations that began.
    have hfound : begun.dropWhile (!·.isGuarded) ≠ [] := by
      simp only [ne_eq, List.dropWhile_eq_nil_iff, not_forall]
      exact ⟨a, ha, by simpa using hguarded⟩
    obtain ⟨b, inner, hinner⟩ := List.exists_cons_of_ne_nil hfound
    have hb : b.isGuarded = true := by
      have := List.head_dropWhile_not (fun a : Activation => !a.isGuarded) hfound
      simpa [hinner] using this
    rw [hcontrol, List.dropWhile_append, if_neg (by simp [hinner]), hinner] at hnone
    cases b with
    | native w => simp [hhost] at hnone
    | script | entering => cases hb
  · intro hall
    have hskip : m.control.dropWhile (!·.isGuarded) = host.dropWhile (!·.isGuarded) := by
      rw [hcontrol, dropWhile_begun hall]
    rw [hskip]
    split
    · next w rest hrest =>
      have hlength := (List.dropWhile_suffix (p := (!·.isGuarded)) (l := host)).length_le
      rw [hrest, List.length_cons] at hlength
      rw [if_pos (by omega)]
    · rfl

end Machine

section Steps

variable {host m : Machine} {callee : Nat} {rest : List Activation}

/-- To complete a call does not fail. -/
theorem complete_succeeds (slot : Nat) (keepRef : Bool) (v : Value) {E : Machine → Prop} :
    Ends (Run.complete slot keepRef v) m (fun _ _ => True) E :=
  .of_outcome (fun _ _ _ => trivial) fun e m' h => by cases (complete_run slot keepRef v m).symm.trans h

/-- A native function that cannot make its call still waits. -/
theorem continueNative_fails (w : NativeCall) (reply : Reply) :
    Ends (Run.continueNative w reply) m (fun _ _ => True) (·.control = m.control) := by
  cases reply with
  | value v => exact complete_succeeds w.slot w.keepRef v
  | call callee args guarded =>
    refine .bind (.get (.bind ((push_control (m := m) callee m rfl).after fun _ m₁ h₁ => .bind ?_)))
    obtain ⟨items⟩ := args
    rw [List.forM_toArray' _ _ rfl]
    refine Ends.after (.forM (fun v m' h => push_control v m' h) h₁) fun _ m₂ _ => ?_
    exact .bind (.modify (.modify trivial))

theorem resumeNative_fails (hm : m.heap.IsSound) (w : NativeCall) :
    Ends (Run.resumeNative w) m (fun _ _ => True) (·.control = m.control) := by
  refine .bind (.pop rfl fun v _ => ?_)
  split
  · refine .bind (.tame (.newList _) hm (fun pair m' _ _ => ?_) fun m' hspares => hspares.control)
    exact complete_succeeds w.slot w.keepRef pair
  · exact complete_succeeds w.slot w.keepRef v

theorem stepFrame_fails {f : Frame} {op : Instruction} (has : f.routine.Has f.ip op)
    (hperform : Ends (Run.perform f op) m (fun _ _ => True) (·.control = m.control)) :
    Ends (Run.stepFrame f) m (fun _ _ => True) (·.control = m.control) := by
  have hop : f.routine.code.ops[f.ip]? = some op := has
  unfold Run.stepFrame
  simp only [hop]
  refine .bind (hperform.after fun flow m' _ => ?_)
  cases flow with
  | next | jump | enter => exact .modify trivial
  | leave v => exact complete_succeeds (f.base - 1) f.keepRef v

/-- A collection does not fail. -/
theorem collectIfDue_ok (m : Machine) : ∃ m', Run.collectIfDue m = .ok () m' := by
  rw [Run.collectIfDue, Run.bind_get]
  split
  · exact ⟨_, rfl⟩
  · exact ⟨_, rfl⟩

/-- A call that cannot be entered is still there, or the native function that it is a call of. -/
theorem enter_fails {slot count : Nat} {precall : List RefFlags} {keepRef : Bool}
    (h : Atop host callee (.entering count keepRef) rest slot precall (slot + 1 + count) m) :
    Ends (Run.enter count keepRef) m (fun _ _ => True) m.Stands := by
  have hbegun := begin_running m h
  have hfails := begin_control h.within.sound h.control count keepRef
  refine .bind (.of_outcome (fun begun m₁ h₁ => ?_) fun e m₁ h₁ => .of_control (hfails.of_error h₁))
  rw [h₁] at hbegun
  cases begun with
  | some w =>
    obtain ⟨hunguarded, hatop⟩ := hbegun
    have hstands {m' : Machine} (hm' : m'.control = .native w :: rest) : m.Stands m' :=
      .replaced h.control hm' rfl hunguarded
    refine .bind (.tame (w.fn.run_tame w.args) hatop.within.sound (fun reply m₂ _ hspares => ?_) fun m₂ hspares => ?_)
    · have hcontrol : m₂.control = .native w :: rest := hspares.control.trans hatop.control
      have hnative := continueNative_fails (m := m₂) w reply
      exact .of_outcome (fun _ _ _ => trivial) fun e m₃ h₃ => hstands ((hnative.of_error h₃).trans hcontrol)
    · exact hstands (hspares.control.trans hatop.control)
  | none =>
    obtain ⟨m₂, h₂⟩ := collectIfDue_ok m₁
    exact .of_outcome (fun _ _ _ => trivial) fun e m₃ h₃ => by cases h₂.symm.trans h₃

/-- A step that fails leaves the frames as they were. -/
theorem Running.step_stands (h : Running host callee m) (hlength : host.control.length < m.control.length) :
    Ends Run.step m (fun _ _ => True) m.Stands := by
  have plain {x : Run Unit} (hx : Ends x m (fun _ _ => True) (·.control = m.control)) :
      Ends x m (fun _ _ => True) m.Stands :=
    .of_outcome (fun _ _ _ => trivial) fun e m' h => .of_control (hx.of_error h)
  cases h with
  | done within hhost => exact absurd hlength (by rw [hhost]; exact Nat.lt_irrefl _)
  | entering atop =>
    rw [Ends.congr (step_eq atop.control)]
    exact enter_fails atop
  | answered resuming =>
    rw [Ends.congr (step_eq resuming.atop.control)]
    exact plain (resumeNative_fails resuming.atop.within.sound _)
  | @entered f _ _ _ _ _ atop _ fits start =>
    rw [Ends.congr (step_eq atop.control)]
    have has : f.routine.Has f.ip (.reserve f.routine.frameSize) := start ▸ (fits.sound _ .self).nonempty
    exact plain (stepFrame_fails has (.bind ((reserve_turns (f := f) _).after fun _ _ _ => .pure trivial)))
  | @executing f acts slot precall shape fits inside site =>
    rw [Ends.congr (step_eq site.control)]
    obtain ⟨op, has⟩ : ∃ op, f.routine.Has f.ip op := ⟨_, Array.getElem?_eq_getElem inside⟩
    have hrange := (fits.sound _ .self).inRange _ _ has
    have hpops := (fits.assigned.admits _ _ has).all_pops_le site.meets.pending
    have hsize : m.stack.size = f.base + f.routine.frameSize + (shape f.ip).operands := site.size
    have hturns := perform_turns (f := f) hrange site.within.sound (by omega)
    exact plain (stepFrame_fails has (hturns.after fun _ _ _ => trivial))

end Steps

-- ---------------------------------------------------------------------------
-- Where frames are
-- ---------------------------------------------------------------------------

/-- Every frame executes an instruction that exists, and those that are not the innermost activation execute a
call. -/
structure Machine.IsPlaced (m : Machine) : Prop where
  inside : ∀ f ∈ m.frames, f.ip < f.routine.code.size
  calling : ∀ f ∈ m.control.tail.filterMap Activation.frame?, f.IsCalling

theorem Frame.IsCalling.inside {f : Frame} (h : f.IsCalling) : f.ip < f.routine.code.size := by
  obtain ⟨count, keepRef, has⟩ := h
  exact (Array.getElem?_eq_some_iff.mp has).1

section Placed

variable {host m : Machine} {callee slot : Nat} {acts : List Activation} {precall : List RefFlags}

theorem Waits.calling (h : Waits host callee m acts slot precall) (hhost : ∀ f ∈ host.frames, f.IsCalling) :
    ∀ f ∈ acts.filterMap Activation.frame?, f.IsCalling := by
  induction h with
  | host => exact hhost
  | native _ _ _ _ ih => exact ih
  | script _ _ _ called _ _ _ ih => exact List.forall_mem_cons.mpr ⟨⟨_, _, called⟩, ih⟩

theorem Running.isPlaced (h : Running host callee m) (hlength : host.control.length < m.control.length)
    (hhost : ∀ f ∈ host.frames, f.IsCalling) : m.IsPlaced := by
  obtain ⟨a, rest, slot, precall, hcontrol, hwaits, -⟩ := h.step_leaves hlength
  have hrest := hwaits.calling hhost
  refine ⟨fun f hf => ?_, by rwa [hcontrol]⟩
  rw [Machine.frames, hcontrol] at hf
  cases a with
  | native w => exact (hrest f hf).inside
  | entering args keepRef => exact (hrest f hf).inside
  | script g =>
    rcases List.mem_cons.mp hf with rfl | hf
    · obtain ⟨-, -, op, hop, -⟩ := h.innermost hlength hcontrol
      exact (Array.getElem?_eq_some_iff.mp hop).1
    · exact (hrest f hf).inside

/-- The frames that a host finds wait for it. -/
theorem Machine.Arises.calling (h : m.Arises) : ∀ f ∈ m.frames, f.IsCalling := by
  induction h with
  | start => nofun
  | @compute α m x before tame ih =>
    have hspares := tame m before.standing.sound
    have hframes {m' : Machine} (h : m.Spares m') : m'.frames = m.frames := (Stands.of_control h.control).frames
    unfold Run.leaves
    cases hx : x m with
    | ok _ m' =>
      rw [hx] at hspares
      rwa [hframes hspares]
    | error _ m' =>
      rw [hx] at hspares
      rwa [hframes hspares.1]
  | push before v room ih => exact ih
  | pop before ih => exact ih
  | @called m after steps count mustBeClass guarded before call ih =>
    by_cases hcount : count < m.stack.size
    · have hends := hostCall_ends before.standing hcount steps mustBeClass guarded
      rw [call] at hends
      rw [(hends rfl).1.frames]
      exact ih
    · rw [hostCall_underflow hcount] at call
      cases call
  | @failed m after steps count mustBeClass guarded e before call ih =>
    by_cases hcount : count < m.stack.size
    · have hends := hostCall_ends before.standing hcount steps mustBeClass guarded
      rw [call] at hends
      rw [hends.1.frames]
      exact ih
    · rw [hostCall_underflow hcount] at call
      cases call
      exact ih
  | @native m during inside ended steps count args mustBeClass keepRef rest w before fits run control began ih =>
    have hrun := callPushed_running before.standing fits steps mustBeClass m rfl
    rw [run] at hrun
    obtain ⟨slot, precall, hatop⟩ := hrun.1.entering_atop before.standing.idle control
    have hbegun := begin_running during hatop
    rw [began] at hbegun
    rw [Machine.frames, hbegun.2.control]
    exact hatop.waits.calling ih

end Placed

-- ---------------------------------------------------------------------------
-- Runs that fail
-- ---------------------------------------------------------------------------

namespace CallRun

variable {host : Machine} {count : Nat}

/-- The run ends before a step that fails, and no guarded call takes the failure. -/
structure Raises (r : CallRun host count) (raised : Failure) : Prop where
  going : host.control.length < (r.machine r.length).control.length
  fails : ∃ left, Run.step (r.machine r.length) = .error raised left
  untaken : (r.machine r.length).IsUnguarded host.control.length

/-- A step makes the call fail if no guarded call takes its failure. -/
theorem attempt_error {outer : Nat} {m left : Machine} {e : Failure} :
    Run.attempt outer m = .error e left ↔
      ∃ raised, Run.step m = .error raised left ∧ e = left.locate raised ∧ left.recover outer e = none := by
  unfold Run.attempt
  cases hstep : Run.step m with
  | ok _ m' => simp
  | error raised m' =>
    cases hrecover : m'.recover outer (m'.locate raised) with
    | some recovered =>
      simp only [hrecover, reduceCtorEq, false_iff]
      rintro ⟨_, hraised, rfl, hnone⟩
      cases hraised
      simp [hrecover] at hnone
    | none =>
      simp only [hrecover]
      constructor
      · intro h
        cases h
        exact ⟨raised, rfl, rfl, hrecover⟩
      · rintro ⟨_, hraised, rfl, -⟩
        cases hraised
        rfl

/-- The last machine of a run makes the call fail with what has become of a failure that is raised there. -/
theorem attempt_fails (r : CallRun host count) (h : host.Arises) (hcallee : count < host.stack.size) {e : Failure}
    (hgoing : host.control.length < (r.machine r.length).control.length) :
    (∃ left, Run.attempt host.control.length (r.machine r.length) = .error e left) ↔
      ∃ raised, r.Raises raised ∧ raised.ReachesAs (r.machine r.length).frames e := by
  have hrunning := r.stays h.standing hcallee (Nat.le_refl _)
  have hplaced := hrunning.isPlaced hgoing h.calling
  have hstep := hrunning.step_stands hgoing
  -- What is left of the failing step tells the same frames and guarded calls as the machine before it.
  have hlocate {raised : Failure} {left : Machine} (hleft : Run.step (r.machine r.length) = .error raised left) :
      left.locate raised = (r.machine r.length).locate raised ∧
        (left.recover host.control.length e = none ↔ (r.machine r.length).IsUnguarded host.control.length) := by
    have hstands := hstep.of_error hleft
    refine ⟨?_, ?_⟩
    · unfold Machine.locate Machine.trace
      rw [hstands.frames]
    · have hlength : left.control.length = (r.machine r.length).control.length := by
        simpa using congrArg List.length hstands.guards
      rw [Machine.recover_eq_none (by omega), hstands.isUnguarded]
  simp only [attempt_error, reachesAs_iff hplaced.inside]
  constructor
  · rintro ⟨left, raised, hleft, he, hnone⟩
    exact ⟨raised, ⟨hgoing, ⟨left, hleft⟩, (hlocate hleft).2.mp hnone⟩, he.trans (hlocate hleft).1⟩
  · rintro ⟨raised, ⟨-, ⟨left, hleft⟩, huntaken⟩, he⟩
    exact ⟨left, raised, hleft, he.trans (hlocate hleft).1.symm, (hlocate hleft).2.mpr huntaken⟩

theorem attempts_succ {outer steps : Nat} {m : Machine} (hgoing : outer < m.control.length) :
    Run.attempts outer (steps + 1) m = (Run.attempt outer >>= fun _ => Run.attempts outer steps) m := by
  change (if (m.control.drop outer).isEmpty then (Pure.pure true : Run Bool)
    else Run.attempt outer >>= fun _ => Run.attempts outer steps) m = _
  rw [if_neg (by rw [isEmpty_drop_iff]; omega)]

theorem attempts_over {outer steps : Nat} {m : Machine} (hover : m.control.length ≤ outer) :
    Run.attempts outer (steps + 1) m = .ok true m := by
  change (if (m.control.drop outer).isEmpty then (Pure.pure true : Run Bool)
    else Run.attempt outer >>= fun _ => Run.attempts outer steps) m = _
  rw [if_pos (isEmpty_drop_iff.mpr hover)]
  rfl

/-- After the steps of a run, a call goes on where the run has ended. -/
theorem attempts_machine (r : CallRun host count) (steps : Nat) {t : Nat} (ht : t ≤ r.length) :
    Run.attempts host.control.length (t + steps) (r.machine 0) =
      Run.attempts host.control.length steps (r.machine t) := by
  induction t generalizing steps with
  | zero => rw [Nat.zero_add]
  | succ t ih =>
    rw [Nat.add_right_comm, Nat.add_assoc, ih (steps + 1) (by omega), attempts_succ (r.going t ht),
      Run.bind_of_ok (r.step t ht)]

/-- A call that fails has come to a machine whose step makes it fail. -/
theorem exists_of_error (r : CallRun host count) {steps : Nat} {e : Failure} {left : Machine}
    (h : Run.attempts host.control.length steps (r.machine r.length) = .error e left) :
    ∃ r' : CallRun host count, r'.length < r.length + steps ∧
      host.control.length < (r'.machine r'.length).control.length ∧
      Run.attempt host.control.length (r'.machine r'.length) = .error e left := by
  induction steps generalizing r with
  | zero => cases h
  | succ steps ih =>
    by_cases hgoing : host.control.length < (r.machine r.length).control.length
    · rw [attempts_succ hgoing] at h
      cases hattempt : Run.attempt host.control.length (r.machine r.length) with
      | error e' m =>
        rw [Run.bind_of_error hattempt] at h
        cases h
        exact ⟨r, by omega, hgoing, hattempt⟩
      | ok _ m =>
        rw [Run.bind_of_ok hattempt] at h
        obtain ⟨r', hlength, hfails⟩ := ih (r.extend hgoing hattempt) (by simpa [extend] using h)
        refine ⟨r', ?_, hfails⟩
        simp only [extend] at hlength
        omega
    · rw [attempts_over (Nat.le_of_not_lt hgoing)] at h
      cases h

end CallRun

-- ---------------------------------------------------------------------------
-- Calls that fail
-- ---------------------------------------------------------------------------

/-- The value is a class. -/
def Heap.isClass (h : Heap) (v : Value) : Bool :=
  match h.contentOf v with
  | some (.cls _) => true
  | _ => false

/-- Why a call of the value below the top `count` operands is refused before anything runs. -/
def Machine.refusal (m : Machine) (count : Nat) (mustBeClass : Bool) : Option Fault :=
  let callee := m.stack.getD (m.stack.size - 1 - count) .null
  if m.stack.size < count + 1 then some .stackUnderflow
  else if mustBeClass && !m.heap.isClass callee then some (.notConstructible (m.heap.typeName callee))
  else none

section Calls

variable {host : Machine} {count : Nat} {mustBeClass : Bool}

theorem callPushed_eq (steps : Nat) :
    Run.callPushed steps count mustBeClass host =
      let callee := host.stack.getD (host.stack.size - 1 - count) .null
      if mustBeClass && !host.heap.isClass callee then
        .error (Fault.notConstructible (host.heap.typeName callee)).failure host
      else Run.attempts host.control.length steps { host with control := .entering count false :: host.control } := by
  unfold Run.callPushed
  rw [Run.bind_get]
  change (ite ((mustBeClass && !host.heap.isClass (host.stack.getD (host.stack.size - 1 - count) .null)) = true) _ _ :
    Run Bool) host = _
  dsimp only
  split
  · rfl
  · rfl

/-- A call fails for the reason that it is refused for, or as its steps fail. -/
theorem hostCall_error_iff (steps : Nat) (guarded : Bool) (e : Failure) :
    (∃ after, Run.hostCall steps count mustBeClass guarded host = .error e after) ↔
      match host.refusal count mustBeClass with
      | some fault => e = fault.failure
      | none => ∃ left, Run.attempts host.control.length steps
          { host with control := .entering count false :: host.control } = .error e left := by
  have hpushed : (∃ after, Run.hostCall steps count mustBeClass guarded host = .error e after) ↔
      if host.stack.size < count + 1 then e = Fault.stackUnderflow.failure
      else ∃ left, Run.callPushed steps count mustBeClass host = .error e left := by
    unfold Run.hostCall
    split
    · simp [eq_comm]
    · split
      · simp [*]
      · simp [*]
  rw [hpushed, callPushed_eq]
  unfold Machine.refusal
  dsimp only
  split
  · rfl
  · split
    · simp [eq_comm]
    · rfl

theorem lt_size_of_refusal (h : host.refusal count mustBeClass = none) : count < host.stack.size := by
  unfold Machine.refusal at h
  split at h
  · cases h
  · omega

/-- A call that is not refused fails with what becomes of a failure that a step of it raises. -/
theorem hostCall_error_raised (h : host.Arises) (hnone : host.refusal count mustBeClass = none) (steps : Nat)
    (guarded : Bool) (e : Failure) :
    (∃ after, Run.hostCall steps count mustBeClass guarded host = .error e after) ↔
      ∃ (r : CallRun host count) (raised : Failure), r.length < steps ∧ r.Raises raised ∧
        raised.ReachesAs (r.machine r.length).frames e := by
  have hcallee := lt_size_of_refusal hnone
  let start : CallRun host count :=
    ⟨0, fun _ => { host with control := .entering count false :: host.control }, rfl, nofun, nofun⟩
  rw [hostCall_error_iff, hnone]
  constructor
  · rintro ⟨left, hleft⟩
    obtain ⟨r, hlength, hgoing, hattempt⟩ := start.exists_of_error hleft
    obtain ⟨raised, hraises, hreaches⟩ := (r.attempt_fails h hcallee hgoing).mp ⟨left, hattempt⟩
    exact ⟨r, raised, by simpa [start] using hlength, hraises, hreaches⟩
  · rintro ⟨r, raised, hlength, hraises, hreaches⟩
    obtain ⟨left, hattempt⟩ := (r.attempt_fails h hcallee hraises.going).mpr ⟨raised, hraises, hreaches⟩
    refine ⟨left, ?_⟩
    obtain ⟨more, rfl⟩ := Nat.exists_eq_add_of_lt hlength
    rw [← r.start, Nat.add_assoc, r.attempts_machine _ (Nat.le_refl _), CallRun.attempts_succ hraises.going,
      Run.bind_of_error hattempt]

/-- A call that a host makes is refused, or it fails if and only if one of its steps raises a failure that no
guarded call takes. What the host gets is that failure if it had a position, and otherwise the failure with the
line and the file of the innermost frame and one entry of its trace for every frame that was active. These frames
execute instructions that exist, and all but the innermost activation execute calls. In code that comes from the
compiler, every instruction has the line that it was emitted with. -/
theorem failures_located (h : host.Arises) (count steps : Nat) (mustBeClass guarded : Bool) :
    (∀ e, (∃ after, Run.hostCall steps count mustBeClass guarded host = .error e after) ↔
      match host.refusal count mustBeClass with
      | some fault => e = fault.failure
      | none => ∃ (r : CallRun host count) (raised : Failure), r.length < steps ∧ r.Raises raised ∧
          raised.ReachesAs (r.machine r.length).frames e) ∧
    (host.refusal count mustBeClass = none → ∀ r : CallRun host count,
      host.control.length < (r.machine r.length).control.length → (r.machine r.length).IsPlaced) ∧
    ∀ s file debug main, compile s file debug = .ok main → main.IsEmitted := by
  refine ⟨fun e => ?_, fun hnone r hgoing => ?_, fun s file debug main => compile_emitted⟩
  · split
    · next hsome => rw [hostCall_error_iff, hsome]
    · next hnone => exact hostCall_error_raised h hnone steps guarded e
  · exact (r.stays h.standing (lt_size_of_refusal hnone) (Nat.le_refl _)).isPlaced hgoing h.calling

/-- A text that throws in a function. -/
def throwingText : String := "function check()\n throw 1\nend\ncheck()\n"

/-- The machine of a host that has loaded the text and pushed its function. -/
def throwing : Machine :=
  let loaded := (Run.loadText "check.rill" throwingText).leaves { config := {} }
  { loaded with stack := loaded.stack.push (.object ⟨0⟩) }

theorem throwing_arises : throwing.Arises :=
  .push (.compute (.start {} {} [] none 0) (.loadText _ _)) _ (by decide +kernel)

/-- The function that throws and the text that calls it are shown, each at its line. -/
theorem failures_located_thrown : ∃ e : Failure, e.line = some 2 ∧ e.file = some "check.rill" ∧
    e.trace = [⟨"check", "check.rill", 2⟩, ⟨"<main>", "check.rill", 4⟩] ∧
    ∃ (r : CallRun throwing 0) (raised : Failure), r.length < 100 ∧ r.Raises raised ∧
      raised.ReachesAs (r.machine r.length).frames e := by
  have hrun : (match Run.hostCall 100 0 false false throwing with
      | .error e _ => some (e.line, e.file, e.trace)
      | .ok _ _ => none) =
      some (some 2, some "check.rill", [⟨"check", "check.rill", 2⟩, ⟨"<main>", "check.rill", 4⟩]) := by
    decide +kernel
  have hallowed : throwing.refusal 0 false = none := by decide +kernel
  have hfails := (failures_located throwing_arises 0 100 false false).1
  simp only [hallowed] at hfails
  cases hcall : Run.hostCall 100 0 false false throwing with
  | ok ended after => simp [hcall] at hrun
  | error e after =>
    simp only [hcall, Option.some.injEq, Prod.mk.injEq] at hrun
    exact ⟨e, hrun.1, hrun.2.1, hrun.2.2, (hfails e).mp ⟨after, hcall⟩⟩

end Calls

end Rill
