-- SUMMARY: Frames that wait for a call keep their slots while the call runs.
import Rill.Proofs.Runs.Outcomes
import Rill.Proofs.Safety.Running

/-!
# Slots of waiting frames

An active frame is known by its depth: the number of activations that began before it. A step works on the
operand stack above the slots of all frames but the innermost. Whatever it does, a frame that is not over
by then is at its depth, with its closure and its slots where they were.
-/

namespace Rill

-- ---------------------------------------------------------------------------
-- Frames by depth
-- ---------------------------------------------------------------------------

/-- The frame that is active with so many activations around it. -/
def Machine.frameAt (m : Machine) (depth : Nat) : Option Frame :=
  m.control.reverse[depth]?.bind Activation.frame?

/-- The frame at another instruction. -/
def Frame.Continues (f f' : Frame) : Prop := ∃ ip, f' = { f with ip := ip }

namespace Frame.Continues

variable {f f' f'' : Frame}

theorem refl (f : Frame) : f.Continues f := ⟨f.ip, rfl⟩

theorem trans (h : f.Continues f') (h' : f'.Continues f'') : f.Continues f'' := by
  obtain ⟨_, rfl⟩ := h
  obtain ⟨ip, rfl⟩ := h'
  exact ⟨ip, rfl⟩

theorem base (h : f.Continues f') : f'.base = f.base := by
  obtain ⟨_, rfl⟩ := h
  rfl

theorem routine (h : f.Continues f') : f'.routine = f.routine := by
  obtain ⟨_, rfl⟩ := h
  rfl

end Frame.Continues

theorem getElem?_reverse_suffix {α : Type} {rest acts : List α} (h : rest <:+ acts) {depth : Nat}
    (hdepth : depth < rest.length) : acts.reverse[depth]? = rest.reverse[depth]? := by
  obtain ⟨before, rfl⟩ := h
  rw [List.reverse_append, List.getElem?_append_left (by simpa using hdepth)]

theorem getElem?_reverse_cons {α : Type} {rest : List α} {a : α} :
    (a :: rest).reverse[rest.length]? = some a := by
  rw [List.reverse_cons, List.getElem?_append_right (by simp)]
  simp

namespace Machine

variable {m m' : Machine} {depth : Nat} {f : Frame}

theorem frameAt_eq_some : m.frameAt depth = some f ↔ m.control.reverse[depth]? = some (.script f) := by
  rw [frameAt, Option.bind_eq_some_iff]
  constructor
  · rintro ⟨a, ha, hf⟩
    cases a with
    | script g =>
      cases hf
      exact ha
    | _ => cases hf
  · exact fun h => ⟨_, h, rfl⟩

theorem lt_of_frameAt (h : m.frameAt depth = some f) : depth < m.control.length := by
  obtain ⟨hlt, -⟩ := List.getElem?_eq_some_iff.mp (frameAt_eq_some.mp h)
  simpa using hlt

/-- The innermost activation is the frame, or others are inside it. -/
theorem frameAt_cons {a : Activation} {rest : List Activation} (hcontrol : m.control = a :: rest)
    (h : m.frameAt depth = some f) :
    depth = rest.length ∧ a = .script f ∨
      depth < rest.length ∧ rest.reverse[depth]? = some (.script f) := by
  have hlt := lt_of_frameAt h
  rw [frameAt_eq_some, hcontrol] at h
  rw [hcontrol, List.length_cons] at hlt
  by_cases heq : depth = rest.length
  · subst heq
    rw [getElem?_reverse_cons] at h
    exact .inl ⟨rfl, Option.some.inj h⟩
  · have hlt' : depth < rest.length := by omega
    exact .inr ⟨hlt', (getElem?_reverse_suffix (List.suffix_cons a rest) hlt') ▸ h⟩

theorem frameAt_of_suffix {acts : List Activation} (hacts : acts <:+ m.control)
    (hf : acts.reverse[depth]? = some (.script f)) : m.frameAt depth = some f := by
  obtain ⟨hlt, -⟩ := List.getElem?_eq_some_iff.mp hf
  rw [frameAt_eq_some, getElem?_reverse_suffix hacts (by simpa using hlt)]
  exact hf

end Machine

-- ---------------------------------------------------------------------------
-- Room below a slot
-- ---------------------------------------------------------------------------

/-- The slots of a frame that waits are below the slot that the innermost activation waits with. -/
theorem Waits.room {host m : Machine} {callee slot depth : Nat} {acts : List Activation}
    {precall : List RefFlags} {f : Frame} (h : Waits host callee m acts slot precall)
    (hdepth : host.control.length ≤ depth) (hf : acts.reverse[depth]? = some (.script f)) :
    f.base + f.routine.frameSize ≤ slot := by
  induction h with
  | host =>
    obtain ⟨hlt, -⟩ := List.getElem?_eq_some_iff.mp hf
    rw [List.length_reverse] at hlt
    omega
  | @native w rest precall outer above room precalls ih =>
    have hlt : depth < rest.length ∨ depth = rest.length := by
      obtain ⟨hlt, -⟩ := List.getElem?_eq_some_iff.mp hf
      simp at hlt
      omega
    rcases hlt with hlt | rfl
    · have := ih ((getElem?_reverse_suffix (List.suffix_cons _ rest) hlt) ▸ hf)
      omega
    · rw [getElem?_reverse_cons] at hf
      cases hf
  | @script g rest slot precall own shape count height keepRef outer base fits called operands pending meets ih =>
    have hlt : depth < rest.length ∨ depth = rest.length := by
      obtain ⟨hlt, -⟩ := List.getElem?_eq_some_iff.mp hf
      simp at hlt
      omega
    rcases hlt with hlt | rfl
    · have := ih ((getElem?_reverse_suffix (List.suffix_cons _ rest) hlt) ▸ hf)
      omega
    · rw [getElem?_reverse_cons] at hf
      cases hf
      omega

-- ---------------------------------------------------------------------------
-- What a step leaves alone
-- ---------------------------------------------------------------------------

/-- The activations below the innermost one are still there, and so is the stack below a slot. If the
innermost one is over, the frame that it returned to goes on. -/
structure Machine.Leaves (m : Machine) (rest : List Activation) (slot : Nat) (m' : Machine) : Prop where
  control : rest <:+ m'.control ∨ m'.control = resumed rest
  stack : ∀ k < slot, m'.stack[k]? = m.stack[k]?

section Leaving

variable {m : Machine} {rest : List Activation} {precall : List RefFlags} {slot : Nat}

/-- The activations below the innermost one as a host of it. -/
def Machine.asHost (m : Machine) (rest : List Activation) (precall : List RefFlags) : Machine :=
  { m with control := rest, precall := precall }

theorem Running.leaves {m' : Machine} (h : Running (m.asHost rest precall) slot m') : m.Leaves rest slot m' := by
  refine ⟨.inl ?_, h.interrupted.within.below⟩
  cases h with
  | done _ control => exact control ▸ List.suffix_refl _
  | entering atop => exact atop.control ▸ atop.waits.control_suffix.trans (List.suffix_cons _ _)
  | answered resuming =>
    exact resuming.atop.control ▸ resuming.atop.waits.control_suffix.trans (List.suffix_cons _ _)
  | entered atop => exact atop.control ▸ atop.waits.control_suffix.trans (List.suffix_cons _ _)
  | executing _ _ site => exact site.control ▸ site.waits.control_suffix.trans (List.suffix_cons _ _)

/-- A completed call gives the frame it was made from what it waits for. -/
theorem complete_leaves {m' : Machine} {a : Activation} (hcontrol : m'.control = a :: rest) {above : Nat}
    (habove : slot ≤ above) (hsize : above ≤ m'.stack.size) (hbelow : ∀ k < slot, m'.stack[k]? = m.stack[k]?)
    (keepRef : Bool) (v : Value) {m'' : Machine} (hm'' : Run.complete above keepRef v m' = .ok () m'') :
    m.Leaves rest slot m'' := by
  rw [complete_run] at hm''
  cases hm''
  refine ⟨.inr (by rw [hcontrol]; rfl), fun k hk => ?_⟩
  rw [← hbelow k hk, Array.getElem?_push_lt (by simp; omega)]
  simp

end Leaving

-- ---------------------------------------------------------------------------
-- Steps
-- ---------------------------------------------------------------------------

section Steps

variable {host m : Machine} {callee slot height : Nat} {rest : List Activation} {precall : List RefFlags}

theorem Within.asHost (h : Within host callee m) : Within (m.asHost rest precall) slot m :=
  ⟨rfl, h.config ▸ h.room, fun _ _ => rfl, h.sound, h.config ▸ h.depth⟩

theorem Atop.asHost {a : Activation} (h : Atop host callee a rest slot precall height m) :
    Atop (m.asHost rest precall) slot a rest slot precall height m :=
  ⟨h.within.asHost, h.control, .host, h.precall, h.size, h.above⟩

theorem FrameSite.At.asHost {f : Frame} {s : Shape}
    (h : FrameSite.At ⟨host, callee, f, rest, slot, precall⟩ s m) :
    FrameSite.At ⟨m.asHost rest precall, slot, f, rest, slot, precall⟩ s m :=
  ⟨h.within.asHost, h.control, h.base, .host, h.precall, h.size, h.meets, h.onTop⟩

/-- What a step leaves alone, and what is left when it fails. -/
abbrev StepLeaves (m : Machine) (rest : List Activation) (precall : List RefFlags) (slot : Nat) : Prop :=
  Triple (· = m) Run.step (fun _ => m.Leaves rest slot) (Interrupted (m.asHost rest precall) slot)

theorem step_eq {a : Activation} (h : m.control = a :: rest) :
    Run.step m = (match a with
      | .script f => Run.stepFrame f
      | .native w => Run.resumeNative w
      | .entering args keepRef => Run.enter args keepRef) m := by
  rw [Run.step, Run.bind_get, h]
  cases a <;> rfl

theorem Triple.fixed {x : Run α} {P : Machine → Prop} {Q : α → Machine → Prop} {E : Machine → Prop}
    (h : Triple P x Q E)
    (hm : P m) : Triple (· = m) x Q E := by
  intro m' hm'
  rw [hm']
  exact h m hm

theorem Triple.of_step {x : Run Unit} {Q : Unit → Machine → Prop} {E : Machine → Prop} (hx : Run.step m = x m)
    (h : Triple (· = m) x Q E) : Triple (· = m) Run.step Q E := by
  intro m' hm'
  rw [hm', hx]
  exact h m rfl

theorem enter_leaves {count : Nat} {keepRef : Bool}
    (h : Atop host callee (.entering count keepRef) rest slot precall (slot + 1 + count) m) :
    StepLeaves m rest precall slot := by
  have hbegin : Triple (· = m) (Run.begin count keepRef) (Begun (m.asHost rest precall) slot rest precall)
      (Interrupted (m.asHost rest precall) slot) :=
    begin_running.fixed h.asHost
  refine Triple.of_step (x := Run.enter count keepRef) (step_eq h.control) (hbegin.bind fun begun => ?_)
  cases begun with
  | none =>
    exact (Tame.collectIfDue.triple (fun _ _ hm hspares => hm.spared hspares)
      (fun _ hm => hm.interrupted.within.sound) fun _ hm => hm.interrupted).after fun _ _ => Running.leaves
  | some w =>
    intro m' ⟨hw, hatop⟩
    refine ((Atop.tame hw (w.fn.run_tame w.args)).bind fun reply => ?_) m' hatop
    cases reply with
    | call callee args guarded => exact (askNative_running hw callee args guarded).after fun _ _ => Running.leaves
    | value v =>
      intro m'' h''
      have habove := h''.size
      exact complete_leaves (m := m) h''.control h''.waits.callee_le (by omega) h''.within.below _ _ rfl

/-- What a native function that is none of the host's waits with. -/
theorem Waits.inner {w : NativeCall} {height : Nat} (h : Waits host callee m (.native w :: rest) height precall)
    (hlong : host.control.length ≤ rest.length) : w.inner < host.config.stackLimit ∧ w.precalls = precall.length := by
  generalize hacts : Activation.native w :: rest = acts at h
  cases h with
  | host =>
    rw [← hacts, List.length_cons] at hlong
    omega
  | native outer above room precalls =>
    cases hacts
    exact ⟨room, precalls⟩
  | script => cases hacts

theorem resume_leaves {w : NativeCall} (h : Resuming host callee w rest precall (w.inner + 1) m)
    (hlong : host.control.length ≤ rest.length) (above : w.slot < w.inner) : StepLeaves m rest precall w.slot := by
  obtain ⟨hroom, hprecalls⟩ := h.waits.inner hlong
  have hresuming : Resuming (m.asHost rest precall) w.slot w rest precall (w.inner + 1) m :=
    ⟨h.atop.asHost, .native .host above (h.atop.within.config ▸ hroom) hprecalls⟩
  have hpop : Triple (· = m) Run.pop (fun _ => Resuming (m.asHost rest precall) w.slot w rest precall w.inner)
      (Interrupted (m.asHost rest precall) w.slot) :=
    (pop_resuming above).fixed hresuming
  have hcomplete (v : Value) : Triple (Resuming (m.asHost rest precall) w.slot w rest precall w.inner)
      (Run.complete w.slot w.keepRef v) (fun _ => m.Leaves rest w.slot) (Interrupted (m.asHost rest precall) w.slot) := by
    intro m'' h''
    have habove := h''.atop.size
    exact complete_leaves (m := m) h''.atop.control (Nat.le_refl _) (by omega) h''.atop.within.below _ _ rfl
  refine Triple.of_step (x := Run.resumeNative w) (step_eq h.atop.control) (hpop.bind fun v => ?_)
  split
  · exact ((Tame.newList _).triple (fun _ _ h hm => h.spared hm) (fun _ h => h.atop.within.sound)
      fun _ h => h.interrupted (Nat.le_refl _)).bind fun pair => hcomplete pair
  · exact hcomplete v

theorem frame_leaves {f : Frame} {shape : Nat → Shape} (fits : f.Fits shape) (inside : f.ip < f.routine.code.size)
    (h : FrameSite.At ⟨host, callee, f, rest, slot, precall⟩ (shape f.ip) m) : StepLeaves m rest precall slot := by
  obtain ⟨op, has⟩ : ∃ op, f.routine.Has f.ip op := ⟨_, Array.getElem?_eq_getElem inside⟩
  have hrange := (fits.sound _ .self).inRange _ _ has
  have hadmits := fits.assigned.admits _ _ has
  have hop : f.routine.code.ops[f.ip]? = some op := has
  have hsite : FrameSite.At ⟨m.asHost rest precall, slot, f, rest, slot, precall⟩ (shape f.ip) m := h.asHost
  have hperform := (FrameSite.perform fits hrange hadmits).fixed hsite
  refine Triple.of_step (x := Run.stepFrame f) (step_eq h.control) ?_
  unfold Run.stepFrame
  simp only [hop]
  refine hperform.bind fun flow => ?_
  cases flow with
  | next => exact (goTo_running fits has (· + 1)).after fun _ _ => Running.leaves
  | jump target => exact (goTo_running fits has fun _ => target).after fun _ _ => Running.leaves
  | enter count keepRef =>
    refine .modify fun m' h' => ?_
    obtain ⟨rfl, h'⟩ := h'
    exact (h'.calling fits has h.meets.pending).leaves
  | leave v =>
    intro m' h'
    obtain ⟨rfl, h'⟩ := h'
    have hleaving := h'.leaving hadmits.2
    exact complete_leaves (m := m) hleaving.control hleaving.waits.callee_le (Nat.le_of_lt hleaving.above)
      hleaving.within.below
      _ _ rfl

theorem reserve_leaves {f : Frame} {shape : Nat → Shape} (h : Atop host callee (.script f) rest slot precall height m)
    (base : f.base = slot + 1) (fits : f.Fits shape) (start : f.ip = 0)
    (room : height ≤ f.base + f.routine.frameSize) : StepLeaves m rest precall slot :=
  Triple.of_step (x := Run.stepFrame f) (step_eq h.control)
    (((reserve_running fits base start room).fixed h.asHost).after fun _ _ => Running.leaves)

/-- The innermost activation of a running machine is of its call, and its step leaves the others alone. -/
theorem Running.step_leaves (h : Running host callee m) (hlength : host.control.length < m.control.length) :
    ∃ a rest slot precall, m.control = a :: rest ∧ Waits host callee m rest slot precall ∧
      StepLeaves m rest precall slot := by
  cases h with
  | done within control => exact absurd hlength (by rw [control]; exact Nat.lt_irrefl _)
  | entering atop => exact ⟨_, _, _, _, atop.control, atop.waits, enter_leaves atop⟩
  | answered resuming above =>
    have hcontrol := resuming.atop.control
    rw [hcontrol, List.length_cons] at hlength
    exact ⟨_, _, _, _, hcontrol, resuming.atop.waits, resume_leaves resuming (Nat.le_of_lt_succ hlength) above⟩
  | entered atop base fits start arguments room =>
    exact ⟨_, _, _, _, atop.control, atop.waits, reserve_leaves atop base fits start room⟩
  | executing fits inside site => exact ⟨_, _, _, _, site.control, site.waits, frame_leaves fits inside site⟩

-- ---------------------------------------------------------------------------
-- Waiting frames
-- ---------------------------------------------------------------------------

/-- The frame at a depth is still active, at some instruction, and its slots hold what they held. -/
def Machine.Idles (m m' : Machine) (depth : Nat) (f : Frame) : Prop :=
  ∃ f', m'.frameAt depth = some f' ∧ f.Continues f' ∧
    ∀ k < f.base + f.routine.frameSize, m'.stack[k]? = m.stack[k]?

theorem resumed_reverse {rest : List Activation} {depth : Nat} {f : Frame}
    (h : rest.reverse[depth]? = some (.script f)) :
    ∃ f', (resumed rest).reverse[depth]? = some (.script f') ∧ f.Continues f' := by
  unfold resumed
  split
  · rename_i g rest
    rw [List.reverse_cons] at h ⊢
    by_cases hdepth : depth < rest.length
    · rw [List.getElem?_append_left (by simpa using hdepth)] at h ⊢
      exact ⟨f, h, .refl f⟩
    · rw [List.getElem?_append_right (by simpa using hdepth)] at h ⊢
      obtain ⟨hlt, heq⟩ := List.getElem?_eq_some_iff.mp h
      have hzero : depth - rest.reverse.length = 0 := by simpa using hlt
      simp only [hzero] at heq ⊢
      cases heq
      exact ⟨_, rfl, _, rfl⟩
  · exact ⟨f, h, .refl f⟩

/-- After a step that goes on, waiting frames idle. -/
theorem Machine.Leaves.idles {m' : Machine} {f : Frame} {depth : Nat} (h : m.Leaves rest slot m')
    (hroom : f.base + f.routine.frameSize ≤ slot) (hf : rest.reverse[depth]? = some (.script f)) :
    m.Idles m' depth f := by
  have hstack : ∀ k < f.base + f.routine.frameSize, m'.stack[k]? = m.stack[k]? :=
    fun k hk => h.stack k (by omega)
  rcases h.control with hcontrol | hcontrol
  · exact ⟨f, frameAt_of_suffix hcontrol hf, .refl f, hstack⟩
  · obtain ⟨f', hf', hcontinues⟩ := resumed_reverse hf
    exact ⟨f', frameAt_eq_some.mpr (hcontrol ▸ hf'), hcontinues, hstack⟩

/-- A guarded call that takes a failure is inside a waiting frame, which idles then, or the frame is over. -/
theorem Interrupted.idles {m' m'' : Machine} {e : Failure} {f : Frame} {depth : Nat}
    (h : Interrupted host callee m') (hdepth : host.control.length ≤ depth)
    (hf : m'.control.reverse[depth]? = some (.script f))
    (hm'' : m'.recover host.control.length e = some m'') : m''.control.length ≤ depth ∨ m'.Idles m'' depth f := by
  obtain ⟨hwithin, hcontrol, hbegun, hwaits, hheight, hsuffix⟩ := h
  unfold Machine.recover at hm''
  rw [hcontrol, dropWhile_begun hbegun] at hm''
  rcases hwaits.guarded with hhost | ⟨w, rest, before, hdrop, houter, above, -, -, hle, -⟩
  · rw [hhost] at hm''
    split at hm''
    · rename_i w rest heq
      have hlength := (List.dropWhile_suffix (p := (!·.isGuarded)) (l := host.control)).length_le
      rw [heq, List.length_cons] at hlength
      rw [if_pos (by omega)] at hm''
      cases hm''
    · cases hm''
  · have hlength := houter.control_suffix.length_le
    rw [hdrop] at hm''
    simp only [if_neg (Nat.not_lt.mpr hlength), Option.some.injEq] at hm''
    have hacts : Activation.native w :: rest <:+ m'.control :=
      hdrop ▸ (List.dropWhile_suffix _).trans (hcontrol ▸ List.suffix_append _ _)
    have hcontrol'' : m''.control = .native { w with succeeded := false } :: rest := by rw [← hm'']
    by_cases hover : m''.control.length ≤ depth
    · exact .inl hover
    rw [hcontrol'', List.length_cons] at hover
    -- The frame cannot be where the native function is.
    have hne : depth ≠ rest.length := by
      rintro rfl
      rw [getElem?_reverse_suffix hacts (by simp), getElem?_reverse_cons] at hf
      cases hf
    have hlt : depth < rest.length := by omega
    have hrest : rest.reverse[depth]? = some (.script f) := by
      rwa [getElem?_reverse_suffix ((List.suffix_cons _ _).trans hacts) hlt] at hf
    have hroom := houter.room hdepth hrest
    refine .inr ⟨f, ?_, .refl f, fun k hk => ?_⟩
    · exact Machine.frameAt_of_suffix (hcontrol'' ▸ List.suffix_cons _ rest) hrest
    · rw [← hm'', Array.getElem?_push_lt (by simp [Machine.forgetPrecalls]; omega)]
      simp [Machine.forgetPrecalls]

/-- A step, with the recovery from its failure, ends a waiting frame or leaves it alone. -/
theorem Running.attempt_idles (h : Running host callee m) (hidle : host.IsIdle)
    (hlength : host.control.length < m.control.length) {m' : Machine}
    (hm' : Run.attempt host.control.length m = .ok () m') {f : Frame} {depth : Nat}
    (hdepth : host.control.length ≤ depth) (hf : m.frameAt depth = some f) (hlt : depth + 1 < m.control.length) :
    m'.control.length ≤ depth ∨ m.Idles m' depth f := by
  obtain ⟨a, rest, slot, precall, hcontrol, hwaits, hleaves⟩ := h.step_leaves hlength
  rw [hcontrol, List.length_cons] at hlt
  have hrest : rest.reverse[depth]? = some (.script f) := by
    rcases Machine.frameAt_cons hcontrol hf with ⟨rfl, -⟩ | ⟨-, hrest⟩
    · omega
    · exact hrest
  have hroom := hwaits.room hdepth hrest
  have hstep := hleaves m rfl
  have hinterrupted := step_running hidle m ⟨h, hlength⟩
  unfold Run.attempt at hm'
  cases hrun : Run.step m with
  | ok _ after =>
    rw [hrun] at hstep
    simp only [hrun] at hm'
    cases hm'
    exact .inr (hstep.idles hroom hrest)
  | error e after =>
    rw [hrun] at hstep hinterrupted
    simp only [hrun] at hm'
    split at hm'
    · rename_i recovered hrecover
      cases hm'
      obtain ⟨hwithin, hacts, -, hinner, -, -⟩ := hstep.1
      have hsuffix : rest <:+ after.control := by
        rw [hacts]
        exact (show rest <:+ _ from hinner.control_suffix).trans (List.suffix_append _ _)
      have hafter : after.control.reverse[depth]? = some (.script f) := by
        rw [getElem?_reverse_suffix hsuffix (by omega)]
        exact hrest
      refine (hinterrupted.1.idles hdepth hafter hrecover).imp_right fun ⟨f', hf', hcontinues, hstack⟩ => ?_
      exact ⟨f', hf', hcontinues, fun k hk => (hstack k hk).trans (hwithin.below k (by omega))⟩
    · cases hm'

end Steps

end Rill
