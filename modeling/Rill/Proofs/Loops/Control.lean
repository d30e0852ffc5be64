-- SUMMARY: Frames follow the control flow of their routines, and an instruction changes only the slots that it names.
import Rill.Proofs.Capture.Runs

/-!
# Control flow of frames

A step replaces the innermost activation or lets it go on, or ends it. A frame begins at its first instruction,
moves along the edges of its code, and waits where it makes a call. So every frame of a call stands at an
instruction that control reaches, and has as many operands as any shape says with which control reaches it.

An instruction works on the operands above the slots of its frame, and on the slots that it names. All other
slots hold exactly what they held.
-/

namespace Rill

-- ---------------------------------------------------------------------------
-- Edges
-- ---------------------------------------------------------------------------

/-- Control can go from one instruction to another one. -/
def Routine.Leads (r : Routine) (pc next : Nat) : Prop :=
  ∃ op, r.Has pc op ∧ ∀ s : Shape, ∃ t, (next, t) ∈ s.edges r pc op

section Edges

variable {r : Routine} {pc next : Nat} {op : Instruction} {s t : Shape}

/-- Where an instruction goes on does not depend on the operands. -/
theorem Routine.Leads.of_edge (has : r.Has pc op) (edge : (next, t) ∈ s.edges r pc op) : r.Leads pc next := by
  refine ⟨op, has, fun s' => ?_⟩
  unfold Shape.edges at *
  split at edge
  all_goals simp only [List.mem_cons, List.not_mem_nil, or_false, Prod.mk.injEq] at edge ⊢
  · exact ⟨_, edge.1, rfl⟩
  all_goals first
    | exact edge.elim (fun h => ⟨_, .inl ⟨h.1, rfl⟩⟩) fun h => ⟨_, .inr ⟨h.1, rfl⟩⟩
    | exact ⟨_, edge.1, rfl⟩

/-- An instruction after which the next one follows. -/
theorem Routine.Leads.follow (has : r.Has pc op) (hedges : ∀ s : Shape, s.edges r pc op = [(pc + 1, s.after r op)]) :
    r.Leads pc (pc + 1) :=
  ⟨op, has, fun s => ⟨s.after r op, by rw [hedges]; exact List.mem_singleton_self _⟩⟩

theorem Reaches.leads (h : Reaches r pc s) (hleads : r.Leads pc next) : ∃ t, Reaches r next t := by
  obtain ⟨op, has, hedge⟩ := hleads
  obtain ⟨t, edge⟩ := hedge s
  exact ⟨t, .step h has edge⟩

end Edges

-- ---------------------------------------------------------------------------
-- Activations after a step
-- ---------------------------------------------------------------------------

/-- What a step makes of the activations: the innermost one is a frame and goes on along an edge; a frame begins in
its place; it stays, or something that is no frame takes its place, and others that are no frames begin inside; or
it is over, and the one around it goes on. -/
inductive Advances (a : Activation) (rest after : List Activation) : Prop
  | goes {f : Frame} {next : Nat} (frame : a = .script f) (leads : f.routine.Leads f.ip next)
      (control : after = .script { f with ip := next } :: rest)
  | begins {f : Frame} (before : a.frame? = none) (start : f.ip = 0) (control : after = .script f :: rest)
  | stays (a' : Activation) (inner : List Activation) (plain : ∀ b ∈ inner, b.frame? = none)
      (same : a'.frame? = none ∨ a' = a) (control : after = inner ++ a' :: rest)
  | leaves (control : after = resumed rest)

namespace Advances

variable {a : Activation} {rest : List Activation}

theorem refl (a : Activation) (rest : List Activation) : Advances a rest (a :: rest) :=
  .stays a [] (List.forall_mem_nil _) (.inr rfl) rfl

/-- What takes the place is no frame. -/
theorem replaced {a' : Activation} (ha' : a'.frame? = none) : Advances a rest (a' :: rest) :=
  .stays a' [] (List.forall_mem_nil _) (.inl ha') rfl

/-- A call begins inside. -/
theorem calls {a' : Activation} (ha' : a'.frame? = none ∨ a' = a) (count : Nat) (keepRef : Bool) :
    Advances a rest (.entering count keepRef :: a' :: rest) :=
  .stays a' [.entering count keepRef] (by simp [Activation.frame?]) ha' rfl

end Advances

-- ---------------------------------------------------------------------------
-- Calls
-- ---------------------------------------------------------------------------

section Calls

variable {m : Machine} {a : Activation} {rest : List Activation}

theorem Ends.forM {f : α → Run PUnit} {as : List α} {P E : Machine → Prop}
    (hf : ∀ a m, P m → Ends (f a) m (fun _ => P) E) (hm : P m) : Ends (as.forM f) m (fun _ => P) E := by
  induction as generalizing m with
  | nil => exact .pure hm
  | cons a rest ih => exact .bind ((hf a m hm).after fun _ m' hm' => ih hm')

/-- Arguments are prepared. -/
theorem prepareAll_control (hm : m.heap.IsSound) (base : Nat) (flags : RefFlags) (count : Nat) :
    Ends (Run.prepareAll base flags count) m (fun _ m' => m'.heap.IsSound ∧ m'.control = m.control)
      (·.control = m.control) := by
  refine .forM (P := fun m' => m'.heap.IsSound ∧ m'.control = m.control) (fun k m' ⟨hsound, hcontrol⟩ => ?_) ⟨hm, rfl⟩
  refine .bind (.get (.bind ?_))
  refine .tame (.prepare _ _) hsound (fun v m'' _ hspares => .modify ?_) fun m'' hspares => ?_
  · exact ⟨hspares.sound hsound, hspares.control.trans hcontrol⟩
  · exact hspares.control.trans hcontrol

/-- A call that begins is one of a native function, or of a frame at its first instruction. -/
theorem begin_control (hm : m.heap.IsSound) (hcontrol : m.control = a :: rest) (count : Nat) (keepRef : Bool) :
    Ends (Run.begin count keepRef) m
      (fun begun m' => m'.heap.IsSound ∧ match begun with
        | some w => m'.control = .native w :: rest
        | none => ∃ f, f.ip = 0 ∧ m'.control = .script f :: rest)
      (·.control = m.control) := by
  refine .bind (.get ?_)
  dsimp only
  split
  · exact .fail rfl
  refine .bind (.lift (fun closure _ => .bind ?_) rfl)
  have hprepare := prepareAll_control hm (m.stack.size - 1 - count + 1) closure.refFlags count
  refine .of_outcome (fun _ m' h => ?_) fun e m' h => hprepare.of_error h
  obtain ⟨hsound, hkept⟩ := hprepare.of_ok h
  have hdrop : m'.control.drop 1 = rest := by rw [hkept, hcontrol]; rfl
  split
  · refine .bind (.popMany hkept fun args _ => .bind (.modify (.pure ⟨hsound, ?_⟩)))
    exact congrArg _ hdrop
  · split
    · exact .fail hkept
    · exact .bind (.modify (.pure ⟨hsound, _, rfl, congrArg _ hdrop⟩))

theorem complete_advances (hcontrol : m.control = a :: rest) (b : Activation) (slot : Nat) (keepRef : Bool)
    (v : Value) :
    Ends (Run.complete slot keepRef v) m (fun _ m' => Advances b rest m'.control) fun m' =>
      Advances b rest m'.control := by
  refine .of_outcome (fun _ m' h => ?_) fun e m' h => ?_
  · cases (complete_run slot keepRef v m).symm.trans h
    exact .leaves (by rw [hcontrol]; rfl)
  · cases (complete_run slot keepRef v m).symm.trans h

/-- Operands are pushed. -/
theorem push_control (v : Value) (m' : Machine) (h : m'.control = m.control) :
    Ends (Run.push v) m' (fun _ m'' => m''.control = m.control) (·.control = m.control) := .push h h

theorem continueNative_advances {w : NativeCall} (hcontrol : m.control = .native w :: rest) (b : Activation)
    (reply : Reply) :
    Ends (Run.continueNative w reply) m (fun _ m' => Advances b rest m'.control) fun m' =>
      Advances b rest m'.control := by
  have hfailed (m' : Machine) (h : m'.control = m.control) : Advances b rest m'.control := by
    rw [h, hcontrol]
    exact .replaced rfl
  cases reply with
  | value v => exact complete_advances hcontrol b w.slot w.keepRef v
  | call callee args guarded =>
    have hpush := push_control (m := m) callee m rfl
    refine .bind (.get (.bind (.of_outcome (fun _ m₁ h₁ => ?_) fun e m₁ h₁ => hfailed _ (hpush.of_error h₁))))
    have hpushes : Ends (args.forM Run.push) m₁ (fun _ m' => m'.control = m.control) (·.control = m.control) := by
      obtain ⟨items⟩ := args
      rw [List.forM_toArray' _ _ rfl]
      exact .forM (fun v m' h => push_control v m' h) (hpush.of_ok h₁)
    refine .bind (.of_outcome (fun _ m₂ h₂ => ?_) fun e m₂ h₂ => hfailed _ (hpushes.of_error h₂))
    refine .bind (.modify (.modify ?_))
    have hdrop : m₂.control.drop 1 = rest := by rw [hpushes.of_ok h₂, hcontrol]; rfl
    simp only [hdrop]
    exact .calls (.inl rfl) _ _

theorem enter_advances (hm : m.heap.IsSound) (hcontrol : m.control = a :: rest) (ha : a.frame? = none) (count : Nat)
    (keepRef : Bool) :
    Ends (Run.enter count keepRef) m (fun _ m' => Advances a rest m'.control) fun m' =>
      Advances a rest m'.control := by
  have hfailed (m' : Machine) (h : m'.control = m.control) : Advances a rest m'.control := by
    rw [h, hcontrol]
    exact .refl a rest
  have hbegin := begin_control hm hcontrol count keepRef
  refine .bind (.of_outcome (fun begun m₁ h₁ => ?_) fun e m₁ h₁ => hfailed _ (hbegin.of_error h₁))
  obtain ⟨hsound, hbegun⟩ := hbegin.of_ok h₁
  cases begun with
  | some w =>
    have hnative (m' : Machine) (h : m₁.Spares m') : m'.control = .native w :: rest := h.control.trans hbegun
    refine .bind (.tame (w.fn.run_tame w.args) hsound (fun reply m₂ _ hspares => ?_) fun m₂ hspares => ?_)
    · exact continueNative_advances (hnative m₂ hspares) a reply
    · rw [hnative m₂ hspares]
      exact .replaced rfl
  | none =>
    obtain ⟨f, hf, hframe⟩ := hbegun
    have hentered (m' : Machine) (h : m₁.Spares m') : Advances a rest m'.control := by
      rw [h.control, hframe]
      exact .begins ha hf rfl
    exact .tame .collectIfDue hsound (fun _ m' _ h => hentered m' h) hentered

theorem resumeNative_advances {w : NativeCall} (hm : m.heap.IsSound) (hcontrol : m.control = .native w :: rest) :
    Ends (Run.resumeNative w) m (fun _ m' => Advances (.native w) rest m'.control) fun m' =>
      Advances (.native w) rest m'.control := by
  have hfailed (m' : Machine) (h : m'.control = .native w :: rest) : Advances (.native w) rest m'.control :=
    h ▸ .refl _ rest
  refine .bind (.pop (hfailed _ hcontrol) fun v _ => ?_)
  split
  · refine .bind (.tame (.newList _) hm (fun pair m' _ hspares => ?_) fun m' hspares => ?_)
    · exact complete_advances (hspares.control.trans hcontrol) _ w.slot w.keepRef pair
    · exact hfailed _ (hspares.control.trans hcontrol)
  · exact complete_advances hcontrol _ w.slot w.keepRef v

end Calls

-- ---------------------------------------------------------------------------
-- Steps
-- ---------------------------------------------------------------------------

section Steps

variable {host m m' : Machine} {callee : Nat} {rest : List Activation}

/-- An instruction leaves the activations alone, and the frame goes on along an edge, makes a call or returns. -/
theorem stepFrame_advances {f : Frame} {op : Instruction} (has : f.routine.Has f.ip op)
    (hcontrol : m.control = .script f :: rest)
    (hperform : Ends (Run.perform f op) m
      (fun flow m' => m'.control = m.control ∧ match flow with
        | .next => f.routine.Leads f.ip (f.ip + 1)
        | .jump target => f.routine.Leads f.ip target
        | .enter .. | .leave _ => True)
      (·.control = m.control)) :
    Ends (Run.stepFrame f) m (fun _ m' => Advances (.script f) rest m'.control) fun m' =>
      Advances (.script f) rest m'.control := by
  have hop : f.routine.code.ops[f.ip]? = some op := has
  unfold Run.stepFrame
  simp only [hop]
  refine .bind (.of_outcome (fun flow m₁ h₁ => ?_) fun e m₁ h₁ => ?_)
  · obtain ⟨hkept, hflow⟩ := hperform.of_ok h₁
    rw [hcontrol] at hkept
    cases flow with
    | next => exact .modify (.goes rfl hflow (by rw [hkept]))
    | jump target => exact .modify (.goes rfl hflow (by rw [hkept]))
    | enter count keepRef =>
      refine .modify ?_
      rw [hkept]
      exact .calls (.inr rfl) count keepRef
    | leave v => exact complete_advances hkept _ (f.base - 1) f.keepRef v
  · rw [hperform.of_error h₁, hcontrol]
    exact .refl _ rest

/-- A step of a running machine. -/
theorem Running.step_advances (h : Running host callee m) (hlength : host.control.length < m.control.length)
    {a : Activation} (hcontrol : m.control = a :: rest) :
    Ends Run.step m (fun _ m' => Advances a rest m'.control) fun m' => Advances a rest m'.control := by
  rw [Ends.congr (step_eq hcontrol)]
  have hsound := h.interrupted.within.sound
  cases h with
  | done within hhost => exact absurd hlength (by rw [hhost]; exact Nat.lt_irrefl _)
  | entering atop =>
    cases hcontrol.symm.trans atop.control
    exact enter_advances hsound hcontrol rfl _ _
  | answered resuming =>
    cases hcontrol.symm.trans resuming.atop.control
    exact resumeNative_advances hsound hcontrol
  | @entered f acts slot height precall shape atop base fits start arguments room =>
    cases hcontrol.symm.trans atop.control
    have has : f.routine.Has f.ip (.reserve f.routine.frameSize) := start ▸ (fits.sound _ .self).nonempty
    refine stepFrame_advances has hcontrol (.bind ((reserve_turns (f := f) _).after fun _ m' h => ?_))
    exact .pure ⟨h.control, .follow has fun _ => rfl⟩
  | @executing f acts slot precall shape fits inside site =>
    cases hcontrol.symm.trans site.control
    obtain ⟨op, has⟩ : ∃ op, f.routine.Has f.ip op := ⟨_, Array.getElem?_eq_getElem inside⟩
    have hadmits := fits.assigned.admits _ _ has
    have hrange := (fits.sound _ .self).inRange _ _ has
    have hpops := hadmits.all_pops_le site.meets.pending
    have hsize : m.stack.size = f.base + f.routine.frameSize + (shape f.ip).operands := site.size
    have hturns := perform_turns (f := f) hrange hsound (by omega)
    have hgoes := FrameSite.perform (σ := ⟨host, callee, f, acts, slot, precall⟩) fits hrange hadmits m site
    refine stepFrame_advances has hcontrol (.of_outcome (fun flow m' h => ?_) fun e m' h => hturns.of_error h)
    simp only [h] at hgoes
    refine ⟨(hturns.of_ok h).control, ?_⟩
    cases flow with
    | next => exact .of_edge has hgoes.choose_spec.1
    | jump target => exact .of_edge has hgoes.choose_spec.1
    | enter | leave => trivial

end Steps

-- ---------------------------------------------------------------------------
-- Frames after a step
-- ---------------------------------------------------------------------------

/-- The frame at a depth of the second machine is where it was, or it has gone along an edge of its code and is the
innermost activation now. -/
def Frame.Moves (f f' : Frame) (depth : Nat) (m' : Machine) : Prop :=
  f' = f ∨ ∃ next, f.routine.Leads f.ip next ∧ f' = { f with ip := next } ∧ m'.control.length = depth + 1

/-- From a depth on, every frame of the second machine is at its first instruction, or it was in the first machine
and has moved. -/
def Machine.Proceeds (outer : Nat) (m m' : Machine) : Prop :=
  ∀ depth f', outer ≤ depth → m'.frameAt depth = some f' →
    f'.ip = 0 ∧ m.frameAt depth = none ∨ ∃ f, m.frameAt depth = some f ∧ f.Moves f' depth m'

section Frames

variable {host m m' : Machine} {callee : Nat}

theorem length_resumed (acts : List Activation) : (resumed acts).length = acts.length := by
  unfold resumed
  split <;> simp

/-- A frame that is returned to has made a call. -/
theorem Waits.moves {slot depth : Nat} {acts : List Activation} {precall : List RefFlags} {f' : Frame}
    (h : Waits host callee m acts slot precall) (hdepth : host.control.length ≤ depth)
    (hcontrol : m'.control = resumed acts) (hf' : m'.frameAt depth = some f') :
    ∃ f, acts.reverse[depth]? = some (.script f) ∧ f.Moves f' depth m' := by
  have hlt := Machine.lt_of_frameAt hf'
  rw [Machine.frameAt_eq_some, hcontrol] at hf'
  rw [hcontrol, length_resumed] at hlt
  cases h with
  | host => omega
  | native => exact ⟨f', hf', .inl rfl⟩
  | @script g rest _ _ _ _ count _ keepRef outer base fits called =>
    change (Activation.script { g with ip := g.ip + 1 } :: rest).reverse[depth]? = _ at hf'
    by_cases hinside : depth < rest.length
    · rw [getElem?_reverse_suffix (List.suffix_cons _ rest) hinside] at hf' ⊢
      exact ⟨f', hf', .inl rfl⟩
    · obtain rfl : depth = rest.length := by
        rw [List.length_cons] at hlt
        omega
      rw [getElem?_reverse_cons] at hf' ⊢
      obtain rfl := Activation.script.inj (Option.some.inj hf')
      have hleads : g.routine.Leads g.ip (g.ip + 1) := .follow called fun _ => rfl
      exact ⟨g, rfl, .inr ⟨_, hleads, rfl, by rw [hcontrol, length_resumed, List.length_cons]⟩⟩

theorem Advances.proceeds {a : Activation} {rest : List Activation} {slot : Nat} {precall : List RefFlags}
    (h : Advances a rest m'.control) (hcontrol : m.control = a :: rest)
    (hwaits : Waits host callee m rest slot precall) :
    m.Proceeds host.control.length m' := by
  intro depth f' hdepth hf'
  have hrest {f : Frame} (hf : rest.reverse[depth]? = some (.script f)) : m.frameAt depth = some f :=
    Machine.frameAt_of_suffix (hcontrol ▸ List.suffix_cons a rest) hf
  have hhead : m.frameAt rest.length = a.frame? := by
    rw [Machine.frameAt, hcontrol, getElem?_reverse_cons]
    rfl
  cases h with
  | leaves hleaves =>
    obtain ⟨f, hf, hmoves⟩ := hwaits.moves hdepth hleaves hf'
    exact .inr ⟨f, hrest hf, hmoves⟩
  | goes hframe hleads hgoes =>
    subst hframe
    rcases Machine.frameAt_cons hgoes hf' with ⟨rfl, heq⟩ | ⟨-, hf'⟩
    · obtain rfl := Activation.script.inj heq
      exact .inr ⟨_, hhead, .inr ⟨_, hleads, rfl, by rw [hgoes, List.length_cons]⟩⟩
    · exact .inr ⟨f', hrest hf', .inl rfl⟩
  | begins hbefore hstart hbegins =>
    rcases Machine.frameAt_cons hbegins hf' with ⟨rfl, heq⟩ | ⟨-, hf'⟩
    · obtain rfl := Activation.script.inj heq
      exact .inl ⟨hstart, hhead.trans hbefore⟩
    · exact .inr ⟨f', hrest hf', .inl rfl⟩
  | stays a' inner hinner hsame hstays =>
    rw [Machine.frameAt_eq_some, hstays] at hf'
    rcases Nat.lt_trichotomy depth rest.length with hlt | rfl | hlt
    · have hsuffix : rest <:+ inner ++ a' :: rest := ⟨inner ++ [a'], by simp⟩
      rw [getElem?_reverse_suffix hsuffix hlt] at hf'
      exact .inr ⟨f', hrest hf', .inl rfl⟩
    · rw [getElem?_reverse_suffix (List.suffix_append inner (a' :: rest)) (by simp), getElem?_reverse_cons] at hf'
      obtain rfl := Option.some.inj hf'
      rcases hsame with hnone | rfl
      · cases hnone
      · exact .inr ⟨f', hhead, .inl rfl⟩
    -- What is inside the innermost activation is no frame.
    · have hmem : Activation.script f' ∈ inner := by
        rw [List.reverse_append, List.getElem?_append_right (by simp; omega)] at hf'
        exact List.mem_reverse.mp (List.mem_of_getElem? hf')
      cases hinner _ hmem

/-- A step, with the recovery from its failure. -/
theorem Running.attempt_proceeds (h : Running host callee m) (hlength : host.control.length < m.control.length)
    (hm' : Run.attempt host.control.length m = .ok () m') : m.Proceeds host.control.length m' := by
  obtain ⟨a, rest, slot, precall, hcontrol, hwaits, -⟩ := h.step_leaves hlength
  have hadvances := h.step_advances hlength hcontrol
  unfold Run.attempt at hm'
  cases hrun : Run.step m with
  | ok _ after =>
    simp only [hrun] at hm'
    cases hm'
    exact (hadvances.of_ok hrun).proceeds hcontrol hwaits
  | error e after =>
    simp only [hrun] at hm'
    split at hm'
    · next recovered hrecover =>
      cases hm'
      obtain ⟨w, acts, hacts, hafter⟩ := recover_control hrecover
      have hproceeds := (hadvances.of_error hrun).proceeds hcontrol hwaits
      intro depth f' hdepth hf'
      rcases Machine.frameAt_cons hafter hf' with ⟨-, hnative⟩ | ⟨hlt, hf'⟩
      · cases hnative
      have hbefore := Machine.frameAt_of_suffix ((List.suffix_cons _ acts).trans hacts) hf'
      refine (hproceeds depth f' hdepth hbefore).imp_right fun ⟨f, hf, hmoves⟩ => ⟨f, hf, hmoves.imp_right ?_⟩
      -- The frame is around the guarded call, so it is not the innermost activation.
      rintro ⟨-, -, -, hinnermost⟩
      have := hacts.length_le
      rw [List.length_cons] at this
      omega
    · cases hm'

end Frames

-- ---------------------------------------------------------------------------
-- Live machines
-- ---------------------------------------------------------------------------

/-- A machine that runs a call, and has come to where its frames stand. -/
structure Live (host : Machine) (callee : Nat) (m : Machine) : Prop where
  running : Running host callee m
  reached : ∀ depth f, host.control.length ≤ depth → m.frameAt depth = some f → ∃ s, Reaches f.routine f.ip s

section Live

variable {host m m' : Machine} {callee count : Nat}

theorem Live.attempt (h : Live host callee m) (hidle : host.IsIdle) (hlength : host.control.length < m.control.length)
    (hm' : Run.attempt host.control.length m = .ok () m') : Live host callee m' := by
  refine ⟨?_, fun depth f' hdepth hf' => ?_⟩
  · have hattempt := attempt_running hidle m ⟨h.running, hlength⟩
    rwa [hm'] at hattempt
  · rcases h.running.attempt_proceeds hlength hm' depth f' hdepth hf' with ⟨hip, -⟩ | ⟨f, hf, hmoves⟩
    · exact ⟨{}, by rw [hip]; exact .start⟩
    · obtain ⟨s, hs⟩ := h.reached depth f hdepth hf
      rcases hmoves with rfl | ⟨next, hleads, rfl, -⟩
      · exact ⟨s, hs⟩
      · exact hs.leads hleads

/-- A frame that has begun has as many operands as any shape says with which control reaches its instruction. -/
theorem Live.size (h : Live host callee m) {f : Frame} {rest : List Activation} {s : Shape}
    (hlength : host.control.length ≤ rest.length) (hcontrol : m.control = .script f :: rest) (hip : f.ip ≠ 0)
    (hs : Reaches f.routine f.ip s) : m.stack.size = f.base + f.routine.frameSize + s.operands := by
  cases h.running with
  | done within hhost =>
    rw [← hhost, hcontrol, List.length_cons] at hlength
    omega
  | entering atop => cases hcontrol.symm.trans atop.control
  | answered resuming => cases hcontrol.symm.trans resuming.atop.control
  | entered atop base fits start =>
    cases hcontrol.symm.trans atop.control
    exact absurd start hip
  | executing fits inside site =>
    cases hcontrol.symm.trans site.control
    rw [(fits.assigned.reaches hs).operands]
    exact site.size

end Live

-- ---------------------------------------------------------------------------
-- Alterations
-- ---------------------------------------------------------------------------

/-- The instruction names the slot: as a variable, or as one that a function captures. The reservation of
the slots names all of them. -/
def Instruction.Names (r : Routine) (i : Nat) : Instruction → Prop
  | .read slot _ | .write slot | .declare slot => slot = .frame i
  | .define k | .count k _ => k = i
  | .closure child _ => ∃ routine, r.children[child]? = some routine ∧ ⟨i, true⟩ ∈ routine.captures
  | .reserve _ => True
  | _ => False

section Performing

variable {f : Frame} {m : Machine} {changed : Nat → Prop} {height n k : Nat}

/-- What the computation leaves alone. -/
theorem Alters.keeps {x : Run α} (hx : Alters changed height n k x) (hm : m.heap.IsSound)
    (hroom : height + n ≤ m.stack.size) :
    Ends x m (fun _ => m.KeepsBut changed height) (·.control = m.control) :=
  (hx m hm hroom).after fun _ _ h => h.kept

/-- What the computation and its continuation leave alone. -/
theorem Alters.keeps_bind {x : Run α} {g : α → Run β} (hx : Alters changed height n k x)
    (hg : ∀ a m, m.heap.IsSound → height + k ≤ m.stack.size →
      Ends (g a) m (fun _ => m.KeepsBut changed height) (·.control = m.control))
    (hm : m.heap.IsSound) (hroom : height + n ≤ m.stack.size) :
    Ends (x >>= g) m (fun _ => m.KeepsBut changed height) (·.control = m.control) := by
  have hxm := hx m hm hroom
  refine .bind (.of_outcome (fun a m' h => ?_) fun e m' h => hxm.of_error h)
  have hm' := hxm.of_ok h
  have hgm := hg a m' hm'.sound hm'.room
  exact .of_outcome (fun b m'' h' => hm'.kept.trans (hgm.of_ok h')) fun e m'' h' =>
    (hgm.of_error h').trans hm'.kept.control

/-- A function is made; the variables that it captures get cells. -/
theorem closure_keeps {child params : Nat}
    (hchanged : ∀ i, (Instruction.closure child params).Names f.routine i → changed (f.base + i))
    (hm : m.heap.IsSound) (hroom : height + (Instruction.closure child params).pops ≤ m.stack.size) :
    Ends (Run.performPlain f (.closure child params)) m (fun _ => m.KeepsBut changed height)
      (·.control = m.control) := by
  refine (Alters.popMany (n := 0) params).keeps_bind (fun classes m hm hroom => ?_) hm (by rwa [Nat.zero_add])
  unfold Run.newClosure
  cases hroutine : f.routine.children[child]? with
  | none => exact .bind (.fail rfl)
  | some routine =>
    have hcaptured : ∀ c ∈ routine.captures.toList, c.fromFrame = true → changed (f.base + c.index) :=
      fun c hc hframe => hchanged c.index ⟨routine, hroutine, by simpa [← hframe] using hc⟩
    simp only [bind_assoc, Array.mapM_eq_mapM_toList, bind_map_left]
    refine Alters.heap.keeps_bind (fun h m hm hroom => ?_) hm hroom
    refine (Alters.lift _).keeps_bind (fun signature m hm hroom => ?_) hm hroom
    refine (Alters.tame (.sealSignature _ _ _)).keeps_bind (fun _ m hm hroom => ?_) hm hroom
    refine (Alters.captures hcaptured).keeps_bind (fun cells m hm hroom => ?_) hm hroom
    refine .bind (.modify (.bind (.get (.bind (.of_outcome (fun v m' h => ?_) fun e m' h => ?_)))))
    all_goals cases h
    refine .push rfl ⟨rfl, fun j hj _ => ?_⟩
    change (m.stack.push _)[j]? = m.stack[j]?
    rw [Array.getElem?_push_lt (by omega), Array.getElem?_eq_getElem (by omega)]

/-- An instruction on operands. -/
theorem operands_keeps {op : Instruction} (hop : op.isStraight = true) (hslots : op.namesSlots = false)
    (hm : m.heap.IsSound) (hroom : height + op.pops ≤ m.stack.size) :
    Ends (Run.performPlain f op) m (fun _ => m.KeepsBut changed height) (·.control = m.control) := by
  obtain ⟨k, halters⟩ := performPlain_alters hop hslots
  exact halters.keeps hm (by rwa [Nat.zero_add])

/-- An instruction that neither jumps nor calls nor returns changes only slots that it names. -/
theorem performPlain_keeps {op : Instruction} (hop : op.isStraight = true)
    (hchanged : ∀ i, op.Names f.routine i → changed (f.base + i)) (hreserve : ∀ n, op ≠ .reserve n)
    (hm : m.heap.IsSound) (hroom : height + op.pops ≤ m.stack.size) :
    Ends (Run.performPlain f op) m (fun _ => m.KeepsBut changed height) (·.control = m.control) := by
  have alters {x : Run PUnit} {k : Nat} (h : Alters changed height (0 + op.pops) k x) :
      Ends x m (fun _ => m.KeepsBut changed height) (·.control = m.control) :=
    h.keeps hm (by rwa [Nat.zero_add])
  cases op with
  | reserve n => exact absurd rfl (hreserve n)
  | read slot use => exact alters ((Alters.readSlot hchanged use).bind fun v => .push v)
  | write slot => exact alters (Alters.pop.bind fun v => .writeSlot hchanged v)
  | declare slot => exact alters (Alters.pop.bind fun v => .declare hchanged v)
  | define i => exact alters (Alters.pop.bind fun v => (Alters.local? f i).bind fun _ => .setLocal (hchanged i rfl) v)
  | count i up =>
    exact alters ((Alters.local? f i).bind fun old => Alters.heap.bind fun h => (Alters.lift _).bind fun v =>
      (Alters.tame (.assign _ _)).bind fun held => .setLocal (hchanged i rfl) held)
  | closure child params => exact closure_keeps hchanged hm hroom
  | jump | call | result => cases hop
  | _ => exact operands_keeps rfl rfl hm hroom

/-- An instruction changes only slots that it names. -/
theorem perform_keeps {op : Instruction} (hchanged : ∀ i, op.Names f.routine i → changed (f.base + i))
    (hreserve : ∀ n, op ≠ .reserve n) (hm : m.heap.IsSound) (hroom : height + op.pops ≤ m.stack.size) :
    Ends (Run.perform f op) m (fun _ => m.KeepsBut changed height) (·.control = m.control) := by
  cases op with
  | jump test target => exact (Alters.performJump test target).keeps hm hroom
  | call args keepRef => exact .bind (.modify (.pure ⟨rfl, fun _ _ _ => rfl⟩))
  | result => exact (Alters.pop.bind fun v => .pure (Flow.leave v)).keeps (n := 1) hm hroom
  | _ => exact .bind ((performPlain_keeps rfl hchanged hreserve hm hroom).after fun _ _ h => .pure h)

end Performing

-- ---------------------------------------------------------------------------
-- Slots that stay
-- ---------------------------------------------------------------------------

/-- A step of the innermost frame ends it, or it changes only what its instruction changes. -/
theorem stepFrame_keeps {f : Frame} {op : Instruction} {m : Machine} {rest : List Activation} {changed : Nat → Prop}
    {height : Nat} (has : f.routine.Has f.ip op) (hcontrol : m.control = .script f :: rest)
    (hkeeps : Ends (Run.perform f op) m (fun _ => m.KeepsBut changed height) (·.control = m.control)) :
    Ends (Run.stepFrame f) m
      (fun _ m' => m'.control.length ≤ rest.length ∨ ∀ k < height, ¬changed k → m'.stack[k]? = m.stack[k]?)
      (·.control = m.control) := by
  have hop : f.routine.code.ops[f.ip]? = some op := has
  unfold Run.stepFrame
  simp only [hop]
  refine .bind (.of_outcome (fun flow m₁ h => ?_) fun e m₁ h => hkeeps.of_error h)
  have hkept := hkeeps.of_ok h
  have hcontrol₁ := hkept.control.trans hcontrol
  cases flow with
  | next | jump | enter => exact .modify (.inr hkept.stack)
  | leave v =>
    have hcomplete := complete_run (f.base - 1) f.keepRef v m₁
    refine .of_outcome (fun _ m₂ h₂ => .inl ?_) fun e m₂ h₂ => ?_
    · cases hcomplete.symm.trans h₂
      rw [hcontrol₁, List.drop_succ_cons, List.drop_zero, length_resumed]
    · cases hcomplete.symm.trans h₂

/-- In a step, a frame at a depth ends, or it moves and keeps the slots that its instruction does not name. -/
theorem Running.attempt_keeps {host m m' : Machine} {callee depth : Nat} {f : Frame} (h : Running host callee m)
    (hidle : host.IsIdle) (hlength : host.control.length < m.control.length)
    (hm' : Run.attempt host.control.length m = .ok () m') (hdepth : host.control.length ≤ depth)
    (hf : m.frameAt depth = some f) (hactive : depth < m'.control.length) :
    ∃ f', m'.frameAt depth = some f' ∧ f.Moves f' depth m' ∧ ∀ i < f.routine.frameSize,
      (∀ op, f.routine.Has f.ip op → ¬op.Names f.routine i) → m'.stack[f.base + i]? = m.stack[f.base + i]? := by
  have hmoves {f' : Frame} (hf' : m'.frameAt depth = some f') : f.Moves f' depth m' := by
    rcases h.attempt_proceeds hlength hm' depth f' hdepth hf' with ⟨-, hnone⟩ | ⟨g, hg, hmoves⟩
    · cases hf.symm.trans hnone
    · obtain rfl : f = g := Option.some.inj (hf.symm.trans hg)
      exact hmoves
  by_cases hinner : depth + 1 < m.control.length
  · -- The frame waits for a call.
    obtain hover | ⟨f', hf', -, hstack⟩ := h.attempt_idles hidle hlength hm' hdepth hf hinner
    · omega
    · exact ⟨f', hf', hmoves hf', fun i hi _ => hstack _ (by omega)⟩
  · -- The frame executes an instruction.
    have hlt := Machine.lt_of_frameAt hf
    obtain ⟨a, rest, hcontrol⟩ := List.exists_cons_of_length_pos (l := m.control) (by omega)
    rw [hcontrol, List.length_cons] at hlt hinner
    obtain rfl : depth = rest.length := by omega
    obtain rfl : a = .script f := by
      rcases Machine.frameAt_cons hcontrol hf with ⟨-, ha⟩ | ⟨hlt, -⟩
      · exact ha
      · omega
    obtain ⟨op, hop, hover | ⟨f', hf', -, -⟩⟩ := h.attempt_steps hlength hcontrol hm'
    · omega
    refine ⟨f', hf', hmoves hf', fun i hi hfree => ?_⟩
    obtain ⟨hsound, -, op', hop', hrange, hroom⟩ := h.innermost hlength hcontrol
    obtain rfl : op = op' := Option.some.inj (hop.symm.trans hop')
    rcases hroom with rfl | hroom
    · exact absurd trivial (hfree _ hop)
    have hreserve (n : Nat) : op ≠ .reserve n := by
      rintro rfl
      exact hfree _ hop trivial
    have hkeeps : Ends (Run.perform f op) m (fun _ => m.KeepsBut (fun k => ∃ i, k = f.base + i ∧ op.Names f.routine i)
        (f.base + f.routine.frameSize)) (·.control = m.control) :=
      perform_keeps (fun i hi => ⟨i, rfl, hi⟩) hreserve hsound hroom
    have hstep := stepFrame_keeps hop hcontrol hkeeps
    rcases attempt_ends hcontrol hstep hm' with hover | hover | hkept
    · omega
    · omega
    · refine hkept _ (by omega) ?_
      rintro ⟨k, hk, hnames⟩
      obtain rfl : i = k := by omega
      exact hfree op hop hnames

end Rill
