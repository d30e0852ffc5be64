-- SUMMARY: Counting loops in a routine, and the passes of their bodies.
import Rill.Proofs.Depth.Nodes
import Rill.Proofs.Loops.Hidden

/-!
# Passes

A counting loop keeps its counter, its limit and, if it is given, its step in slots that follow one another. A pass
of the body begins where the test does not leave the loop, and ends at the instructions that move the counter on,
or behind the loop. Whatever the body does, the limit and the step stay what they are.
-/

namespace Rill

open Layout

-- ---------------------------------------------------------------------------
-- Steps of a call
-- ---------------------------------------------------------------------------

namespace Machine

/-- The machine after so many steps of a call, if none of them fails. -/
def after (outer t : Nat) (m : Machine) : Option Machine :=
  match Run.attempts outer t m with
  | .ok _ m' => some m'
  | .error .. => none

variable {outer t u : Nat} {m m' : Machine}

theorem after_zero : m.after outer 0 = some m := rfl

theorem after_over (h : m.control.length ≤ outer) : m.after outer t = some m := by
  have hover : Run.attempts outer t m = .ok true m := by
    cases t <;>
      simp only [Run.attempts, bind, EStateM.bind, Run.get_run, pure, EStateM.pure, isEmpty_drop_iff.mpr h,
        if_true]
  rw [after, hover]

theorem after_succ (h : outer < m.control.length) :
    m.after outer (t + 1) = match Run.attempt outer m with
      | .ok _ m' => m'.after outer t
      | .error .. => none := by
  have hgoing : Run.attempts outer (t + 1) m = (Run.attempt outer >>= fun _ => Run.attempts outer t) m := by
    have hempty : (m.control.drop outer).isEmpty = false := by
      rw [← Bool.not_eq_true, isEmpty_drop_iff]
      omega
    rw [Run.attempts]
    simp only [bind, EStateM.bind, Run.get_run, hempty]
    rfl
  rw [after, hgoing]
  cases hattempt : Run.attempt outer m with
  | ok _ m₁ => rw [Run.bind_of_ok hattempt]; rfl
  | error e m₁ => rw [Run.bind_of_error hattempt]

theorem after_step (h : outer < m.control.length) (hm' : Run.attempt outer m = .ok () m') :
    m.after outer (t + 1) = m'.after outer t := by
  rw [after_succ h, hm']

theorem after_add : m.after outer (t + u) = (m.after outer t).bind (·.after outer u) := by
  induction t generalizing m with
  | zero => rw [Nat.zero_add, after_zero]; rfl
  | succ t ih =>
    rcases Nat.lt_or_ge outer m.control.length with hlt | hle
    · rw [Nat.add_right_comm, after_succ hlt, after_succ hlt]
      split
      · exact ih
      · rfl
    · rw [after_over hle, after_over hle, Option.bind_some, after_over hle]

/-- The step that comes next. -/
theorem attempt_of_after {m'' : Machine} (hm' : m.after outer t = some m') (hm'' : m.after outer (t + 1) = some m'')
    (h : outer < m'.control.length) : Run.attempt outer m' = .ok () m'' := by
  rw [after_add, hm', Option.bind_some, after_succ h] at hm''
  cases hattempt : Run.attempt outer m' with
  | ok _ m₁ =>
    simp only [hattempt] at hm''
    exact Option.some.inj hm'' ▸ rfl
  | error e m₁ =>
    simp only [hattempt] at hm''
    cases hm''

/-- The innermost activation is a frame at a depth that is about to execute an instruction. -/
def standsAt (m : Machine) (depth pc : Nat) : Bool :=
  match m.control with
  | .script f :: rest => rest.length == depth && f.ip == pc
  | _ => false

theorem standsAt_iff {depth pc : Nat} :
    m.standsAt depth pc = true ↔ ∃ f rest, m.control = .script f :: rest ∧ rest.length = depth ∧ f.ip = pc := by
  unfold standsAt
  split
  · next f rest hcontrol => simp [hcontrol]
  · next hnone =>
    refine ⟨nofun, fun ⟨f, rest, hcontrol, _⟩ => absurd hcontrol (hnone f rest)⟩

theorem frameAt_innermost {f : Frame} {rest : List Activation} (h : m.control = .script f :: rest) :
    m.frameAt rest.length = some f := by
  rw [frameAt_eq_some, h]
  exact getElem?_reverse_cons

/-- A frame at a depth that is the innermost activation. -/
theorem standsAt_of_frameAt {depth : Nat} {f : Frame} (hf : m.frameAt depth = some f)
    (hlength : m.control.length = depth + 1) : m.standsAt depth f.ip = true := by
  obtain ⟨a, rest, hcontrol⟩ := List.exists_cons_of_length_pos (l := m.control) (by omega)
  rw [hcontrol, List.length_cons] at hlength
  rcases frameAt_cons hcontrol hf with ⟨hdepth, rfl⟩ | ⟨hlt, -⟩
  · exact standsAt_iff.mpr ⟨f, rest, hcontrol, hdepth.symm, rfl⟩
  · omega

end Machine

-- ---------------------------------------------------------------------------
-- Counting loops
-- ---------------------------------------------------------------------------

/-- Where a counting loop stands in a routine: the slot of its counter, behind which its limit and its step are, and
the instructions at which its test starts, the counter is moved on, and the loop is over. -/
structure ForLoop where
  routine : Routine
  counter : Nat
  descending : Bool
  stepped : Bool
  header : Nat
  next : Nat
  exit : Nat

namespace ForLoop

/-- The slot of the limit. -/
abbrev limit (L : ForLoop) : Nat := L.counter + 1

/-- The slot of the step. -/
abbrev step (L : ForLoop) : Nat := L.counter + 2

/-- The instruction that leaves the loop. -/
abbrev test (L : ForLoop) : Nat := L.header + 3

/-- The first instruction of the body. -/
abbrev body (L : ForLoop) : Nat := L.header + 4

/-- The slots that no name of the text denotes. -/
def hidden (L : ForLoop) : List Nat := if L.stepped then [L.step, L.limit] else [L.limit]

/-- The names that are visible in the body. -/
def names (Γ : Env) (name : String) (step : Option Expr) : Env := Γ.enter.declareAll (counterNames name step)

/-- The instructions of the routine are code for a loop with a counter of a name, perhaps a step, and a body. -/
structure Placed (L : ForLoop) (debug : Bool) (out : Outer) (Γ : Env) (name : String) (step : Option Expr)
    (body : Block) : Prop where
  counter : L.counter = Γ.taken
  stepped : L.stepped = step.isSome
  readCounter : L.routine.Has L.header (.read (.frame L.counter) .value)
  readLimit : L.routine.Has (L.header + 1) (.read (.frame L.limit) .value)
  compare : L.routine.Has (L.header + 2) (.binary (if L.descending then .lt else .gt))
  leave : L.routine.Has L.test (.jump .ifTrue L.exit)
  inner : PlacesBlock anywhere debug L.routine out (names Γ name step) (some (L.exit, L.next)) body L.body L.next
  onward : ∃ back, PlacesStep L.routine L.counter (if L.stepped then some L.step else none) L.descending L.next back ∧
    L.routine.Has back (.jump .always L.header) ∧ L.exit = back + 1
  room : (envAfterBlock debug (names Γ name step) body).taken ≤ L.routine.frameSize
  hides : Hides Γ []
  proper : body.Proper

section Placed

variable {L : ForLoop} {debug : Bool} {out : Outer} {Γ : Env} {name : String} {step : Option Expr} {body : Block}

/-- Code for a loop statement has the loop behind the code for its bounds. -/
theorem exists_placed {r : Routine} {loop : Loop} {descending : Bool} {pos : Site} {first last : Expr} {i j : Nat}
    (hroom : (envAfter debug Γ (.forLoop pos name descending first last step body)).taken ≤ r.frameSize)
    (hides : Hides Γ []) (hproper : body.Proper)
    (h : PlacesStmt anywhere debug r out Γ loop (.forLoop pos name descending first last step body) i j) :
    ∃ L : ForLoop, L.Placed debug out Γ name step body ∧ L.routine = r ∧ L.descending = descending ∧ L.exit = j := by
  obtain ⟨k, l, m, n, o, -, -, -, -, -, hread, hreadEnd, hcompare, htest, hbody, hnext, hback, rfl⟩ := h
  refine ⟨⟨r, Γ.taken, descending, step.isSome, m, n, o + 1⟩, ?_, rfl, rfl, rfl⟩
  refine ⟨rfl, rfl, hread, hreadEnd, hcompare, htest, hbody, ⟨o, ?_, hback, rfl⟩, hroom, hides, hproper⟩
  cases step <;> exact hnext

/-- No name of the body denotes the slots of limit and step. -/
theorem Placed.hidden (h : L.Placed debug out Γ name step body) : Hides (names Γ name step) L.hidden := by
  have hcounter : Hides (Γ.enter.declare name) [] := (h.hides.mono (.enter Γ)).mono (.declare _ name)
  have hlimit := hcounter.declare (show ¬IsName "$end" by simp [IsName])
  have hstepped := h.stepped
  have hcounter := h.counter
  cases step with
  | none =>
    have hslots : L.hidden = [Γ.taken + 1] := by simp [ForLoop.hidden, hstepped, hcounter]
    exact hslots ▸ hlimit
  | some e =>
    have hslots : L.hidden = [Γ.taken + 2, Γ.taken + 1] := by simp [ForLoop.hidden, hstepped, hcounter]
    exact hslots ▸ hlimit.declare (show ¬IsName "$step" by simp [IsName])

/-- The slots of limit and step are in the frame. -/
theorem Placed.hidden_lt (h : L.Placed debug out Γ name step body) {k : Nat} (hk : k ∈ L.hidden) :
    k < L.routine.frameSize := by
  have hbound := h.hidden.bound k hk
  have htaken := (envAfterBlock_extends debug (names Γ name step) body).taken
  have hroom := h.room
  omega

/-- No instruction of the body names the slots of limit and step. -/
theorem Placed.avoids (h : L.Placed debug out Γ name step body) : Layout.Avoids L.routine L.hidden L.body L.next :=
  placesBlock_avoids h.hidden h.proper h.inner

/-- The code of the body. -/
theorem Placed.stretch (h : L.Placed debug out Γ name step body) :
    Stretch L.routine L.body (.level []) L.next (.level []) (jumps (some (L.exit, L.next)) [])
      (PlacesBlock StartsLevel debug L.routine out (names Γ name step) (some (L.exit, L.next)) body L.body L.next) :=
  placesBlock_stretch ((h.hides.mono (.enter Γ)).mono (.declareAll _ _)) h.room h.proper (List.nil_subset _) h.inner

/-- Control stays in the body, or goes to the instructions behind it or behind the loop. -/
theorem Placed.leads (h : L.Placed debug out Γ name step body) {pc target : Nat} (hlo : L.body ≤ pc)
    (hhi : pc < L.next) (hleads : L.routine.Leads pc target) :
    L.body ≤ target ∧ target < L.next ∨ target = L.next ∨ target = L.exit := by
  obtain ⟨shape, hbalance, -⟩ := h.stretch
  obtain ⟨op, has, -, -, hedges⟩ := hbalance.code pc hlo hhi
  obtain ⟨op', has', hedge⟩ := hleads
  obtain rfl : op = op' := Option.some.inj (has.symm.trans has')
  obtain ⟨t, edge⟩ := hedge (shape pc)
  rcases hedges _ edge with ⟨hlo, hhi, -⟩ | ⟨hend, -⟩ | ⟨u, ⟨ends, hends, htarget, -⟩, -⟩
  · exact .inl ⟨hlo, hhi⟩
  · exact .inr (.inl hend)
  · obtain rfl := Option.some.inj hends
    exact .inr htarget.symm

end Placed

-- ---------------------------------------------------------------------------
-- Passes of the body
-- ---------------------------------------------------------------------------

/-- What the counter of the frame at a depth is. -/
def value (L : ForLoop) (depth : Nat) (m : Machine) : Option Value :=
  (m.frameAt depth).bind fun f => (m.stack[f.base + L.counter]?).map m.heap.resolve

/-- The machines in which passes of the body begin, among so many steps and until the loop is left: the step at the
test does not leave the loop. -/
def passes (L : ForLoop) (outer depth : Nat) : Nat → Machine → List Machine
  | 0, _ => []
  | t + 1, m =>
    if m.standsAt depth L.exit then [] else
      match m.after outer 1 with
      | some m' =>
        (if m.standsAt depth L.test && m'.standsAt depth L.body then [m'] else []) ++ L.passes outer depth t m'
      | none => []

/-- From the start of the body the steps lead to its end, for the first time: the frame is active all along. -/
structure BodyEnds (L : ForLoop) (outer depth t : Nat) (m m' : Machine) : Prop where
  arrives : m.after outer t = some m'
  ends : m'.standsAt depth L.next ∨ m'.standsAt depth L.exit
  during : ∀ u < t, ∃ mᵤ, m.after outer u = some mᵤ ∧ depth < mᵤ.control.length ∧
    mᵤ.standsAt depth L.next = false ∧ mᵤ.standsAt depth L.exit = false

/-- The body completes normally or with `continue`, and the counter is what it was. -/
def Continues (L : ForLoop) (outer depth : Nat) (m : Machine) : Prop :=
  ∃ t m', L.BodyEnds outer depth t m m' ∧ m'.standsAt depth L.next ∧ L.value depth m' = L.value depth m

/-- The body ends with `break`. -/
def Breaks (L : ForLoop) (outer depth : Nat) (m : Machine) : Prop :=
  ∃ t m', L.BodyEnds outer depth t m m' ∧ m'.standsAt depth L.exit

section Passes

variable {L : ForLoop} {outer depth t u : Nat} {m m' : Machine}

theorem passes_step (h : outer < m.control.length) (hexit : m.standsAt depth L.exit = false)
    (hm' : Run.attempt outer m = .ok () m') :
    L.passes outer depth (t + 1) m =
      (if m.standsAt depth L.test && m'.standsAt depth L.body then [m'] else []) ++ L.passes outer depth t m' := by
  rw [passes, Machine.after_step h hm', Machine.after_zero, hexit]
  rfl

/-- Where no step starts at the test or behind the loop, no pass begins. -/
theorem passes_skip (hm' : m.after outer t = some m')
    (h : ∀ u < t, ∀ mᵤ, m.after outer u = some mᵤ →
      mᵤ.standsAt depth L.test = false ∧ mᵤ.standsAt depth L.exit = false) :
    L.passes outer depth (t + u) m = L.passes outer depth u m' := by
  induction t generalizing m with
  | zero =>
    cases hm'
    rw [Nat.zero_add]
  | succ t ih =>
    rw [Nat.add_comm t 1, Machine.after_add, Option.bind_eq_some_iff] at hm'
    obtain ⟨m₁, hm₁, hm'⟩ := hm'
    obtain ⟨htest, hexit⟩ := h 0 (Nat.succ_pos t) m Machine.after_zero
    rw [Nat.add_right_comm, passes, hm₁, htest, hexit]
    refine ih hm' fun v hv mᵥ hmᵥ => h (v + 1) (by omega) mᵥ ?_
    rw [Nat.add_comm v 1, Machine.after_add, hm₁]
    exact hmᵥ

end Passes

-- ---------------------------------------------------------------------------
-- What a pass leaves alone
-- ---------------------------------------------------------------------------

section Kept

variable {L : ForLoop} {debug : Bool} {out : Outer} {Γ : Env} {name : String} {step : Option Expr} {body : Block}
  {host m m' : Machine} {callee depth t : Nat} {f : Frame} {rest : List Activation}

/-- The frame of the loop is where it was or further on, with its limit and its step. -/
structure Keeps (L : ForLoop) (depth : Nat) (f : Frame) (m m' : Machine) (f' : Frame) : Prop where
  frame : m'.frameAt depth = some f'
  continues : f.Continues f'
  hidden : ∀ k ∈ L.hidden, m'.stack[f.base + k]? = m.stack[f.base + k]?

/-- During a pass the frame stays in the body, with its limit and its step. -/
theorem BodyEnds.kept (h : L.BodyEnds host.control.length depth t m m') (hplaced : L.Placed debug out Γ name step body)
    (hidle : host.IsIdle) (hlive : Live host callee m) (hdepth : host.control.length ≤ depth)
    (hcontrol : m.control = .script f :: rest) (hrest : rest.length = depth) (hroutine : f.routine = L.routine)
    (hip : f.ip = L.body) {u : Nat} (hu : u ≤ t) {mᵤ : Machine} (hmᵤ : m.after host.control.length u = some mᵤ) :
    Live host callee mᵤ ∧ ∃ f', L.Keeps depth f m mᵤ f' ∧ (u < t → L.body ≤ f'.ip ∧ f'.ip < L.next) := by
  induction u generalizing mᵤ with
  | zero =>
    cases hmᵤ
    have hf : m.frameAt depth = some f := hrest ▸ Machine.frameAt_innermost hcontrol
    refine ⟨hlive, f, ⟨hf, .refl f, fun _ _ => rfl⟩, fun ht => ⟨Nat.le_of_eq hip.symm, ?_⟩⟩
    obtain ⟨m₀, hm₀, -, hnext, -⟩ := h.during 0 ht
    cases hm₀
    have hne : f.ip ≠ L.next := fun hne => by
      rw [Machine.standsAt_iff.mpr ⟨f, rest, hcontrol, hrest, hne⟩] at hnext
      cases hnext
    have hle := hplaced.stretch.ordered
    omega
  | succ u ih =>
    obtain ⟨m₁, hm₁, hactive, -, -⟩ := h.during u hu
    obtain ⟨hlive₁, f₁, ⟨hf₁, hcontinues, hhidden⟩, hin⟩ := ih (Nat.le_of_succ_le hu) hm₁
    obtain ⟨hlo, hhi⟩ := hin hu
    have hlength : host.control.length < m₁.control.length := by omega
    have hattempt := Machine.attempt_of_after hm₁ hmᵤ hlength
    have hactiveᵤ : depth < mᵤ.control.length := by
      rcases Nat.lt_or_eq_of_le hu with hlt | heq
      · obtain ⟨m₂, hm₂, hactive₂, -⟩ := h.during (u + 1) hlt
        obtain rfl : mᵤ = m₂ := Option.some.inj (hmᵤ.symm.trans hm₂)
        exact hactive₂
      · obtain rfl : mᵤ = m' := Option.some.inj (hmᵤ.symm.trans (heq ▸ h.arrives))
        rcases h.ends with hend | hend <;>
          obtain ⟨g, acts, hg, rfl, -⟩ := Machine.standsAt_iff.mp hend <;> simp [hg]
    obtain ⟨f₂, hf₂, hmoves, hslots⟩ := hlive₁.running.attempt_keeps hidle hlength hattempt hdepth hf₁ hactiveᵤ
    have hroutine₁ : f₁.routine = L.routine := hcontinues.routine.trans hroutine
    have hcontinues₂ : f₁.Continues f₂ := by
      rcases hmoves with rfl | ⟨next, -, rfl, -⟩
      · exact .refl _
      · exact ⟨next, rfl⟩
    refine ⟨hlive₁.attempt hidle hlength hattempt, f₂, ⟨hf₂, hcontinues.trans hcontinues₂, fun k hk => ?_⟩,
      fun ht => ?_⟩
    · rw [← hhidden k hk, ← hcontinues.base]
      refine hslots k (hroutine₁ ▸ hplaced.hidden_lt hk) fun op has => ?_
      rw [hroutine₁] at has ⊢
      exact hplaced.avoids f₁.ip hlo hhi op has k hk
    · rcases hmoves with rfl | ⟨next, hleads, rfl, hinnermost⟩
      · exact ⟨hlo, hhi⟩
      obtain ⟨m₂, hm₂, -, hnext, hexit⟩ := h.during (u + 1) ht
      obtain rfl : mᵤ = m₂ := Option.some.inj (hmᵤ.symm.trans hm₂)
      have hstands := Machine.standsAt_of_frameAt hf₂ hinnermost
      rcases hplaced.leads hlo hhi (hroutine₁ ▸ hleads) with hinside | rfl | rfl
      · exact hinside
      · rw [hstands] at hnext
        cases hnext
      · rw [hstands] at hexit
        cases hexit

/-- No other pass begins during a pass. -/
theorem BodyEnds.passes (h : L.BodyEnds host.control.length depth t m m')
    (hplaced : L.Placed debug out Γ name step body) (hidle : host.IsIdle) (hlive : Live host callee m)
    (hdepth : host.control.length ≤ depth) (hcontrol : m.control = .script f :: rest) (hrest : rest.length = depth)
    (hroutine : f.routine = L.routine) (hip : f.ip = L.body) (u : Nat) :
    L.passes host.control.length depth (t + u) m = L.passes host.control.length depth u m' := by
  refine passes_skip h.arrives fun v hv mᵥ hmᵥ => ⟨Bool.eq_false_iff.mpr fun htest => ?_, ?_⟩
  · obtain ⟨-, f', hkeeps, hin⟩ :=
      h.kept hplaced hidle hlive hdepth hcontrol hrest hroutine hip (Nat.le_of_lt hv) hmᵥ
    obtain ⟨g, acts, hg, rfl, hgip⟩ := Machine.standsAt_iff.mp htest
    obtain rfl : g = f' := Option.some.inj ((Machine.frameAt_innermost hg).symm.trans hkeeps.frame)
    have hbehind : L.test < L.body := Nat.lt_succ_self _
    have hinside := (hin hv).1
    omega
  · obtain ⟨m₁, hm₁, -, -, hexit⟩ := h.during v hv
    obtain rfl : mᵥ = m₁ := Option.some.inj (hmᵥ.symm.trans hm₁)
    exact hexit

end Kept

end ForLoop

end Rill
