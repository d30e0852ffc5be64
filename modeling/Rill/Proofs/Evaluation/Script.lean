-- SUMMARY: Compiled scripts of the core are started and run as they are evaluated.
import Rill.Proofs.Collection.Reclamation
import Rill.Proofs.Evaluation.Instructions
import Rill.Proofs.Evaluation.Statements
import Rill.Proofs.Layout.Compile
import Rill.Proofs.Syntax.Grammar

/-!
# Compiled scripts

The call of a function without parameters makes a frame for its routine the innermost activation. The
first instruction of the routine then makes the slots; that is the stage on which the statements run.

A machine that starts the routine of a core script ends exactly if the evaluation of the script does. Both
leave the same output, the same globals and the same heap, and both give the same result or fail for the
same cause.
-/

namespace Rill.Evaluation

-- ---------------------------------------------------------------------------
-- Starts
-- ---------------------------------------------------------------------------

/-- The store of a machine, for a script that has yet to bind its slots. -/
def Store.start (m : Machine) : Store :=
  { heap := m.heap, globals := m.globals, slots := fun _ => .null, output := m.output }

/-- A frame that is about to start a routine is the innermost activation of the machine. -/
structure Starts (m : Machine) (f : Frame) (rest : List Activation) (r : Routine) : Prop where
  control : m.control = .script f :: rest
  routine : f.routine = r
  ip : f.ip = 0
  base : m.stack.size = f.base

/-- The frame that starts a routine above its callee, when nothing else is on the stack. -/
def firstFrame (r : Routine) (key : RoutineKey) : Frame :=
  { closure := { callable := .script r key, signature := [] }
    routine := r, key := key, base := 1, keepRef := false }

/-- A new machine that is about to start a routine. -/
def fresh (r : Routine) (key : RoutineKey) : Machine :=
  { config := {}, stack := #[.null], control := [.script (firstFrame r key)] }

theorem fresh_starts (r : Routine) (key : RoutineKey) : Starts (fresh r key) (firstFrame r key) [] r :=
  ⟨rfl, rfl, rfl, rfl⟩

-- ---------------------------------------------------------------------------
-- Calls
-- ---------------------------------------------------------------------------

/-- The parts of a machine that collections leave alone. -/
structure Keeps (m m' : Machine) : Prop where
  control : m'.control = m.control
  stack : m'.stack = m.stack
  config : m'.config = m.config
  globals : m'.globals = m.globals
  output : m'.output = m.output

theorem Keeps.trans {m₁ m₂ m₃ : Machine} (h : Keeps m₁ m₂) (h' : Keeps m₂ m₃) : Keeps m₁ m₃ :=
  ⟨h'.control.trans h.control, h'.stack.trans h.stack, h'.config.trans h.config, h'.globals.trans h.globals,
    h'.output.trans h.output⟩

theorem reclaim_keeps (m : Machine) : Keeps m (m.reclaim []) := by
  rw [(m.reclaim_shrinks []).rest]
  exact ⟨rfl, rfl, rfl, rfl, rfl⟩

theorem collectIfDue_keeps (m : Machine) : ∃ m', Run.collectIfDue m = .ok () m' ∧ Keeps m m' := by
  rw [Run.collectIfDue, Run.bind_get]
  split
  · have hswept : Keeps (m.reclaim []) (m.reclaim []).swept := ⟨rfl, rfl, rfl, rfl, rfl⟩
    exact ⟨_, rfl, ((reclaim_keeps m).trans hswept).trans (reclaim_keeps _)⟩
  · exact ⟨m, rfl, rfl, rfl, rfl, rfl, rfl⟩

/-- The call of a function that has no parameters and is no native one starts its routine, if there may be
one more call. -/
theorem step_starts {m : Machine} {below : Array Value} {callee : Value} {keepRef : Bool}
    {rest : List Activation} {closure : Closure} {r : Routine} {key : RoutineKey}
    (hcontrol : m.control = .entering 0 keepRef :: rest) (hstack : m.stack = below.push callee)
    (hcallee : m.heap.dispatch callee #[] = .ok closure) (hscript : closure.callable = .script r key)
    (hdepth : m.frames.length < m.config.callDepth) :
    ∃ m' f, Run.step m = .ok () m' ∧ Starts m' f rest r ∧ f.keepRef = keepRef ∧ m'.stack = m.stack ∧
      m'.config = m.config ∧ m'.output = m.output ∧ m'.globals = m.globals := by
  have hstep : Run.step m = Run.enter 0 keepRef m := by
    rw [Run.step, Run.bind_get, hcontrol]
  let f : Frame := { closure := closure, routine := r, key := key, base := m.stack.size, keepRef := keepRef }
  let begun : Machine := { m with control := .script f :: rest }
  have hbegin : Run.begin 0 keepRef m = .ok none begun := by
    have hsize : m.stack.size = below.size + 1 := by simp [hstack]
    have hcallable : ¬m.stack.size < 0 + 1 := by omega
    have hget : m.stack.getD (m.stack.size - 1 - 0) .null = callee := by simp [hstack]
    have hargs : m.stack.extract (m.stack.size - 1 - 0 + 1) m.stack.size = #[] := by simp [hstack]
    have hbase : m.stack.size - 1 - 0 + 1 = m.stack.size := by omega
    have hlift : (liftM (Except.ok closure : Except Failure Closure) : Run Closure) m = .ok closure m := rfl
    have hprepare : Run.prepareAll m.stack.size closure.refFlags 0 m = .ok () m := rfl
    rw [Run.begin, Run.bind_get]
    simp only [if_neg hcallable, hget, hargs, hcallee]
    rw [Run.bind_of_ok hlift, hbase, Run.bind_of_ok hprepare, hscript]
    simp only [if_neg (Nat.not_le.mpr hdepth)]
    change EStateM.Result.ok none { m with control := .script f :: m.control.drop 1 } = _
    rw [hcontrol]
    rfl
  obtain ⟨m', hcollect, hkeeps⟩ := collectIfDue_keeps begun
  have henter : Run.enter 0 keepRef m = .ok () m' := (Run.bind_of_ok hbegin).trans hcollect
  exact ⟨m', f, hstep.trans henter, ⟨hkeeps.control, rfl, rfl, congrArg Array.size hkeeps.stack⟩, rfl,
    hkeeps.stack, hkeeps.config, hkeeps.output, hkeeps.globals⟩

-- ---------------------------------------------------------------------------
-- The first instruction
-- ---------------------------------------------------------------------------

namespace Stage

variable {S : Stage}

section Reserve

variable (hip : S.frame.ip = 0) (hcontrol : S.machine.control = .script S.frame :: S.rest)
  (has : S.routine.Has 0 (.reserve S.routine.frameSize))
include hip hcontrol has

theorem start_step :
    Run.step S.machine = (Run.perform S.frame (.reserve S.routine.frameSize) >>= fun flow =>
      match flow with
      | .next => Run.goTo (· + 1)
      | .jump target => Run.goTo fun _ => target
      | .enter args keepRef => modify fun m => { m with control := .entering args keepRef :: m.control }
      | .leave v => Run.complete (S.frame.base - 1) S.frame.keepRef v) S.machine := by
  have hop : S.frame.routine.code.ops[S.frame.ip]? = some (.reserve S.routine.frameSize) := by
    rw [hip]
    exact has
  have hstep : Run.step S.machine = Run.stepFrame S.frame S.machine := by
    rw [Run.step, Run.bind_get, hcontrol]
  rw [hstep]
  unfold Run.stepFrame
  generalize S.frame.routine.code.ops[S.frame.ip]? = found at hop ⊢
  subst hop
  rfl

/-- The first instruction makes the slots, if there is room for them. -/
theorem reserve_room (hroom : S.frame.base + S.routine.frameSize ≤ S.machine.config.stackLimit) :
    Run.step S.machine = .ok () (S.state 1 (.start S.machine) []) := by
  have hslots : S.machine.stack ++ Array.replicate (S.frame.base + S.routine.frameSize - S.machine.stack.size)
      Value.null = S.stack (fun _ => .null) [] := by
    have hnulls : (Array.ofFn fun _ : Fin S.routine.frameSize => Value.null) =
        Array.replicate S.routine.frameSize .null := by
      ext <;> simp
    rw [S.base, Nat.add_sub_cancel_left, stack, hnulls]
    simp
  have hreserve : Run.performReserve S.frame S.routine.frameSize S.machine =
      .ok () { S.machine with stack := S.stack (fun _ => .null) [] } := by
    rw [Run.performReserve, Run.bind_get]
    simp only [if_neg (Nat.not_lt.mpr hroom)]
    rw [← hslots]
    rfl
  have hperform : Run.perform S.frame (.reserve S.routine.frameSize) S.machine =
      .ok .next { S.machine with stack := S.stack (fun _ => .null) [] } :=
    (Run.bind_of_ok hreserve).trans rfl
  have hnext (control : List Activation) (h : control = .script S.frame :: S.rest) :
      Run.goTo (· + 1) { S.machine with stack := S.stack (fun _ => .null) [], control := control } =
        .ok () (S.state 1 (.start S.machine) []) := by
    subst h
    change EStateM.Result.ok () { S.machine with
      stack := S.stack (fun _ => .null) []
      control := .script { S.frame with ip := S.frame.ip + 1 } :: S.rest } = _
    rw [hip]
    rfl
  exact (start_step hip hcontrol has).trans ((Run.bind_of_ok hperform).trans (hnext _ hcontrol))

/-- The first instruction makes the slots, unless the stack is too small for them. -/
theorem reserve_step :
    Run.step S.machine = .ok () (S.state 1 (.start S.machine) []) ∨
      Run.step S.machine = .error Fault.stackOverflow.failure S.machine := by
  by_cases hfull : S.frame.base + S.routine.frameSize > S.machine.config.stackLimit
  · have hreserve : Run.performReserve S.frame S.routine.frameSize S.machine =
        .error Fault.stackOverflow.failure S.machine := by
      rw [Run.performReserve, Run.bind_get]
      simp only [if_pos hfull]
      rfl
    exact .inr ((start_step hip hcontrol has).trans (Run.bind_of_error (Run.bind_of_error hreserve)))
  · exact .inl (reserve_room hip hcontrol has (Nat.not_lt.mp hfull))

end Reserve

end Stage

open Layout

-- ---------------------------------------------------------------------------
-- Runs that are over
-- ---------------------------------------------------------------------------

/-- The run is over: only the outer activations are left, or it has failed. -/
def IsOver : EStateM.Result Failure Machine Bool → Prop
  | .ok ended _ => ended = true
  | .error _ _ => True

/-- A run that is over stays as it is. -/
theorem IsOver.attempts {outer steps : Nat} {m : Machine} (h : IsOver (Run.attempts outer steps m))
    (more : Nat) : Run.attempts outer (steps + more) m = Run.attempts outer steps m := by
  induction steps generalizing m with
  | zero =>
    have hover : (m.control.drop outer).isEmpty = true := h
    rw [Run.attempts_over hover, Run.attempts_over hover]
  | succ steps ih =>
    cases hover : (m.control.drop outer).isEmpty with
    | true => rw [Run.attempts_over hover, Run.attempts_over hover]
    | false =>
      rw [Run.attempts_going hover] at h
      rw [Nat.add_right_comm, Run.attempts_going hover, Run.attempts_going hover]
      cases hattempt : Run.attempt outer m with
      | error e m' => rw [Run.bind_of_error hattempt, Run.bind_of_error hattempt]
      | ok _ m' =>
        rw [Run.bind_of_ok hattempt] at h
        rw [Run.bind_of_ok hattempt, Run.bind_of_ok hattempt, ih h]

/-- Runs that are over are the same, however many steps they were given. -/
theorem IsOver.same {outer steps steps' : Nat} {m : Machine} (h : IsOver (Run.attempts outer steps m))
    (h' : IsOver (Run.attempts outer steps' m)) :
    Run.attempts outer steps m = Run.attempts outer steps' m := by
  rw [← h.attempts steps', Nat.add_comm, h'.attempts steps]

/-- A run that has ended fails with no number of steps. -/
theorem attempts_ended {outer steps : Nat} {m m' : Machine} (h : Run.attempts outer steps m = .ok true m')
    (steps' : Nat) (e : Failure) (m'' : Machine) : Run.attempts outer steps' m ≠ .error e m'' := by
  intro h'
  have hover : IsOver (Run.attempts outer steps m) := by rw [h]; rfl
  have hover' : IsOver (Run.attempts outer steps' m) := by rw [h']; trivial
  have hsame := hover.same hover'
  rw [h, h'] at hsame
  cases hsame

-- ---------------------------------------------------------------------------
-- Ends
-- ---------------------------------------------------------------------------

/-- A run that started from a machine, in a frame, is over and has come to what evaluation came to. The
result has taken the place of the callee, and a failure has the same category and the same message. -/
def EndsAs (m : Machine) (f : Frame) (σ : Store) :
    Except Failure Value → EStateM.Result Failure Machine Bool → Prop
  | .ok v, .ok ended m' =>
    ended = true ∧ m'.output = σ.output ∧ m'.globals = σ.globals ∧ m'.heap = σ.heap ∧
      m'.stack = (m.stack.shrink (f.base - 1)).push (if f.keepRef then v else σ.heap.resolve v)
  | .error e, .error e' m' =>
    e'.category = e.category ∧ e'.message = e.message ∧
      m'.output = σ.output ∧ m'.globals = σ.globals ∧ m'.heap = σ.heap
  | _, _ => False

namespace Stage

variable {S : Stage}

/-- The last instruction ends the frame. -/
theorem result_step {i : Nat} {σ : Store} {v : Value} (has : S.routine.Has i .result) :
    ∃ m', Run.step (S.state i σ [v]) = .ok () m' ∧ m'.control.length = S.rest.length ∧
      m'.output = σ.output ∧ m'.globals = σ.globals ∧ m'.heap = σ.heap ∧
      m'.stack = (S.machine.stack.shrink (S.frame.base - 1)).push
        (if S.frame.keepRef then v else σ.heap.resolve v) := by
  have hperform : Run.perform (S.frameAt i) .result (S.state i σ [v]) =
      .ok (.leave v) (S.state i σ []) :=
    (Run.bind_of_ok (pop_state v)).trans rfl
  have hcut : (S.stack σ.slots []).shrink (S.frame.base - 1) = S.machine.stack.shrink (S.frame.base - 1) := by
    have hbase := S.base
    have hbelow : S.frame.base - 1 - S.machine.stack.size = 0 := by omega
    simp [stack, hbelow]
  have hcomplete : ∃ control : List Activation, control.length = S.rest.length ∧
      Run.complete (S.frame.base - 1) S.frame.keepRef v (S.state i σ []) =
        .ok () { S.state i σ [] with
          stack := ((S.stack σ.slots []).shrink (S.frame.base - 1)).push
            (if S.frame.keepRef then v else σ.heap.resolve v)
          control := control } := by
    refine ⟨_, ?_, rfl⟩
    split
    · next hcontrol => exact (congrArg List.length hcontrol).symm
    · rfl
  obtain ⟨control, hlength, hcomplete⟩ := hcomplete
  rw [hcut] at hcomplete
  exact ⟨_, (step_state has).trans ((Run.bind_of_ok hperform).trans hcomplete), hlength, rfl, rfl, rfl, rfl⟩

/-- What a script of the core comes to. -/
def Concludes (S : Stage) (fuel : Nat) (m : Machine) : Option (Except Failure Value × Store) → Prop
  | none => S.Leads S.Active fuel m
  | some (.ok v, σ) => S.Leads (S.Returns v σ) 0 m
  | some (.error e, σ) => S.Leads (S.Fails e σ) 0 m

/-- No run comes to a full operand stack. -/
def Limited (S : Stage) (m : Machine) : Prop :=
  ∀ steps e m', Run.attempts S.rest.length steps m = .error e m' → e.fault ≠ .stackOverflow

theorem executeScript_concludes {debug : Bool} {s : Script} (hcore : s.body.isCore = true)
    (h : PlacesScript anywhere (s.debug.getD debug) S.routine s.body.stmts) (fuel : Nat) (σ : Store) :
    S.Concludes fuel (S.state 1 σ []) (executeScript debug fuel s σ) := by
  obtain ⟨setting, ⟨line, stmts⟩⟩ := s
  obtain ⟨body, -, hstmts, htaken, -, hnull, hresult, -⟩ := h
  have hfollows : S.Follows fuel none 0 body (S.state 1 σ [])
      (executeAll (setting.getD debug) fuel { depth := 1 } stmts σ) :=
    executeAll_follows hstmts hcore (.empty 1) (Nat.le_of_eq htaken) σ
  unfold executeScript
  match executeAll (setting.getD debug) fuel { depth := 1 } stmts σ, hfollows with
  | none, h => exact h
  | some (.result v, σ), h => exact h
  | some (.failure e, σ), h => exact h
  | some (.normal, σ), h =>
    have hpush : S.Leads (· = S.state (body + 1) σ [.null]) 0 (S.state body σ []) := pushNull hnull
    exact (Leads.onward h hpush).mono fun m hm => ⟨body + 1, hresult, hm⟩
  | some (.leave, σ), ⟨_, hloop, _⟩ => cases hloop
  | some (.next, σ), ⟨_, hloop, _⟩ => cases hloop

/-- If evaluation gives an answer, then a run comes to it. -/
theorem Concludes.over {fuel : Nat} {m : Machine} {ending : Except Failure Value} {σ : Store}
    (h : S.Concludes fuel m (some (ending, σ))) (hlimit : S.Limited m) :
    ∃ steps, IsOver (Run.attempts S.rest.length steps m) ∧
      EndsAs S.machine S.frame σ ending (Run.attempts S.rest.length steps m) := by
  cases ending with
  | ok v =>
    rcases Leads.attempts h with ⟨steps, e, m', hrun, he⟩ | ⟨steps, _, -, ⟨i, has, rfl⟩, hrun⟩
    · exact absurd he (hlimit steps e m' hrun)
    · obtain ⟨m', hstep, hlength, houtput, hglobals, hheap, hstack⟩ := result_step (σ := σ) (v := v) has
      have hover : (m'.control.drop S.rest.length).isEmpty = true := by
        rw [List.isEmpty_iff, List.drop_eq_nil_iff]
        exact Nat.le_of_eq hlength
      have hended : Run.attempts S.rest.length (steps + 1) m = .ok true m' := by
        rw [hrun 1, attempts_step (S.state_active ..) hstep, Run.attempts_over hover]
      refine ⟨steps + 1, ?_, ?_⟩
      · rw [hended]
        rfl
      · rw [hended]
        exact ⟨rfl, houtput, hglobals, hheap, hstack⟩
  | error e =>
    rcases Leads.attempts h with ⟨steps, e', m', hrun, he⟩ | ⟨steps, m', -, ⟨active, i, ops, hstep⟩, hrun⟩
    · exact absurd he (hlimit steps e' m' hrun)
    · obtain ⟨e', hfailed, he⟩ := attempts_fails active (S.state_active i σ ops) hstep 0
      refine ⟨steps + 1, ?_, ?_⟩
      · rw [hrun 1, hfailed]
        trivial
      · rw [hrun 1, hfailed]
        exact ⟨congrArg Fault.category he, congrArg Fault.message he, rfl, rfl, rfl⟩

/-- If evaluation gives no answer with some fuel, then a run of as many steps is not over. -/
theorem Concludes.going {fuel : Nat} {m : Machine} (h : S.Concludes fuel m none) (hlimit : S.Limited m) :
    ¬IsOver (Run.attempts S.rest.length fuel m) := by
  intro hover
  rcases Leads.attempts h with ⟨steps, e, m', hrun, he⟩ | ⟨steps, m', hsteps, hactive, hrun⟩
  · exact hlimit steps e m' hrun he
  · have hgoing : Run.attempts S.rest.length steps m = .ok false m' := by
      rw [← Nat.add_zero steps, hrun 0]
      exact congrArg (EStateM.Result.ok · m') hactive.goes_on
    have hsame := hover.attempts (steps - fuel)
    rw [Nat.add_sub_cancel' hsteps, hgoing] at hsame
    rw [← hsame] at hover
    exact absurd hover (by simp [IsOver])

end Stage

/-- A script of the core that is parsed and compiled runs exactly as it is evaluated, as long as its stack
does not overflow: a run is over after some number of steps if and only if the evaluation gives an answer,
and then both have the same output, globals, heap, and result or failure. -/
theorem compile_evaluates {text file : String} {debug : Bool} {s : Script} {r : Routine} {m : Machine}
    {f : Frame} {rest : List Activation} (hparse : parse text = .ok s) (hcore : s.body.isCore = true)
    (hcompile : compile s file debug = .ok r) (hstart : Starts m f rest r)
    (hlimit : ∀ steps e m', Run.attempts rest.length steps m = .error e m' → e.fault ≠ .stackOverflow) :
    ((∃ steps, IsOver (Run.attempts rest.length steps m)) ↔
      ∃ fuel, (executeScript debug fuel s (.start m)).isSome = true) ∧
    ∀ steps fuel ending σ, IsOver (Run.attempts rest.length steps m) →
      executeScript debug fuel s (.start m) = some (ending, σ) →
      EndsAs m f σ ending (Run.attempts rest.length steps m) := by
  let S : Stage := ⟨m, f, rest, hstart.base⟩
  have hroutine : S.routine = r := hstart.routine
  have hplaces := compile_places (parse_proper hparse) hcompile
  rw [← hroutine] at hplaces
  obtain ⟨-, -, -, -, hreserve, -⟩ := id hplaces
  have hactive : S.Active m := ⟨f, hstart.control⟩
  rcases Stage.reserve_step (S := S) hstart.ip hstart.control hreserve with hstep | hfull
  · have hrun (steps : Nat) : Run.attempts rest.length (steps + 1) m =
        Run.attempts rest.length steps (S.state 1 (.start m) []) := Stage.attempts_step hactive hstep steps
    have hlimit' : S.Limited (S.state 1 (.start m) []) := fun steps e m' h =>
      hlimit (steps + 1) e m' ((hrun steps).trans h)
    have hconcludes (fuel : Nat) := Stage.executeScript_concludes hcore hplaces fuel (.start m)
    have hover (fuel : Nat) (ending : Except Failure Value) (σ : Store)
        (h : executeScript debug fuel s (.start m) = some (ending, σ)) :
        ∃ steps, IsOver (Run.attempts rest.length steps m) ∧
          EndsAs m f σ ending (Run.attempts rest.length steps m) := by
      have hconclude := hconcludes fuel
      rw [h] at hconclude
      obtain ⟨steps, hsteps⟩ := hconclude.over hlimit'
      exact ⟨steps + 1, by rw [hrun]; exact hsteps⟩
    refine ⟨⟨fun ⟨steps, hsteps⟩ => ⟨steps, ?_⟩, fun ⟨fuel, hfuel⟩ => ?_⟩, ?_⟩
    · -- With as much fuel as the run has steps, evaluation without an answer would make it longer.
      have hconclude := hconcludes steps
      cases h : executeScript debug steps s (.start m) with
      | some _ => rfl
      | none =>
        rw [h] at hconclude
        rw [← hsteps.attempts 1, hrun] at hsteps
        exact absurd hsteps (hconclude.going hlimit')
    · obtain ⟨⟨ending, σ⟩, h⟩ := Option.isSome_iff_exists.mp hfuel
      obtain ⟨steps, hsteps, -⟩ := hover fuel ending σ h
      exact ⟨steps, hsteps⟩
    · intro steps fuel ending σ hsteps h
      obtain ⟨steps', hsteps', hends⟩ := hover fuel ending σ h
      rw [hsteps.same hsteps']
      exact hends
  · obtain ⟨e, hrun, he⟩ := Stage.attempts_fails hactive hactive hfull 0
    exact absurd he (hlimit 1 e m hrun)

/-- Adds up numbers in a loop that skips one of them, with another loop in it that is left at once. -/
def sumText : String :=
  "n = 0\nfor i = 1 to 5 do\n if i == 3 then continue end\n n += i\n while i > 3 do break end\nend\n" ++
  "print n, n > 9 and \"big\""

/-- The sum is printed. -/
theorem compile_evaluates_loop :
    ∃ s r, parse sumText = .ok s ∧ s.body.isCore = true ∧ compile s "loop.rill" false = .ok r ∧
      ∃ steps fuel v σ, executeScript false fuel s (.start (fresh r ⟨0, []⟩)) = some (.ok v, σ) ∧
        EndsAs (fresh r ⟨0, []⟩) (firstFrame r ⟨0, []⟩) σ (.ok v) (Run.attempts 0 steps (fresh r ⟨0, []⟩)) ∧
        σ.output = "12 big\n" := by
  have hrun : ((parse sumText).toOption.bind fun s => (compile s "loop.rill" false).toOption.map fun r =>
        s.body.isCore &&
        decide (Ends (Run.attempts 0 200) (fresh r ⟨0, []⟩) (fun ended _ => ended = true) fun _ => False) &&
        (executeScript false 6 s (.start (fresh r ⟨0, []⟩))).any fun answer =>
          answer.1.toOption.isSome && answer.2.output == "12 big\n") = some true := by
    decide +kernel
  cases hparse : parse sumText with
  | error e => simp [hparse, Except.toOption] at hrun
  | ok s =>
    cases hcompile : compile s "loop.rill" false with
    | error e => simp [hparse, hcompile, Except.toOption] at hrun
    | ok r =>
      simp only [hparse, hcompile, Except.toOption, Option.bind_some, Option.map_some, Option.some_inj,
        Bool.and_eq_true] at hrun
      obtain ⟨⟨hcore, hattempts⟩, hexecute⟩ := hrun
      obtain ⟨ended, m', hended, rfl⟩ := (of_decide_eq_true hattempts).exists_ok
      have hover : IsOver (Run.attempts 0 200 (fresh r ⟨0, []⟩)) := by rw [hended]; rfl
      obtain ⟨-, hends⟩ := compile_evaluates hparse hcore hcompile (fresh_starts r ⟨0, []⟩)
        fun steps e m' h => absurd h (attempts_ended hended steps e m')
      obtain ⟨⟨answer, σ⟩, hanswer, htest⟩ := (Option.any_eq_true _ _).mp hexecute
      obtain ⟨hsome, houtput⟩ := Bool.and_eq_true_iff.mp htest
      cases answer with
      | error e => cases hsome
      | ok v =>
        exact ⟨s, r, rfl, hcore, hcompile, 200, 6, v, σ, hanswer, hends 200 6 (.ok v) σ hover hanswer,
          beq_iff_eq.mp houtput⟩

end Rill.Evaluation
