-- SUMMARY: A script frame over a store and operands, and where the steps of the machine lead from there.
import Rill.Machine.Execution
import Rill.Proofs.Evaluation.Evaluator
import Rill.Proofs.Layout.Placement
import Rill.Proofs.Runs.Outcomes

/-!
# Stages

A *stage* is a machine in which a script frame is about to start. While the frame runs a script of the
core, only four things change: the store, the operands, the instruction that is next and, with the store,
the slots. `Stage.state` is the machine in which they are given. From such a machine the steps *lead* to
where a property holds, unless the operand stack gets full on the way.
-/

namespace Rill

-- ---------------------------------------------------------------------------
-- Runs
-- ---------------------------------------------------------------------------

namespace Run

variable {outer : Nat} {m : Machine}

theorem attempts_over (h : (m.control.drop outer).isEmpty = true) (steps : Nat) :
    Run.attempts outer steps m = .ok true m := by
  cases steps <;>
    simp only [Run.attempts, bind, EStateM.bind, Run.get_run, pure, EStateM.pure, h, if_true]

theorem attempts_going (h : (m.control.drop outer).isEmpty = false) (steps : Nat) :
    Run.attempts outer (steps + 1) m = (Run.attempt outer >>= fun _ => Run.attempts outer steps) m := by
  rw [Run.attempts]
  simp only [bind, EStateM.bind, Run.get_run, h]
  rfl

theorem attempts_step (h : (m.control.drop outer).isEmpty = false) {m' : Machine} (done : Run.step m = .ok () m')
    (steps : Nat) : Run.attempts outer (steps + 1) m = Run.attempts outer steps m' := by
  rw [Run.attempts_going h]
  simp only [bind, EStateM.bind, Run.attempt, done]

end Run

namespace Evaluation

-- ---------------------------------------------------------------------------
-- Stages
-- ---------------------------------------------------------------------------

/-- A machine, the frame that is about to start in it, and the activations around that. -/
structure Stage where
  machine : Machine
  frame : Frame
  rest : List Activation
  base : machine.stack.size = frame.base

namespace Stage

variable (S : Stage)

abbrev routine : Routine := S.frame.routine

/-- The frame at an instruction. -/
def frameAt (i : Nat) : Frame := { S.frame with ip := i }

/-- The operand stack with operands above the slots, the last one first. -/
def stack (slots : Nat → Value) (ops : List Value) : Array Value :=
  S.machine.stack ++ (Array.ofFn fun k : Fin S.routine.frameSize => slots k) ++ ops.reverse.toArray

/-- The machine in which the frame is at an instruction, with a store and operands. -/
def state (i : Nat) (σ : Store) (ops : List Value) : Machine :=
  { S.machine with
    heap := σ.heap
    globals := σ.globals
    output := σ.output
    stack := S.stack σ.slots ops
    control := .script (S.frameAt i) :: S.rest }

-- ---------------------------------------------------------------------------
-- The operand stack
-- ---------------------------------------------------------------------------

section Stack

variable (slots : Nat → Value) (ops : List Value)

theorem stack_cons (v : Value) : S.stack slots (v :: ops) = (S.stack slots ops).push v := by
  simp [stack]

theorem stack_append (vs : List Value) :
    S.stack slots (vs.reverse ++ ops) = S.stack slots ops ++ vs.toArray := by
  simp [stack]

theorem stack_size :
    (S.stack slots ops).size = S.frame.base + S.routine.frameSize + ops.length := by
  simp [stack, S.base, Nat.add_assoc]

variable {S} {k : Nat}

theorem stack_slot (hk : k < S.routine.frameSize) :
    (S.stack slots ops)[S.frame.base + k]? = some (slots k) := by
  rw [stack, Array.getElem?_append_left (by simp [S.base, hk]),
    Array.getElem?_append_right (by simp [S.base]), S.base, Nat.add_sub_cancel_left]
  simp [hk]

/-- A slot is set. -/
theorem stack_setSlot (hk : k < S.routine.frameSize) (v : Value) :
    (S.stack slots ops).setIfInBounds (S.frame.base + k) v =
      S.stack (fun n => if n = k then v else slots n) ops := by
  have hslots : (Array.ofFn fun n : Fin S.routine.frameSize => slots n).setIfInBounds k v =
      Array.ofFn fun n : Fin S.routine.frameSize => if n = k then v else slots n := by
    ext n hn hn'
    · simp
    · rw [Array.getElem_setIfInBounds (by simpa using hn)]
      simp [eq_comm]
  rw [stack, Array.setIfInBounds_append_left (by simp [S.base, hk]),
    Array.setIfInBounds_append_right (by simp [S.base]), S.base, Nat.add_sub_cancel_left, hslots, stack]

end Stack

-- ---------------------------------------------------------------------------
-- Failures
-- ---------------------------------------------------------------------------

/-- A script frame is active around which there is what is around the frame of the stage. -/
def Active (m : Machine) : Prop := ∃ f, m.control = .script f :: S.rest

/-- The next step fails in the frame, and leaves a store. -/
def Fails (e : Failure) (σ : Store) (m : Machine) : Prop :=
  S.Active m ∧ ∃ i ops, Run.step m = .error e (S.state i σ ops)

/-- The next step fails in the frame because the operand stack is full. -/
def Overflows (m : Machine) : Prop := ∃ σ, S.Fails Fault.stackOverflow.failure σ m

theorem state_active (i : Nat) (σ : Store) (ops : List Value) : S.Active (S.state i σ ops) := ⟨_, rfl⟩

-- ---------------------------------------------------------------------------
-- Where steps lead
-- ---------------------------------------------------------------------------

/-- After some steps, at least a number of them, the property holds, unless the operand stack is full
before. -/
inductive Leads (Q : Machine → Prop) : Nat → Machine → Prop
  | here {m : Machine} (now : Q m) : Leads Q 0 m
  | step {count : Nat} {m m' : Machine} (active : S.Active m) (done : Run.step m = .ok () m')
      (on : Leads Q (count - 1) m') : Leads Q count m
  | full {count : Nat} {m : Machine} (overflows : S.Overflows m) : Leads Q count m

namespace Leads

variable {S} {Q R : Machine → Prop} {count : Nat} {m m' : Machine}

theorem fewer {fewer : Nat} (h : S.Leads Q count m) (hle : fewer ≤ count) : S.Leads Q fewer m := by
  induction h generalizing fewer with
  | here now =>
    obtain rfl : fewer = 0 := by omega
    exact .here now
  | step active done _ ih => exact .step active done (ih (by omega))
  | full overflows => exact .full overflows

theorem trans {more : Nat} (h : S.Leads Q count m) (hQ : ∀ m, Q m → S.Leads R more m) :
    S.Leads R (count + more) m := by
  induction h with
  | here now => rw [Nat.zero_add]; exact hQ _ now
  | step active done _ ih => exact .step active done (ih.fewer (by omega))
  | full overflows => exact .full overflows

theorem mono (h : S.Leads Q count m) (hQ : ∀ m, Q m → R m) : S.Leads R count m :=
  h.trans fun m hm => .here (hQ m hm)

/-- To one machine and on from there. -/
theorem onward {more : Nat} (h : S.Leads (· = m') count m) (h' : S.Leads R more m') :
    S.Leads R (count + more) m :=
  h.trans fun _ hm => hm ▸ h'

end Leads

-- ---------------------------------------------------------------------------
-- Runs on a stage
-- ---------------------------------------------------------------------------

variable {S} {m m' : Machine}

theorem Active.goes_on (h : S.Active m) : (m.control.drop S.rest.length).isEmpty = false := by
  obtain ⟨a, ha⟩ := h
  rw [ha, ← Bool.not_eq_true, List.isEmpty_iff, List.drop_eq_nil_iff]
  simp

/-- A run starts with a step. -/
theorem attempts_step (active : S.Active m) (done : Run.step m = .ok () m') (count : Nat) :
    Run.attempts S.rest.length (count + 1) m = Run.attempts S.rest.length count m' :=
  Run.attempts_step active.goes_on done count

/-- No activation takes a failure. -/
theorem Active.recover (h : S.Active m) (e : Failure) : m.recover S.rest.length e = none := by
  obtain ⟨f, hf⟩ := h
  have hdrop : m.control.dropWhile (!·.isGuarded) = S.rest.dropWhile (!·.isGuarded) := by
    rw [hf]
    exact List.dropWhile_cons_of_pos rfl
  have hlength := (List.dropWhile_suffix (p := (!·.isGuarded)) (l := S.rest)).length_le
  unfold Machine.recover
  rw [hdrop]
  split
  · rename_i heq
    rw [heq, List.length_cons] at hlength
    exact if_pos (by omega)
  · rfl

/-- A run ends with a step that fails. -/
theorem attempts_fails {e : Failure} (active : S.Active m) (active' : S.Active m')
    (failed : Run.step m = .error e m') (count : Nat) :
    ∃ e', Run.attempts S.rest.length (count + 1) m = .error e' m' ∧ e'.fault = e.fault := by
  refine ⟨m'.locate e, ?_, ?_⟩
  · rw [Run.attempts_going active.goes_on]
    simp only [bind, EStateM.bind, Run.attempt, failed, active'.recover]
  · unfold Machine.locate
    split <;> rfl

/-- A run that leads somewhere gets there, or the operand stack is full before. -/
theorem Leads.attempts {Q : Machine → Prop} {count : Nat} (h : S.Leads Q count m) :
    (∃ steps e m', Run.attempts S.rest.length steps m = .error e m' ∧ e.fault = .stackOverflow) ∨
      ∃ steps m', count ≤ steps ∧ Q m' ∧
        ∀ more, Run.attempts S.rest.length (steps + more) m = Run.attempts S.rest.length more m' := by
  induction h with
  | @here m now => exact .inr ⟨0, m, Nat.le_refl 0, now, fun more => by rw [Nat.zero_add]⟩
  | step active done _ ih =>
    refine ih.imp ?_ ?_
    · intro ⟨steps, e, m', hrun, he⟩
      exact ⟨steps + 1, e, m', (attempts_step active done steps).trans hrun, he⟩
    · intro ⟨steps, m', hcount, hm', hrun⟩
      refine ⟨steps + 1, m', by omega, hm', fun more => ?_⟩
      rw [Nat.add_right_comm, attempts_step active done, hrun]
  | full overflows =>
    obtain ⟨σ, active, i, ops, hstep⟩ := overflows
    obtain ⟨e, hrun, he⟩ := attempts_fails active (S.state_active i σ ops) hstep 0
    exact .inl ⟨1, e, _, hrun, he⟩

end Stage

end Evaluation

end Rill
