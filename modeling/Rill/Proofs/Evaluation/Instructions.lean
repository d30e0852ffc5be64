-- SUMMARY: What the instructions of the core do to a stage.
import Rill.Proofs.Evaluation.Stage
import Rill.Proofs.Runs.Outcomes

/-!
# Instructions on a stage

One law for each instruction that the code of a core script uses. A computation *delivers* a result from a
machine if the steps from there lead to the machine after that result, or to its failure.
-/

namespace Rill

namespace Run

/-- Assignment changes the heap only. -/
theorem assign_eq (old v : Value) (m : Machine) :
    Run.assign old v m =
      .ok (m.heap.assigned old v).1 { m with heap := (m.heap.assigned old v).2 } := by
  unfold Run.assign Heap.assigned
  cases old with
  | cell id =>
    dsimp only
    split <;> rfl
  | _ => rfl

end Run

namespace Evaluation.Stage

variable {S : Stage} {i target : Nat} {σ σ' : Store} {ops ops' : List Value} {op : Instruction}

-- ---------------------------------------------------------------------------
-- Operations on a stage
-- ---------------------------------------------------------------------------

theorem state_cons (v : Value) :
    (S.state i σ (v :: ops)).stack = (S.state i σ ops).stack.push v :=
  stack_cons S _ _ _

theorem pop_state (v : Value) : Run.pop (S.state i σ (v :: ops)) = .ok v (S.state i σ ops) := by
  rw [Run.pop, Run.bind_get, state_cons, Array.back?_push]
  change EStateM.Result.ok v { S.state i σ (v :: ops) with stack := (S.state i σ (v :: ops)).stack.pop } = _
  rw [state_cons, Array.pop_push]
  rfl

theorem peek_state (v : Value) :
    Run.peek 0 (S.state i σ (v :: ops)) = .ok v (S.state i σ (v :: ops)) := by
  rw [Run.peek, Run.bind_get]
  simp [state_cons]
  rfl

theorem popMany_state (vs : List Value) :
    Run.popMany vs.length (S.state i σ (vs.reverse ++ ops)) = .ok vs.toArray (S.state i σ ops) := by
  let m := S.state i σ (vs.reverse ++ ops)
  have hstack : m.stack = (S.state i σ ops).stack ++ vs.toArray := stack_append S _ _ _
  have hsize : ¬m.stack.size < vs.length := by simp [hstack]
  have hleft : m.stack.shrink (m.stack.size - vs.length) = (S.state i σ ops).stack := by simp [hstack]
  have htaken : m.stack.extract (m.stack.size - vs.length) = vs.toArray := by simp [hstack]
  rw [Run.popMany, Run.bind_get]
  simp only [m, if_neg hsize]
  change EStateM.Result.ok (m.stack.extract (m.stack.size - vs.length))
    { m with stack := m.stack.shrink (m.stack.size - vs.length) } = _
  rw [hleft, htaken]
  rfl

theorem push_state (v : Value) (hroom : (S.state i σ ops).stack.size < S.machine.config.stackLimit) :
    Run.push v (S.state i σ ops) = .ok () (S.state i σ (v :: ops)) := by
  have hlimit : ¬(S.state i σ ops).stack.size ≥ (S.state i σ ops).config.stackLimit := Nat.not_le.mpr hroom
  rw [Run.push, Run.bind_get]
  simp only [if_neg hlimit]
  change EStateM.Result.ok () { S.state i σ ops with stack := (S.state i σ ops).stack.push v } = _
  rw [← state_cons]
  rfl

theorem push_full (v : Value) (hfull : S.machine.config.stackLimit ≤ (S.state i σ ops).stack.size) :
    Run.push v (S.state i σ ops) = .error Fault.stackOverflow.failure (S.state i σ ops) := by
  have hlimit : (S.state i σ ops).stack.size ≥ (S.state i σ ops).config.stackLimit := hfull
  rw [Run.push, Run.bind_get]
  simp only [if_pos hlimit]
  rfl

theorem local_state {k : Nat} (hk : k < S.routine.frameSize) :
    Run.local? (S.frameAt i) k (S.state i σ ops) = .ok (σ.slots k) (S.state i σ ops) := by
  have hslot : (S.state i σ ops).stack[(S.frameAt i).base + k]? = some (σ.slots k) :=
    stack_slot _ _ hk
  rw [Run.local?, Run.bind_get, hslot]
  rfl

theorem setLocal_state {k : Nat} (hk : k < S.routine.frameSize) (v : Value) :
    Run.setLocal (S.frameAt i) k v (S.state i σ ops) = .ok () (S.state i (σ.bind k v) ops) := by
  have hslots := stack_setSlot (S := S) σ.slots ops hk v
  change EStateM.Result.ok () { S.state i σ ops with
    stack := (S.stack σ.slots ops).setIfInBounds (S.frame.base + k) v } = _
  rw [hslots]
  rfl

theorem constant_state {k : Nat} {s : String} (h : Layout.IsText S.routine k s) :
    Run.constant (S.frameAt i) k (S.state i σ ops) = .ok s (S.state i σ ops) := by
  have hconstant : (S.frameAt i).routine.strings[k]? = some s := h
  rw [Run.constant, hconstant]
  rfl

-- ---------------------------------------------------------------------------
-- Steps on a stage
-- ---------------------------------------------------------------------------

section Steps

variable (has : S.routine.Has i op)
include has

theorem step_state :
    Run.step (S.state i σ ops) =
      (Run.perform (S.frameAt i) op >>= fun flow =>
        match flow with
        | .next => Run.goTo (· + 1)
        | .jump target => Run.goTo fun _ => target
        | .enter args keepRef => modify fun m => { m with control := .entering args keepRef :: m.control }
        | .leave v => Run.complete (S.frame.base - 1) S.frame.keepRef v) (S.state i σ ops) := by
  have hop : (S.frameAt i).routine.code.ops[(S.frameAt i).ip]? = some op := has
  change Run.stepFrame (S.frameAt i) (S.state i σ ops) = _
  rw [Run.stepFrame, hop]
  rfl

theorem next_step
    (h : Run.perform (S.frameAt i) op (S.state i σ ops) = .ok .next (S.state i σ' ops')) :
    Run.step (S.state i σ ops) = .ok () (S.state (i + 1) σ' ops') := by
  rw [step_state has, Run.bind_of_ok h]
  rfl

theorem goes_next
    (h : Run.perform (S.frameAt i) op (S.state i σ ops) = .ok .next (S.state i σ' ops')) :
    S.Leads (· = S.state (i + 1) σ' ops') 1 (S.state i σ ops) :=
  .step (S.state_active ..) (next_step has h) (.here rfl)

theorem jumps
    (h : Run.perform (S.frameAt i) op (S.state i σ ops) = .ok (.jump target) (S.state i σ' ops')) :
    S.Leads (· = S.state target σ' ops') 1 (S.state i σ ops) := by
  have hstep : Run.step (S.state i σ ops) = .ok () (S.state target σ' ops') := by
    rw [step_state has, Run.bind_of_ok h]
    rfl
  exact .step (S.state_active ..) hstep (.here rfl)

theorem fails {e : Failure}
    (h : Run.perform (S.frameAt i) op (S.state i σ ops) = .error e (S.state i σ ops')) :
    S.Fails e σ (S.state i σ ops) :=
  ⟨S.state_active .., i, ops', by rw [step_state has, Run.bind_of_error h]⟩

end Steps

-- ---------------------------------------------------------------------------
-- Delivery
-- ---------------------------------------------------------------------------

/-- The steps lead to the machine after the result of a computation, or to its failure. -/
def Delivers (S : Stage) (after : α → Machine) (σ : Store) (x : Except Failure α) (m : Machine) : Prop :=
  match x with
  | .ok a => S.Leads (· = after a) 0 m
  | .error e => S.Leads (S.Fails e σ) 0 m

namespace Delivers

variable {after : α → Machine} {x : Except Failure α} {m m' : Machine}

theorem before {count : Nat} (h : S.Leads (· = m') count m) (h' : S.Delivers after σ x m') :
    S.Delivers after σ x m := by
  cases x with
  | ok a => exact (h.onward h').fewer (Nat.zero_le _)
  | error e => exact (h.onward h').fewer (Nat.zero_le _)

theorem on {after' : α → Machine} {count : Nat} (h : S.Delivers after σ x m)
    (h' : ∀ a, S.Leads (· = after' a) count (after a)) : S.Delivers after' σ x m := by
  cases x with
  | ok a => exact (Leads.onward h (h' a)).fewer (Nat.zero_le _)
  | error e => exact h

theorem map {after' : β → Machine} {f : α → β} (h : S.Delivers (fun a => after' (f a)) σ x m) :
    S.Delivers after' σ (f <$> x) m := by
  cases x with
  | ok a => exact h
  | error e => exact h

theorem bind {after' : β → Machine} {f : α → Except Failure β} (h : S.Delivers after σ x m)
    (h' : ∀ a, x = .ok a → S.Delivers after' σ (f a) (after a)) : S.Delivers after' σ (x >>= f) m := by
  cases x with
  | ok a => exact .before h (h' a rfl)
  | error e => exact h

end Delivers

section Plain

variable (has : S.routine.Has i op)
  (hplain : Run.perform (S.frameAt i) op = (Run.performPlain (S.frameAt i) op >>= fun _ => pure .next))
include has hplain

theorem plain
    (h : Run.performPlain (S.frameAt i) op (S.state i σ ops) = .ok () (S.state i σ' ops')) :
    S.Leads (· = S.state (i + 1) σ' ops') 1 (S.state i σ ops) := by
  refine goes_next has ?_
  rw [hplain, Run.bind_of_ok h]
  rfl

theorem plain_fails {e : Failure}
    (h : Run.performPlain (S.frameAt i) op (S.state i σ ops) = .error e (S.state i σ ops')) :
    S.Fails e σ (S.state i σ ops) := by
  have hperform : Run.perform (S.frameAt i) op (S.state i σ ops) = .error e (S.state i σ ops') := by
    rw [hplain, Run.bind_of_error h]
  exact fails has hperform

/-- An instruction that takes operands, computes and pushes. -/
theorem pushes {x : Except Failure Value}
    (h : Run.performPlain (S.frameAt i) op (S.state i σ ops) =
      ((monadLift x : Run Value) >>= Run.push) (S.state i σ ops')) :
    S.Delivers (fun v => S.state (i + 1) σ (v :: ops')) σ x (S.state i σ ops) := by
  cases x with
  | error e => exact .here (plain_fails has hplain h)
  | ok v =>
    have h : Run.performPlain (S.frameAt i) op (S.state i σ ops) = Run.push v (S.state i σ ops') := h
    rcases Nat.lt_or_ge (S.state i σ ops').stack.size S.machine.config.stackLimit with hroom | hfull
    · exact (plain has hplain (h.trans (push_state v hroom))).fewer (Nat.zero_le _)
    · exact .full ⟨σ, plain_fails has hplain (h.trans (push_full v hfull))⟩

end Plain

-- ---------------------------------------------------------------------------
-- Constants and operators
-- ---------------------------------------------------------------------------

theorem pushNull (has : S.routine.Has i .pushNull) :
    S.Delivers (fun v => S.state (i + 1) σ (v :: ops)) σ (.ok .null) (S.state i σ ops) :=
  pushes has rfl rfl

theorem pushNan (has : S.routine.Has i .pushNan) :
    S.Delivers (fun v => S.state (i + 1) σ (v :: ops)) σ (.ok (.float (0.0 / 0.0))) (S.state i σ ops) :=
  pushes has rfl rfl

theorem pushBool {b : Bool} (has : S.routine.Has i (.pushBool b)) :
    S.Delivers (fun v => S.state (i + 1) σ (v :: ops)) σ (.ok (.bool b)) (S.state i σ ops) :=
  pushes has rfl rfl

theorem toInt64_toInt16 {n : Int64} (h : -32768 ≤ n ∧ n ≤ 32767) : n.toInt16.toInt64 = n := by
  have hlo : -32768 ≤ n.toInt := Int64.le_iff_toInt_le.mp h.1
  have hhi : n.toInt ≤ 32767 := Int64.le_iff_toInt_le.mp h.2
  rw [← Int64.toInt_inj, Int16.toInt_toInt64, Int64.toInt_toInt16, Int.bmod_eq_of_le (by omega) (by omega)]

/-- An integer is part of its instruction or a constant of the routine. -/
theorem exists_pushInteger {n : Int64} (has : Layout.PlacesInt S.routine n i) :
    ∃ op, S.routine.Has i op ∧
      Run.perform (S.frameAt i) op = (Run.performPlain (S.frameAt i) op >>= fun _ => pure .next) ∧
      Run.performPlain (S.frameAt i) op = Run.push (.int n) := by
  unfold Layout.PlacesInt at has
  split at has
  · rename_i hsmall
    refine ⟨_, has, rfl, ?_⟩
    change Run.push (.int n.toInt16.toInt64) = _
    rw [toInt64_toInt16 hsmall]
  · obtain ⟨k, has, hk⟩ := has
    refine ⟨_, has, rfl, ?_⟩
    change Run.pushConstant S.routine.integers k Value.int = _
    rw [Run.pushConstant, hk]

theorem pushInteger {n : Int64} (has : Layout.PlacesInt S.routine n i) :
    S.Delivers (fun v => S.state (i + 1) σ (v :: ops)) σ (.ok (.int n)) (S.state i σ ops) := by
  obtain ⟨op, has, hplain, hpush⟩ := exists_pushInteger has
  refine pushes has hplain ?_
  rw [hpush]
  rfl

/-- An integer is pushed if there is room for it. -/
theorem pushInteger_step {n : Int64} (has : Layout.PlacesInt S.routine n i)
    (hroom : (S.state i σ ops).stack.size < S.machine.config.stackLimit) :
    Run.step (S.state i σ ops) = .ok () (S.state (i + 1) σ (.int n :: ops)) := by
  obtain ⟨op, has, hplain, hpush⟩ := exists_pushInteger has
  refine next_step has ?_
  rw [hplain, hpush, Run.bind_of_ok (push_state (.int n) hroom)]
  rfl

theorem pushFloat {k : Nat} {x : Float} (has : S.routine.Has i (.pushFloat k))
    (hk : S.routine.floats[k]? = some x) :
    S.Delivers (fun v => S.state (i + 1) σ (v :: ops)) σ (.ok (.float x)) (S.state i σ ops) := by
  refine pushes has rfl ?_
  change Run.pushConstant S.routine.floats k Value.float _ = _
  rw [Run.pushConstant, hk]
  rfl

theorem pushStr {k : Nat} {s : String} (has : S.routine.Has i (.pushStr k))
    (hk : Layout.IsText S.routine k s) :
    S.Delivers (fun v => S.state (i + 1) σ (v :: ops)) σ (.ok (.text s)) (S.state i σ ops) := by
  refine pushes has rfl ?_
  change Run.pushConstant S.routine.strings k Value.text _ = _
  rw [Run.pushConstant, hk]
  rfl

theorem unary {o : UnaryOp} {v : Value} (has : S.routine.Has i (Compile.unaryInstruction o)) :
    S.Delivers (fun v => S.state (i + 1) σ (v :: ops)) σ (σ.heap.unary o v) (S.state i σ (v :: ops)) := by
  cases o with
  | neg => exact pushes has rfl ((Run.bind_of_ok (pop_state v)).trans rfl)
  | not => exact pushes has rfl ((Run.bind_of_ok (pop_state v)).trans rfl)

theorem binary {o : BinaryOp} {a b : Value} (has : S.routine.Has i (.binary o)) :
    S.Delivers (fun v => S.state (i + 1) σ (v :: ops)) σ (σ.heap.binary o a b)
      (S.state i σ (b :: a :: ops)) :=
  pushes has rfl ((Run.bind_of_ok (pop_state b)).trans ((Run.bind_of_ok (pop_state a)).trans rfl))

theorem concat {vs : List Value} (has : S.routine.Has i (.concat vs.length)) :
    S.Delivers (fun v => S.state (i + 1) σ (v :: ops)) σ (.ok (σ.heap.joined vs))
      (S.state i σ (vs.reverse ++ ops)) :=
  pushes has rfl ((Run.bind_of_ok (popMany_state vs)).trans rfl)

theorem compound {o : CompoundOp} {a b : Value}
    (has : S.routine.Has i (Compile.compoundInstruction o)) :
    S.Delivers (fun v => S.state (i + 1) σ (v :: ops)) σ (σ.heap.compound o a b)
      (S.state i σ (b :: a :: ops)) := by
  cases o with
  | arith o => exact binary has
  | concat =>
    have has : S.routine.Has i (.concat [a, b].length) := has
    exact concat has

-- ---------------------------------------------------------------------------
-- Jumps
-- ---------------------------------------------------------------------------

theorem jump (has : S.routine.Has i (.jump .always target)) :
    S.Leads (· = S.state target σ ops) 1 (S.state i σ ops) :=
  jumps has rfl

/-- A jump that takes its condition. -/
theorem jumpTaking {test : JumpTest} {jumpIf : Bool} {v : Value}
    (has : S.routine.Has i (.jump test target))
    (htest : Run.performJump test target = Run.jumpTaking target jumpIf) :
    S.Leads (· = S.state (if σ.heap.truth v = jumpIf then target else i + 1) σ ops) 1
      (S.state i σ (v :: ops)) := by
  have hperform : Run.perform (S.frameAt i) (.jump test target) (S.state i σ (v :: ops)) =
      (if σ.heap.truth v = jumpIf then pure (.jump target) else pure .next : Run Flow) (S.state i σ ops) := by
    change Run.performJump test target _ = _
    rw [htest, Run.jumpTaking]
    exact (Run.bind_of_ok (pop_state v)).trans rfl
  split
  · rename_i htruth
    rw [if_pos htruth] at hperform
    exact jumps has hperform
  · rename_i htruth
    rw [if_neg htruth] at hperform
    exact goes_next has hperform

/-- A jump that leaves the condition that it is taken for. -/
theorem jumpKeeping {o : LogicalOp} {v : Value} (has : S.routine.Has i (.jump (Compile.logicalTest o) target)) :
    S.Leads (· = if σ.heap.truth v = o.decider then S.state target σ (v :: ops) else S.state (i + 1) σ ops) 1
      (S.state i σ (v :: ops)) := by
  have hkeep : Run.performJump (Compile.logicalTest o) target = Run.jumpKeeping target o.decider := by
    cases o <;> rfl
  have hperform : Run.perform (S.frameAt i) (.jump (Compile.logicalTest o) target) (S.state i σ (v :: ops)) =
      (if σ.heap.truth v = o.decider then pure (.jump target)
        else do
          let _ ← Run.pop
          return .next : Run Flow) (S.state i σ (v :: ops)) := by
    change Run.performJump (Compile.logicalTest o) target _ = _
    rw [hkeep, Run.jumpKeeping]
    exact (Run.bind_of_ok (peek_state v)).trans rfl
  split
  · rename_i htruth
    rw [if_pos htruth] at hperform
    exact jumps has hperform
  · rename_i htruth
    rw [if_neg htruth] at hperform
    exact goes_next has (hperform.trans (Run.bind_of_ok (pop_state v)))

-- ---------------------------------------------------------------------------
-- Variables
-- ---------------------------------------------------------------------------

/-- The slots of the visible names are slots of the frame. -/
def Holds (S : Stage) (Γ : Layout.Env) : Prop :=
  ∀ name k, Γ.find? name = some k → k < S.routine.frameSize

theorem readSlot {k : Nat} (has : S.routine.Has i (.read (.frame k) .value)) (hk : k < S.routine.frameSize) :
    S.Delivers (fun v => S.state (i + 1) σ (v :: ops)) σ (.ok (σ.value k)) (S.state i σ ops) := by
  have hread : Run.readSlot (S.frameAt i) (.frame k) .value (S.state i σ ops) =
      .ok (σ.value k) (S.state i σ ops) :=
    (Run.bind_of_ok (local_state hk)).trans rfl
  exact pushes has rfl (Run.bind_of_ok hread)

theorem readGlobal {k : Nat} {name : String} (has : S.routine.Has i (.read (.global k) .value))
    (hk : Layout.IsText S.routine k name) :
    S.Delivers (fun v => S.state (i + 1) σ (v :: ops)) σ (σ.readGlobal name) (S.state i σ ops) := by
  have hglobal : (Run.global name >>= fun v => Run.heap >>= fun h => pure (h.resolve v)) (S.state i σ ops) =
      (monadLift (σ.readGlobal name) : Run Value) (S.state i σ ops) := by
    have hglobals : (S.state i σ ops).globals = σ.globals := rfl
    have hlook : Run.global name (S.state i σ ops) =
        ((σ.globals.find? name).elim (Run.fail (.undefinedIdentifier name)) pure : Run Value) (S.state i σ ops) := by
      rw [Run.global, Run.bind_get, hglobals]
      cases σ.globals.find? name <;> rfl
    rw [Run.bind_congr hlook, Store.readGlobal]
    cases σ.globals.find? name <;> rfl
  exact pushes has rfl (Run.bind_congr ((Run.bind_of_ok (constant_state hk)).trans hglobal))

/-- A name is read. -/
theorem read {Γ : Layout.Env} {name : String} {slot : Slot} (hΓ : S.Holds Γ)
    (has : S.routine.Has i (.read slot .value)) (hslot : Layout.Denotes S.routine [] Γ name slot) :
    S.Delivers (fun v => S.state (i + 1) σ (v :: ops)) σ (σ.read Γ name) (S.state i σ ops) := by
  cases slot with
  | frame k =>
    have hfind : Γ.find? name = some k := hslot
    simp only [Store.read, hfind]
    exact readSlot has (hΓ name k hfind)
  | captured k => cases hslot.2
  | global k =>
    simp only [Store.read, hslot.1]
    exact readGlobal has hslot.2.2

theorem define {k : Nat} {v : Value} (has : S.routine.Has i (.define k)) (hk : k < S.routine.frameSize) :
    S.Leads (· = S.state (i + 1) (σ.bind k v) ops) 1 (S.state i σ (v :: ops)) := by
  refine plain has rfl ((Run.bind_of_ok (pop_state v)).trans ?_)
  exact (Run.bind_of_ok (local_state hk)).trans (setLocal_state hk v)

theorem writeSlot {k : Nat} {v : Value} (has : S.routine.Has i (.write (.frame k)))
    (hk : k < S.routine.frameSize) :
    S.Leads (· = S.state (i + 1) (σ.assignSlot k v) ops) 1 (S.state i σ (v :: ops)) := by
  refine plain has rfl ((Run.bind_of_ok (pop_state v)).trans ?_)
  refine (Run.bind_of_ok (local_state hk)).trans ?_
  refine (Run.bind_of_ok (Run.assign_eq ..)).trans ?_
  exact setLocal_state (σ := { σ with heap := (σ.heap.assigned (σ.slots k) v).2 }) hk _

theorem writeGlobal {k : Nat} {name : String} {v : Value} (has : S.routine.Has i (.write (.global k)))
    (hk : Layout.IsText S.routine k name) :
    S.Leads (· = S.state (i + 1) (σ.assignGlobal name v) ops) 1 (S.state i σ (v :: ops)) := by
  refine plain has rfl ((Run.bind_of_ok (pop_state v)).trans ?_)
  refine (Run.bind_of_ok (constant_state hk)).trans ?_
  have hglobals : (S.state i σ ops).globals = σ.globals := rfl
  rw [Run.bind_get, hglobals, Store.assignGlobal]
  cases σ.globals.find? name with
  | some old => exact (Run.bind_of_ok (Run.assign_eq ..)).trans rfl
  | none => rfl

/-- A name is assigned to. -/
theorem write {Γ : Layout.Env} {name : String} {slot : Slot} {v : Value} (hΓ : S.Holds Γ)
    (has : S.routine.Has i (.write slot)) (hslot : Layout.Denotes S.routine [] Γ name slot) :
    S.Leads (· = S.state (i + 1) (σ.assign Γ name v) ops) 1 (S.state i σ (v :: ops)) := by
  cases slot with
  | frame k =>
    have hfind : Γ.find? name = some k := hslot
    simp only [Store.assign, hfind]
    exact writeSlot has (hΓ name k hfind)
  | captured k => cases hslot.2
  | global k =>
    simp only [Store.assign, hslot.1]
    exact writeGlobal has hslot.2.2

/-- A counter in a slot moves on by one. -/
theorem count {k : Nat} {up : Bool} (has : S.routine.Has i (.count k up)) (hk : k < S.routine.frameSize) :
    S.Delivers (fun v => S.state (i + 1) (σ.assignSlot k v) ops) σ
      (σ.heap.stepCounter (σ.slots k) up) (S.state i σ ops) := by
  have hperform : Run.performPlain (S.frameAt i) (.count k up) (S.state i σ ops) =
      ((monadLift (σ.heap.stepCounter (σ.slots k) up) : Run Value) >>= fun v =>
        Run.assign (σ.slots k) v >>= Run.setLocal (S.frameAt i) k) (S.state i σ ops) :=
    (Run.bind_of_ok (local_state hk)).trans rfl
  cases hcount : σ.heap.stepCounter (σ.slots k) up with
  | error e =>
    rw [hcount] at hperform
    exact .here (plain_fails has rfl hperform)
  | ok v =>
    rw [hcount] at hperform
    refine (plain has rfl (hperform.trans ?_)).fewer (Nat.zero_le _)
    refine (Run.bind_of_ok (Run.assign_eq ..)).trans ?_
    exact setLocal_state (σ := { σ with heap := (σ.heap.assigned (σ.slots k) v).2 }) hk _

-- ---------------------------------------------------------------------------
-- Effects and failures
-- ---------------------------------------------------------------------------

theorem pop {v : Value} (has : S.routine.Has i .pop) :
    S.Leads (· = S.state (i + 1) σ ops) 1 (S.state i σ (v :: ops)) :=
  plain has rfl ((Run.bind_of_ok (pop_state v)).trans rfl)

theorem print {vs : List Value} {newline : Bool} (has : S.routine.Has i (.print vs.length newline)) :
    S.Leads (· = S.state (i + 1) (σ.print vs newline) ops) 1 (S.state i σ (vs.reverse ++ ops)) :=
  plain has rfl ((Run.bind_of_ok (popMany_state vs)).trans rfl)

/-- An assertion. Its message, if it has one, is above the condition. -/
theorem assert {v : Value} {message : Option Value}
    (has : S.routine.Has i (.assert (if message.isSome then 2 else 1))) :
    if σ.heap.truth v then
      S.Leads (· = S.state (i + 1) σ ops) 1 (S.state i σ (message.toList ++ v :: ops))
    else
      S.Fails (Fault.assertion (message.elim "assertion failed" σ.heap.text)).failure σ
        (S.state i σ (message.toList ++ v :: ops)) := by
  have hperform : Run.performPlain (S.frameAt i) (.assert (if message.isSome then 2 else 1))
        (S.state i σ (message.toList ++ v :: ops)) =
      (if !σ.heap.truth v then Run.fail (.assertion (message.elim "assertion failed" σ.heap.text))
        else pure () : Run Unit) (S.state i σ ops) := by
    cases message with
    | none => exact (Run.bind_of_ok (pop_state v)).trans rfl
    | some w =>
      have hmessage : (some <$> Run.pop : Run (Option Value)) (S.state i σ (w :: v :: ops)) =
          .ok (some w) (S.state i σ (v :: ops)) :=
        (Run.bind_of_ok (pop_state w)).trans rfl
      exact (Run.bind_of_ok hmessage).trans ((Run.bind_of_ok (pop_state v)).trans rfl)
  cases htruth : σ.heap.truth v with
  | true =>
    rw [htruth] at hperform
    exact plain has rfl hperform
  | false =>
    rw [htruth] at hperform
    exact plain_fails has rfl hperform

theorem throw {v : Value} (has : S.routine.Has i .throw) :
    S.Fails (Fault.thrown (σ.heap.text v)).failure σ (S.state i σ (v :: ops)) :=
  plain_fails has rfl ((Run.bind_of_ok (pop_state v)).trans rfl)

end Evaluation.Stage

end Rill
