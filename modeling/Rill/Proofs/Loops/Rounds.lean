-- SUMMARY: The instructions of a counting loop around its body: the test, and the moving on of the counter.
import Rill.Proofs.Evaluation.Instructions
import Rill.Proofs.Loops.Passes

/-!
# Rounds

The test of a counting loop compares the counter with the limit and leaves the machine as it was, but for the
instruction that is next. Behind the body the counter becomes the next one, in its slot or in the cell that has
taken its place, or the step fails because the next counter is no word.
-/

namespace Rill

open Layout

-- ---------------------------------------------------------------------------
-- Frames about to execute an instruction
-- ---------------------------------------------------------------------------

namespace Machine

/-- The machine in which a frame is about to execute an instruction, with more operands on the stack. -/
def poised (m : Machine) (f : Frame) (rest : List Activation) (pc : Nat) (operands : List Value) : Machine :=
  { m with control := .script { f with ip := pc } :: rest, stack := m.stack ++ operands.toArray }

/-- The machine after an assignment to a place on the stack. -/
def assigned (m : Machine) (k : Nat) (old v : Value) : Machine :=
  { m with heap := (m.heap.assigned old v).2, stack := m.stack.setIfInBounds k (m.heap.assigned old v).1 }

variable {m m' : Machine} {f : Frame} {rest : List Activation} {pc target outer i : Nat} {ops ops' : List Value}
  {op : Instruction} {v : Value}

theorem poised_self (h : m.control = .script f :: rest) : m.poised f rest f.ip [] = m := by
  simp [poised, ← h]

theorem standsAt_poised (depth n : Nat) :
    (m.poised f rest pc ops).standsAt depth n = (rest.length == depth && pc == n) := rfl

theorem push_poised (v : Value) (h : m.stack.size + ops.length < m.config.stackLimit) :
    Run.push v (m.poised f rest pc ops) = .ok () (m.poised f rest pc (ops ++ [v])) := by
  have hlimit : ¬(m.poised f rest pc ops).stack.size ≥ (m.poised f rest pc ops).config.stackLimit := by
    simp only [poised, Array.size_append, List.size_toArray]
    omega
  rw [Run.push, Run.bind_get]
  simp only [if_neg hlimit]
  change EStateM.Result.ok () { m.poised f rest pc ops with stack := (m.stack ++ ops.toArray).push v } = _
  simp [poised]

theorem pop_poised (ops : List Value) (v : Value) :
    Run.pop (m.poised f rest pc (ops ++ [v])) = .ok v (m.poised f rest pc ops) := by
  have hstack : (m.poised f rest pc (ops ++ [v])).stack = (m.poised f rest pc ops).stack.push v := by simp [poised]
  rw [Run.pop, Run.bind_get, hstack, Array.back?_push]
  change EStateM.Result.ok v { m.poised f rest pc (ops ++ [v]) with
    stack := (m.poised f rest pc (ops ++ [v])).stack.pop } = _
  rw [hstack, Array.pop_push]
  rfl

theorem local_poised (h : m.stack[f.base + i]? = some v) :
    Run.local? { f with ip := pc } i (m.poised f rest pc ops) = .ok v (m.poised f rest pc ops) := by
  have hslot : (m.poised f rest pc ops).stack[f.base + i]? = some v := by
    obtain ⟨hi, -⟩ := Array.getElem?_eq_some_iff.mp h
    simp only [poised]
    rw [Array.getElem?_append_left hi, h]
  rw [Run.local?, Run.bind_get, hslot]
  rfl

/-- What a variable in a slot holds is read. -/
theorem readSlot_poised (h : m.stack[f.base + i]? = some v) :
    Run.readSlot { f with ip := pc } (.frame i) .value (m.poised f rest pc ops) =
      .ok (m.heap.resolve v) (m.poised f rest pc ops) :=
  (Run.bind_of_ok (local_poised h)).trans rfl

/-- A variable in a slot is assigned. -/
theorem assign_poised (h : m.stack[f.base + i]? = some v) (w : Value) :
    (Run.assign v w >>= Run.setLocal { f with ip := pc } i) (m.poised f rest pc ops) =
      .ok () ((m.assigned (f.base + i) v w).poised f rest pc ops) := by
  obtain ⟨hi, -⟩ := Array.getElem?_eq_some_iff.mp h
  rw [Run.bind_of_ok (Run.assign_eq ..)]
  change EStateM.Result.ok () { m.poised f rest pc ops with
    heap := (m.heap.assigned v w).2
    stack := (m.stack ++ ops.toArray).setIfInBounds (f.base + i) (m.heap.assigned v w).1 } = _
  rw [Array.setIfInBounds_append_left hi]
  rfl

-- ---------------------------------------------------------------------------
-- Steps
-- ---------------------------------------------------------------------------

section Steps

variable (has : f.routine.Has pc op)
include has

theorem step_poised :
    Run.step (m.poised f rest pc ops) = (Run.perform { f with ip := pc } op >>= fun flow =>
      match flow with
      | .next => Run.goTo (· + 1)
      | .jump target => Run.goTo fun _ => target
      | .enter args keepRef => modify fun m => { m with control := .entering args keepRef :: m.control }
      | .leave v => Run.complete (f.base - 1) f.keepRef v) (m.poised f rest pc ops) := by
  have hop : ({ f with ip := pc } : Frame).routine.code.ops[pc]? = some op := has
  change Run.stepFrame { f with ip := pc } (m.poised f rest pc ops) = _
  rewrite [Run.stepFrame, hop]
  rfl

/-- An instruction after which the next one follows. -/
theorem next_poised (h : Run.perform { f with ip := pc } op (m.poised f rest pc ops) =
      .ok .next (m'.poised f rest pc ops')) :
    Run.attempt outer (m.poised f rest pc ops) = .ok () (m'.poised f rest (pc + 1) ops') := by
  have hstep : Run.step (m.poised f rest pc ops) = .ok () (m'.poised f rest (pc + 1) ops') := by
    rw [step_poised has, Run.bind_of_ok h]
    rfl
  simp only [Run.attempt, hstep]

/-- An instruction that jumps. -/
theorem jump_poised (h : Run.perform { f with ip := pc } op (m.poised f rest pc ops) =
      .ok (.jump target) (m'.poised f rest pc ops')) :
    Run.attempt outer (m.poised f rest pc ops) = .ok () (m'.poised f rest target ops') := by
  have hstep : Run.step (m.poised f rest pc ops) = .ok () (m'.poised f rest target ops') := by
    rw [step_poised has, Run.bind_of_ok h]
    rfl
  simp only [Run.attempt, hstep]

end Steps

-- ---------------------------------------------------------------------------
-- Instructions
-- ---------------------------------------------------------------------------

theorem attempt_read (has : f.routine.Has pc (.read (.frame i) .value)) (hv : m.stack[f.base + i]? = some v)
    (hroom : m.stack.size + ops.length < m.config.stackLimit) :
    Run.attempt outer (m.poised f rest pc ops) =
      .ok () (m.poised f rest (pc + 1) (ops ++ [m.heap.resolve v])) := by
  have hplain : Run.performPlain { f with ip := pc } (.read (.frame i) .value) (m.poised f rest pc ops) =
      .ok () (m.poised f rest pc (ops ++ [m.heap.resolve v])) :=
    (Run.bind_of_ok (readSlot_poised hv)).trans (push_poised _ hroom)
  exact next_poised has ((Run.bind_of_ok hplain).trans rfl)

section Operators

variable {o : BinaryOp} {a b : Value}

theorem performPlain_binary :
    Run.performPlain { f with ip := pc } (.binary o) (m.poised f rest pc [a, b]) =
      ((monadLift (m.heap.binary o a b) : Run Value) >>= Run.push) (m.poised f rest pc []) :=
  (Run.bind_of_ok (pop_poised [a] b)).trans ((Run.bind_of_ok (pop_poised [] a)).trans rfl)

theorem attempt_binary (has : f.routine.Has pc (.binary o)) (hv : m.heap.binary o a b = .ok v)
    (hroom : m.stack.size < m.config.stackLimit) :
    Run.attempt outer (m.poised f rest pc [a, b]) = .ok () (m.poised f rest (pc + 1) [v]) := by
  have hplain : Run.performPlain { f with ip := pc } (.binary o) (m.poised f rest pc [a, b]) =
      .ok () (m.poised f rest pc [v]) := by
    rw [performPlain_binary, hv]
    exact push_poised v hroom
  exact next_poised has ((Run.bind_of_ok hplain).trans rfl)

theorem step_binary_fails {e : Failure} (has : f.routine.Has pc (.binary o)) (he : m.heap.binary o a b = .error e) :
    Run.step (m.poised f rest pc [a, b]) = .error e (m.poised f rest pc []) := by
  have hplain : Run.performPlain { f with ip := pc } (.binary o) (m.poised f rest pc [a, b]) =
      .error e (m.poised f rest pc []) := by
    rw [performPlain_binary, he]
    rfl
  rw [step_poised has, Run.bind_of_error]
  exact Run.bind_of_error hplain

end Operators

theorem attempt_jump (has : f.routine.Has pc (.jump .always target)) :
    Run.attempt outer (m.poised f rest pc ops) = .ok () (m.poised f rest target ops) :=
  jump_poised has rfl

theorem attempt_jumpIf {c : Bool} (has : f.routine.Has pc (.jump .ifTrue target)) :
    Run.attempt outer (m.poised f rest pc [.bool c]) =
      .ok () (m.poised f rest (if c then target else pc + 1) []) := by
  have hperform : Run.perform { f with ip := pc } (.jump .ifTrue target) (m.poised f rest pc [.bool c]) =
      (if c = true then pure (.jump target) else pure .next : Run Flow) (m.poised f rest pc []) :=
    Run.bind_of_ok (pop_poised [] (.bool c))
  cases c with
  | true => exact jump_poised has hperform
  | false => exact next_poised has hperform

theorem attempt_write (has : f.routine.Has pc (.write (.frame i))) (hv : m.stack[f.base + i]? = some v) (w : Value) :
    Run.attempt outer (m.poised f rest pc [w]) = .ok () ((m.assigned (f.base + i) v w).poised f rest (pc + 1) []) := by
  have hplain : Run.performPlain { f with ip := pc } (.write (.frame i)) (m.poised f rest pc [w]) =
      .ok () ((m.assigned (f.base + i) v w).poised f rest pc []) :=
    (Run.bind_of_ok (pop_poised [] w)).trans ((Run.bind_of_ok (local_poised hv)).trans (assign_poised hv w))
  exact next_poised has ((Run.bind_of_ok hplain).trans rfl)

section Counting

variable {up : Bool} (hv : m.stack[f.base + i]? = some v)
include hv

theorem performPlain_count :
    Run.performPlain { f with ip := pc } (.count i up) (m.poised f rest pc []) =
      ((monadLift (m.heap.stepCounter v up) : Run Value) >>= fun w =>
        Run.assign v w >>= Run.setLocal { f with ip := pc } i) (m.poised f rest pc []) :=
  (Run.bind_of_ok (local_poised hv)).trans rfl

theorem attempt_count {w : Value} (has : f.routine.Has pc (.count i up)) (hw : m.heap.stepCounter v up = .ok w) :
    Run.attempt outer (m.poised f rest pc []) = .ok () ((m.assigned (f.base + i) v w).poised f rest (pc + 1) []) := by
  have hplain : Run.performPlain { f with ip := pc } (.count i up) (m.poised f rest pc []) =
      .ok () ((m.assigned (f.base + i) v w).poised f rest pc []) := by
    rw [performPlain_count hv, hw]
    exact assign_poised hv w
  exact next_poised has ((Run.bind_of_ok hplain).trans rfl)

theorem step_count_fails {e : Failure} (has : f.routine.Has pc (.count i up))
    (he : m.heap.stepCounter v up = .error e) :
    Run.step (m.poised f rest pc []) = .error e (m.poised f rest pc []) := by
  have hplain : Run.performPlain { f with ip := pc } (.count i up) (m.poised f rest pc []) =
      .error e (m.poised f rest pc []) := by
    rw [performPlain_count hv, he]
    rfl
  rw [step_poised has, Run.bind_of_error]
  exact Run.bind_of_error hplain

end Counting

end Machine

-- ---------------------------------------------------------------------------
-- Counters
-- ---------------------------------------------------------------------------

/-- The number is one of a word of 64 bits. -/
def IsWord (n : Int) : Prop := -0x8000000000000000 ≤ n ∧ n < 0x8000000000000000

instance (n : Int) : Decidable (IsWord n) := inferInstanceAs (Decidable (_ ∧ _))

theorem IsWord.toInt_ofInt {n : Int} (h : IsWord n) : (Int64.ofInt n).toInt = n :=
  Int64.toInt_ofInt_of_le h.1 h.2

theorem word?_eq (n : Int) : Decimal.word? n = if IsWord n then some (Int64.ofInt n) else none := rfl

theorem isWord_toInt (n : Int64) : IsWord n.toInt := ⟨Int64.le_toInt n, Int64.toInt_lt n⟩

namespace Heap

variable {h : Heap} {v w : Value} {a s : Int64}

theorem arithmetic_ints (hv : h.resolve v = .int a) (hw : h.resolve w = .int s) (op : String) (ints : Int → Int → Int)
    (floats : Float → Float → Float) :
    h.arithmetic op ints floats v w =
      if IsWord (ints a.toInt s.toInt) then .ok (.int (Int64.ofInt (ints a.toInt s.toInt)))
      else .error (Fault.integerOverflow op).failure := by
  simp only [arithmetic, operands, hv, hw, word?_eq, bind, Except.bind]
  by_cases hword : IsWord (ints a.toInt s.toInt)
  · simp only [if_pos hword]
    rfl
  · simp only [if_neg hword]
    rfl

theorem binary_lt_ints (a b : Int64) :
    h.binary .lt (.int a) (.int b) = .ok (.bool (!decide (b.toInt ≤ a.toInt))) := by
  have htest : (compare a b).isLT = !decide (b.toInt ≤ a.toInt) := by
    rw [Bool.eq_iff_iff, Ordering.isLT_iff_eq_lt, Std.compare_eq_lt, Int64.lt_iff_toInt_lt]
    simp
  exact congrArg (fun test => Except.ok (Value.bool test)) htest

theorem binary_gt_ints (a b : Int64) :
    h.binary .gt (.int a) (.int b) = .ok (.bool (!decide (a.toInt ≤ b.toInt))) := by
  have htest : (compare a b).isGT = !decide (a.toInt ≤ b.toInt) := by
    rw [Bool.eq_iff_iff, Ordering.isGT_iff_eq_gt, Std.compare_eq_gt, Int64.lt_iff_toInt_lt]
    simp
  exact congrArg (fun test => Except.ok (Value.bool test)) htest

/-- An integer that has been assigned is what the place has then, be it in a cell or not. -/
theorem resolve_assigned (hv : h.resolve v = .int a) (s : Int64) :
    (h.assigned v (.int s)).2.resolve (h.assigned v (.int s)).1 = .int s := by
  cases v with
  | cell id =>
    have hid : id.index < h.cells.size := by
      by_contra hle
      simp [resolve, cellValue, Array.getElem?_eq_none (Nat.le_of_not_lt hle)] at hv
    change (((h.cells.setIfInBounds id.index (some (.int s)))[id.index]?).join).getD .null = _
    rw [Array.getElem?_setIfInBounds_self_of_lt hid]
    rfl
  | _ => rfl

end Heap

namespace ForLoop

/-- The number a distance further in the direction of the loop. -/
def moved (L : ForLoop) (x distance : Int) : Int := if L.descending then x - distance else x + distance

/-- The number is not past the limit in the direction of the loop. -/
def Within (L : ForLoop) (limit x : Int) : Prop := if L.descending then limit ≤ x else x ≤ limit

instance (L : ForLoop) (limit x : Int) : Decidable (L.Within limit x) := by
  unfold Within
  infer_instance

/-- The frame has an integer counter, limit and step; without a step in the text it is one. -/
structure Holds (L : ForLoop) (f : Frame) (m : Machine) (a b s : Int64) : Prop where
  counter : ∃ v, m.stack[f.base + L.counter]? = some v ∧ m.heap.resolve v = .int a
  limit : m.stack[f.base + L.limit]? = some (.int b)
  step : if L.stepped then m.stack[f.base + L.step]? = some (.int s) else s = 1

/-- The next step fails, in the instructions of the loop that move its counter on, because the next counter is no
word: it is an error of the kind Math. -/
def Overflows (L : ForLoop) (depth : Nat) (m : Machine) : Prop :=
  (∃ pc, L.next ≤ pc ∧ pc < L.exit ∧ m.standsAt depth pc) ∧
    ∃ e m' op, Run.step m = .error e m' ∧ e.fault = .integerOverflow op ∧ e.category = .math

section Rounds

variable {L : ForLoop} {debug : Bool} {out : Outer} {Γ : Env} {name : String} {step : Option Expr} {body : Block}
  {m : Machine} {f : Frame} {rest : List Activation} {a b s : Int64} {outer t : Nat}

theorem Placed.order (h : L.Placed debug out Γ name step body) : L.header + 4 ≤ L.next ∧ L.next < L.exit := by
  have hbody := h.stretch.ordered
  obtain ⟨back, honward, -, hexit⟩ := h.onward
  refine ⟨hbody, ?_⟩
  split at honward
  · obtain ⟨-, -, -, -, hback⟩ := honward
    omega
  · obtain ⟨-, hback⟩ := honward
    omega

/-- One step of a frame that is about to execute an instruction. -/
theorem after_poised {m' : Machine} {pc : Nat} {ops : List Value} (houter : outer ≤ rest.length)
    (h : Run.attempt outer (m.poised f rest pc ops) = .ok () m') :
    (m.poised f rest pc ops).after outer (t + 1) = m'.after outer t :=
  Machine.after_step (Nat.lt_succ_of_le houter) h

theorem passes_poised {m' : Machine} {pc : Nat} {ops : List Value} (houter : outer ≤ rest.length)
    (htest : pc ≠ L.header + 3) (hexit : pc < L.exit) (h : Run.attempt outer (m.poised f rest pc ops) = .ok () m') :
    L.passes outer rest.length (t + 1) (m.poised f rest pc ops) = L.passes outer rest.length t m' := by
  have hstands (n : Nat) (hn : pc ≠ n) : (m.poised f rest pc ops).standsAt rest.length n = false := by
    rw [Machine.standsAt_poised]
    simpa using hn
  rw [passes_step (Nat.lt_succ_of_le houter) (hstands _ (Nat.ne_of_lt hexit)) h, hstands _ htest]
  rfl

/-- The test leads to the body if the counter is not past the limit, and leaves the loop otherwise. -/
theorem Placed.header_steps (hplaced : L.Placed debug out Γ name step body) (hroutine : f.routine = L.routine)
    (hholds : L.Holds f m a b s) (hroom : m.stack.size + 2 ≤ m.config.stackLimit) (houter : outer ≤ rest.length) :
    if L.Within b.toInt a.toInt then
      (m.poised f rest L.header []).after outer 4 = some (m.poised f rest L.body []) ∧
        ∀ t, L.passes outer rest.length (4 + t) (m.poised f rest L.header []) =
          m.poised f rest L.body [] :: L.passes outer rest.length t (m.poised f rest L.body [])
    else
      (m.poised f rest L.header []).after outer 4 = some (m.poised f rest L.exit []) ∧
        L.passes outer rest.length 4 (m.poised f rest L.header []) = [] := by
  obtain ⟨⟨v, hv, hva⟩, hlimit, -⟩ := hholds
  obtain ⟨hbody, hexit⟩ := hplaced.order
  have hhas {pc : Nat} {op : Instruction} (has : L.routine.Has pc op) : f.routine.Has pc op := hroutine ▸ has
  have h₁ : Run.attempt outer (m.poised f rest L.header []) = .ok () (m.poised f rest (L.header + 1) [.int a]) := by
    rw [Machine.attempt_read (hhas hplaced.readCounter) hv (by simp; omega), hva]
    rfl
  have h₂ : Run.attempt outer (m.poised f rest (L.header + 1) [.int a]) =
      .ok () (m.poised f rest (L.header + 2) [.int a, .int b]) :=
    Machine.attempt_read (hhas hplaced.readLimit) hlimit (by simp; omega)
  have h₃ : Run.attempt outer (m.poised f rest (L.header + 2) [.int a, .int b]) =
      .ok () (m.poised f rest L.test [.bool (!decide (L.Within b.toInt a.toInt))]) := by
    refine Machine.attempt_binary (hhas hplaced.compare) ?_ (by omega)
    cases hdescending : L.descending with
    | true => simp [Within, hdescending, Heap.binary_lt_ints]
    | false => simp [Within, hdescending, Heap.binary_gt_ints]
  have h₄ : Run.attempt outer (m.poised f rest L.test [.bool (!decide (L.Within b.toInt a.toInt))]) =
      .ok () (m.poised f rest (if (!decide (L.Within b.toInt a.toInt)) = true then L.exit else L.test + 1) []) :=
    Machine.attempt_jumpIf (hhas hplaced.leave)
  have hafter : (m.poised f rest L.header []).after outer 4 =
      some (m.poised f rest (if (!decide (L.Within b.toInt a.toInt)) = true then L.exit else L.test + 1) []) := by
    rw [after_poised houter h₁, after_poised houter h₂, after_poised houter h₃, after_poised houter h₄,
      Machine.after_zero]
  have hpasses (t : Nat) : L.passes outer rest.length (t + 4) (m.poised f rest L.header []) =
      L.passes outer rest.length (t + 1) (m.poised f rest L.test [.bool (!decide (L.Within b.toInt a.toInt))]) := by
    rw [passes_poised houter (by omega) (by omega) h₁, passes_poised houter (by omega) (by omega) h₂,
      passes_poised houter (by omega) (by omega) h₃]
  have htest (n : Nat) : (m.poised f rest L.test [.bool (!decide (L.Within b.toInt a.toInt))]).standsAt rest.length n =
      (L.test == n) := by
    simp [Machine.standsAt_poised]
  have hne : L.header + 3 ≠ L.exit := by omega
  have hstays : (m.poised f rest L.test [.bool (!decide (L.Within b.toInt a.toInt))]).standsAt rest.length L.exit =
      false := (htest L.exit).trans (beq_eq_false_iff_ne.mpr hne)
  have hpass (t : Nat) := passes_step (t := t) (Nat.lt_succ_of_le houter) hstays h₄
  split
  · next hwithin =>
    refine ⟨by simpa [hwithin] using hafter, fun t => ?_⟩
    rw [Nat.add_comm, hpasses, hpass, htest]
    simp [hwithin, Machine.standsAt_poised]
  · next hwithin =>
    have hne : L.exit ≠ L.header + 4 := by omega
    refine ⟨by simpa [hwithin] using hafter, ?_⟩
    rw [hpasses 0, hpass, htest]
    simp [hwithin, Machine.standsAt_poised, hne, passes]

/-- The counter has been moved on. -/
theorem Holds.assigned (h : L.Holds f m a b s) {v : Value} (hv : m.stack[f.base + L.counter]? = some v)
    (hva : m.heap.resolve v = .int a) (n : Int64) : L.Holds f (m.assigned (f.base + L.counter) v (.int n)) n b s := by
  obtain ⟨hi, -⟩ := Array.getElem?_eq_some_iff.mp hv
  have hother (k : Nat) (hk : L.counter < k) :
      (m.assigned (f.base + L.counter) v (.int n)).stack[f.base + k]? = m.stack[f.base + k]? :=
    Array.getElem?_setIfInBounds_ne (by omega)
  refine ⟨⟨_, Array.getElem?_setIfInBounds_self_of_lt hi, Heap.resolve_assigned hva n⟩, ?_, ?_⟩
  · rw [hother _ (Nat.lt_succ_self _), h.limit]
  · rw [hother _ (Nat.lt_add_of_pos_right Nat.two_pos)]
    exact h.step

/-- From the instructions that move the counter on, the steps lead to the test with the next counter, or the step to
the next counter fails. -/
def MovesOn (L : ForLoop) (outer : Nat) (f : Frame) (rest : List Activation) (m : Machine) (a b s : Int64) : Prop :=
  ∃ t m', (m.poised f rest L.next []).after outer t = some m' ∧
    (∀ u, L.passes outer rest.length (t + u) (m.poised f rest L.next []) = L.passes outer rest.length u m') ∧
    if IsWord (L.moved a.toInt s.toInt) then
      ∃ g : Machine, m' = g.poised f rest L.header [] ∧ L.Holds f g (Int64.ofInt (L.moved a.toInt s.toInt)) b s ∧
        g.stack.size = m.stack.size ∧ g.config = m.config
    else L.Overflows rest.length m'

section Moving

variable {v : Value} {back : Nat} (hholds : L.Holds f m a b s) (hv : m.stack[f.base + L.counter]? = some v)
  (hva : m.heap.resolve v = .int a) (houter : outer ≤ rest.length)
  (hback : f.routine.Has back (.jump .always L.header))
include hholds hv hva houter hback

/-- The counter is in its slot, or in the cell there, and the test is next. -/
theorem movesOn_of_assigned {n : Nat} (hword : IsWord (L.moved a.toInt s.toInt))
    (hafter : ∀ t, (m.poised f rest L.next []).after outer (n + t) =
      ((m.assigned (f.base + L.counter) v (.int (Int64.ofInt (L.moved a.toInt s.toInt)))).poised f rest back []).after
        outer t)
    (hpasses : ∀ t, L.passes outer rest.length (n + t) (m.poised f rest L.next []) = L.passes outer rest.length t
      ((m.assigned (f.base + L.counter) v (.int (Int64.ofInt (L.moved a.toInt s.toInt)))).poised f rest back []))
    (htest : back ≠ L.header + 3) (hexit : back < L.exit) : L.MovesOn outer f rest m a b s := by
  let g := m.assigned (f.base + L.counter) v (.int (Int64.ofInt (L.moved a.toInt s.toInt)))
  have hjump : Run.attempt outer (g.poised f rest back []) = .ok () (g.poised f rest L.header []) :=
    Machine.attempt_jump hback
  refine ⟨n + 1, g.poised f rest L.header [], ?_, ?_, ?_⟩
  · rw [hafter, after_poised houter hjump, Machine.after_zero]
  · intro u
    rw [Nat.add_assoc, hpasses, Nat.add_comm, passes_poised houter htest hexit hjump]
  · rw [if_pos hword]
    exact ⟨g, rfl, hholds.assigned hv hva _, by simp [g, Machine.assigned], rfl⟩

/-- A loop without a step in the text counts by one. -/
theorem movesOn_count (has : f.routine.Has L.next (.count L.counter (!L.descending))) (hs : s = 1)
    (heq : back = L.next + 1) (hexit : L.next + 1 < L.exit) (hbody : L.header + 4 ≤ L.next) :
    L.MovesOn outer f rest m a b s := by
  subst hs heq
  have hadd (n : Int64) : m.heap.binary .add v (.int n) = if IsWord (a.toInt + n.toInt) then
      .ok (.int (Int64.ofInt (a.toInt + n.toInt))) else .error (Fault.integerOverflow BinaryOp.add.symbol).failure :=
    Heap.arithmetic_ints hva rfl _ _ _
  have hcount : m.heap.stepCounter v (!L.descending) = if IsWord (L.moved a.toInt (1 : Int64).toInt) then
      .ok (.int (Int64.ofInt (L.moved a.toInt (1 : Int64).toInt)))
      else .error (Fault.integerOverflow BinaryOp.add.symbol).failure := by
    unfold Heap.stepCounter moved
    rw [hva]
    cases L.descending with
    | true =>
      have hdown : a.toInt + (-1 : Int64).toInt = a.toInt - (1 : Int64).toInt := by
        rw [show (-1 : Int64).toInt = -(1 : Int64).toInt by decide, Int.sub_eq_add_neg]
      exact hdown ▸ hadd (-1)
    | false => exact hadd 1
  by_cases hword : IsWord (L.moved a.toInt (1 : Int64).toInt)
  · rw [if_pos hword] at hcount
    have hstep : Run.attempt outer (m.poised f rest L.next []) = _ := Machine.attempt_count hv has hcount
    refine movesOn_of_assigned (n := 1) hholds hv hva houter hback hword (fun t => ?_) (fun t => ?_) (by omega) hexit
    · rw [Nat.add_comm, after_poised houter hstep]
    · rw [Nat.add_comm, passes_poised houter (by omega) (by omega) hstep]
  · rw [if_neg hword] at hcount
    refine ⟨0, _, Machine.after_zero, fun u => by rw [Nat.zero_add], ?_⟩
    rw [if_neg hword]
    refine ⟨⟨L.next, Nat.le_refl _, by omega, ?_⟩, _, _, _, Machine.step_count_fails hv has hcount, rfl, rfl⟩
    simp [Machine.standsAt_poised]

/-- A loop with a step adds it or takes it away. -/
theorem movesOn_step (hread : f.routine.Has L.next (.read (.frame L.counter) .value))
    (hreadStep : f.routine.Has (L.next + 1) (.read (.frame L.step) .value))
    (hop : f.routine.Has (L.next + 2) (.binary (if L.descending then .sub else .add)))
    (hwrite : f.routine.Has (L.next + 3) (.write (.frame L.counter)))
    (hslot : m.stack[f.base + L.step]? = some (.int s)) (hroom : m.stack.size + 2 ≤ m.config.stackLimit)
    (heq : back = L.next + 4) (hexit : L.next + 4 < L.exit) (hbody : L.header + 4 ≤ L.next) :
    L.MovesOn outer f rest m a b s := by
  subst heq
  obtain ⟨op, hbinary⟩ : ∃ op, m.heap.binary (if L.descending then .sub else .add) (.int a) (.int s) =
      if IsWord (L.moved a.toInt s.toInt) then .ok (.int (Int64.ofInt (L.moved a.toInt s.toInt)))
      else .error (Fault.integerOverflow op).failure := by
    unfold moved
    cases L.descending with
    | true => exact ⟨_, Heap.arithmetic_ints rfl rfl _ _ _⟩
    | false => exact ⟨_, Heap.arithmetic_ints rfl rfl _ _ _⟩
  have h₁ : Run.attempt outer (m.poised f rest L.next []) = .ok () (m.poised f rest (L.next + 1) [.int a]) := by
    rw [Machine.attempt_read hread hv (by simp; omega), hva]
    rfl
  have h₂ : Run.attempt outer (m.poised f rest (L.next + 1) [.int a]) =
      .ok () (m.poised f rest (L.next + 2) [.int a, .int s]) :=
    Machine.attempt_read hreadStep hslot (by simp; omega)
  by_cases hword : IsWord (L.moved a.toInt s.toInt)
  · rw [if_pos hword] at hbinary
    have h₃ : Run.attempt outer (m.poised f rest (L.next + 2) [.int a, .int s]) = _ :=
      Machine.attempt_binary hop hbinary (by omega)
    have h₄ : Run.attempt outer (m.poised f rest (L.next + 3) [.int (Int64.ofInt (L.moved a.toInt s.toInt))]) = _ :=
      Machine.attempt_write hwrite hv _
    refine movesOn_of_assigned (n := 4) hholds hv hva houter hback hword (fun t => ?_) (fun t => ?_) (by omega) hexit
    · rw [Nat.add_comm, after_poised houter h₁, after_poised houter h₂, after_poised houter h₃, after_poised houter h₄]
    · rw [Nat.add_comm, passes_poised houter (by omega) (by omega) h₁, passes_poised houter (by omega) (by omega) h₂,
        passes_poised houter (by omega) (by omega) h₃, passes_poised houter (by omega) (by omega) h₄]
  · rw [if_neg hword] at hbinary
    refine ⟨2, m.poised f rest (L.next + 2) [.int a, .int s], ?_, ?_, ?_⟩
    · rw [after_poised houter h₁, after_poised houter h₂, Machine.after_zero]
    · intro u
      rw [Nat.add_comm, passes_poised houter (by omega) (by omega) h₁, passes_poised houter (by omega) (by omega) h₂]
    · rw [if_neg hword]
      refine ⟨⟨L.next + 2, by omega, by omega, ?_⟩, _, _, _, Machine.step_binary_fails hop hbinary, rfl, rfl⟩
      simp [Machine.standsAt_poised]

end Moving

/-- Behind the body the counter moves on. -/
theorem Placed.movesOn (hplaced : L.Placed debug out Γ name step body) (hroutine : f.routine = L.routine)
    (hholds : L.Holds f m a b s) (hroom : m.stack.size + 2 ≤ m.config.stackLimit) (houter : outer ≤ rest.length) :
    L.MovesOn outer f rest m a b s := by
  obtain ⟨v, hv, hva⟩ := hholds.counter
  obtain ⟨hbody, hnext⟩ := hplaced.order
  obtain ⟨back, honward, hback, hexit⟩ := hplaced.onward
  have hstep := hholds.step
  rw [← hroutine] at honward hback
  cases hstepped : L.stepped with
  | false =>
    simp only [hstepped] at honward hstep
    obtain ⟨has, heq⟩ := honward
    exact movesOn_count hholds hv hva houter hback has hstep heq (by omega) hbody
  | true =>
    simp only [hstepped] at honward hstep
    obtain ⟨hread, hreadStep, hop, hwrite, heq⟩ := honward
    exact movesOn_step hholds hv hva houter hback hread hreadStep hop hwrite hstep hroom heq (by omega) hbody

end Rounds

end ForLoop

end Rill
