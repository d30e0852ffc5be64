-- SUMMARY: What calling a value from outside leaves of the machine, and of its operands when they do not fit.
import Rill.Proofs.Safety.Hosts

/-!
# Calls of values

A host that calls a value hands over callee and arguments, and they are pushed first. If they fit, operand
stack, activations and recorded reference flags are afterwards what they were, whatever becomes of the call.
If they do not fit, the call fails at once, and those that did fit stay on the operand stack.
-/

namespace Rill

variable {m : Machine}

-- ---------------------------------------------------------------------------
-- Pushing and popping
-- ---------------------------------------------------------------------------

/-- The machine with further values on its operand stack. -/
def Machine.pushed (m : Machine) (vs : List Value) : Machine := { m with stack := m.stack ++ vs.toArray }

@[simp]
theorem Machine.pushed_nil : m.pushed [] = m := by simp [Machine.pushed]

@[simp]
theorem Machine.pushed_config (vs : List Value) : (m.pushed vs).config = m.config := rfl

@[simp]
theorem Machine.pushed_size (vs : List Value) : (m.pushed vs).stack.size = m.stack.size + vs.length := by
  simp [Machine.pushed]

theorem Machine.pushed_pushed (vs ws : List Value) : (m.pushed vs).pushed ws = m.pushed (vs ++ ws) := by
  simp [Machine.pushed]

theorem Machine.push_eq_pushed (v : Value) : { m with stack := m.stack.push v } = m.pushed [v] := by
  simp [Machine.pushed]

theorem push_room (v : Value) (h : m.stack.size < m.config.stackLimit) :
    Run.push v m = .ok () (m.pushed [v]) := by
  rw [← Machine.push_eq_pushed]
  change (if m.stack.size ≥ m.config.stackLimit then (Run.fail .stackOverflow >>= fun _ : PUnit => Run.put v)
    else Run.put v) m = _
  rw [if_neg (Nat.not_le.mpr h)]
  rfl

theorem push_full (v : Value) (h : m.config.stackLimit ≤ m.stack.size) :
    Run.push v m = .error Fault.stackOverflow.failure m := by
  change (if m.stack.size ≥ m.config.stackLimit then (Run.fail .stackOverflow >>= fun _ : PUnit => Run.put v)
    else Run.put v) m = _
  rw [if_pos h]
  rfl

theorem pop_of_back {v : Value} (h : m.stack.back? = some v) :
    Run.pop m = .ok v { m with stack := m.stack.pop } := by
  unfold Run.pop
  simp only [bind, EStateM.bind, Run.get_run, h]
  rfl

/-- Values are pushed one by one until the stack is full. -/
theorem forM_push (vs : List Value) (h : m.stack.size ≤ m.config.stackLimit) :
    vs.forM Run.push m =
      if m.stack.size + vs.length ≤ m.config.stackLimit then .ok () (m.pushed vs)
      else .error Fault.stackOverflow.failure (m.pushed (vs.take (m.config.stackLimit - m.stack.size))) := by
  induction vs generalizing m with
  | nil =>
    rw [if_pos (by simpa using h), Machine.pushed_nil]
    rfl
  | cons v vs ih =>
    change EStateM.bind (Run.push v) (fun _ => vs.forM Run.push) m = _
    unfold EStateM.bind
    by_cases hroom : m.stack.size < m.config.stackLimit
    · have hsucc : m.config.stackLimit - m.stack.size = m.config.stackLimit - (m.stack.size + 1) + 1 := by omega
      rw [push_room v hroom]
      dsimp only
      rw [ih (m := m.pushed [v]) (by simp; omega), Machine.pushed_pushed, Machine.pushed_pushed, hsucc,
        List.take_succ_cons]
      simp [Nat.add_assoc, Nat.add_comm 1]
    · have hfull : m.config.stackLimit - m.stack.size = 0 := by omega
      rw [push_full v (by omega), if_neg (by simp; omega), hfull]
      simp

-- ---------------------------------------------------------------------------
-- Calling
-- ---------------------------------------------------------------------------

/-- The machine with callee and arguments of a call on its operand stack, and kept by the host. -/
def Machine.calling (m : Machine) (callee : Value) (args : Array Value) : Machine :=
  { m.pushed (callee :: args.toList) with held := callee :: args.toList ++ m.held }

/-- The second machine has the operand stack, the activations, the reference flags and the values kept by
the host of the first one. -/
structure Machine.Matches (m m' : Machine) : Prop where
  stack : m'.stack = m.stack
  control : m'.control = m.control
  precall : m'.precall = m.precall
  held : m'.held = m.held

/-- What a host does with the machine after it has called a value on it. -/
def Machine.afterCall (m : Machine) : EStateM.Result Failure Machine Bool → EStateM.Result Failure Machine Value
  | .ok _ after => Run.pop { after with held := m.held }
  | .error e after => .error e { after with held := m.held, stack := after.stack.shrink m.stack.size }

theorem callValue_run (callee : Value) (args : List Value) :
    Run.callValue callee args.toArray m =
      match (callee :: args).forM Run.push m with
      | .ok () pushed =>
        m.afterCall (Run.hostCall Run.endlessly args.length false false
          { pushed with held := callee :: args ++ pushed.held })
      | .error e pushed => .error e pushed := by
  change Run.callValue callee args.toArray m =
    match EStateM.bind (Run.push callee) (fun _ => args.forM Run.push) m with
    | .ok () pushed => _
    | .error e pushed => _
  unfold Run.callValue
  rw [List.forM_toArray' _ _ rfl]
  simp only [bind, EStateM.bind, Run.get_run]
  cases Run.push callee m with
  | error e _ => rfl
  | ok _ first =>
    dsimp only
    cases args.forM Run.push first with
    | error e _ => rfl
    | ok _ pushed =>
      dsimp only [modify, modifyGet, MonadStateOf.modifyGet, EStateM.modifyGet, tryCatch, MonadExcept.tryCatch,
        tryCatchThe, MonadExceptOf.tryCatch, EStateM.tryCatch, Run.call, discard, Functor.discard,
        Functor.mapConst, Function.comp, EStateM.map, Machine.afterCall]
      rw [List.size_toArray]
      cases Run.hostCall Run.endlessly args.length false false
        { pushed with held := callee :: args ++ pushed.held } <;> rfl

/-- Callee and arguments are pushed, the call is made, and its result is taken from the stack. Without room
for all of them no call is made. -/
theorem callValue_eq (callee : Value) (args : Array Value) (h : m.stack.size ≤ m.config.stackLimit) :
    Run.callValue callee args m =
      if m.stack.size + args.size < m.config.stackLimit then
        m.afterCall (Run.hostCall Run.endlessly args.size false false (m.calling callee args))
      else
        .error Fault.stackOverflow.failure
          (m.pushed ((callee :: args.toList).take (m.config.stackLimit - m.stack.size))) := by
  obtain ⟨args⟩ := args
  rw [callValue_run, forM_push _ h]
  by_cases hroom : m.stack.size + args.length < m.config.stackLimit
  · rw [if_pos (by simp; omega), if_pos (by simpa using hroom)]
    rfl
  · rw [if_neg (by simp; omega), if_neg (by simpa using hroom)]

section Neutral

variable {callee : Value} {args : Array Value}

theorem Machine.IsStanding.calling (h : m.IsStanding) (callee : Value)
    (hroom : m.stack.size + args.size < m.config.stackLimit) : (m.calling callee args).IsStanding where
  sound := h.sound
  room := by
    simp [Machine.calling]
    omega
  idle := h.idle
  depth := h.depth

/-- A call that has been pushed on top of a machine leaves that machine, with its result if it has one. -/
theorem Machine.Keeps.matches {after : Machine} (h : (m.calling callee args).Keeps after m.stack.size)
    {stack : Array Value} (hsize : stack.size = m.stack.size)
    (hstack : ∀ k < m.stack.size, stack[k]? = after.stack[k]?) :
    m.Matches { after with stack := stack, held := m.held } where
  stack := by
    refine Array.ext_getElem? fun k => ?_
    by_cases hk : k < m.stack.size
    · have hbelow : (m.calling callee args).stack[k]? = m.stack[k]? := by
        simp [Machine.calling, Machine.pushed, Array.getElem?_append, hk]
      exact (hstack k hk).trans ((h.stack k hk).trans hbelow)
    · simp [hsize, Nat.le_of_not_lt hk]
  control := h.control
  precall := h.precall
  held := rfl

/-- Operand stack, activations and reference flags are after the call of a value what they were before it,
if callee and arguments fit on the stack and the call comes to an end. -/
theorem callValue_matches (h : m.IsStanding) (hroom : m.stack.size + args.size < m.config.stackLimit)
    (hover : ∀ after, Run.hostCall Run.endlessly args.size false false (m.calling callee args) ≠
      .ok false after) :
    m.Matches ((Run.callValue callee args).leaves m) := by
  have hends := hostCall_ends (h.calling callee hroom) (by simp [Machine.calling]; omega : args.size < _)
    Run.endlessly false false
  have hslot : (m.calling callee args).stack.size - 1 - args.size = m.stack.size := by simp [Machine.calling]
  rw [hslot] at hends
  rw [Run.leaves, callValue_eq callee args h.room, if_pos hroom]
  cases hcall : Run.hostCall Run.endlessly args.size false false (m.calling callee args) with
  | ok ended after =>
    rw [hcall] at hends
    cases ended with
    | false => exact (hover after hcall).elim
    | true =>
      obtain ⟨hkeeps, hsize⟩ := hends rfl
      have hresult : after.stack.back? = some after.stack[m.stack.size] := by simp [Array.back?, hsize]
      rw [Machine.afterCall, pop_of_back (m := { after with held := m.held }) hresult]
      refine hkeeps.matches (by simp [hsize]) fun k hk => ?_
      simp [hsize, hk]
  | error e after =>
    rw [hcall] at hends
    obtain ⟨hkeeps, hsize⟩ := hends
    rw [if_neg Bool.false_ne_true] at hsize
    have hshrink : after.stack.shrink m.stack.size = after.stack := by simp [hsize]
    exact hkeeps.matches (by rw [hshrink, hsize]) fun k _ => by rw [hshrink]

/-- If callee and arguments do not fit, those that do are left on the stack. -/
theorem callValue_overflow (h : m.stack.size ≤ m.config.stackLimit)
    (hfull : m.config.stackLimit ≤ m.stack.size + args.size) :
    Run.callValue callee args m =
      .error Fault.stackOverflow.failure
        (m.pushed ((callee :: args.toList).take (m.config.stackLimit - m.stack.size))) := by
  rw [callValue_eq callee args h, if_neg (Nat.not_lt.mpr hfull)]

theorem Machine.matches_pushed_iff {vs : List Value} : m.Matches (m.pushed vs) ↔ vs = [] := by
  refine ⟨fun h => ?_, ?_⟩
  · simpa [Machine.pushed] using h.stack
  · rintro rfl
    rw [Machine.pushed_nil]
    exact ⟨rfl, rfl, rfl, rfl⟩

/-- A call of a value that comes to an end leaves the machine as it was, unless the stack has room for the
callee, but not for all arguments. -/
theorem callValue_matches_iff (h : m.IsStanding)
    (hover : ∀ after, Run.hostCall Run.endlessly args.size false false (m.calling callee args) ≠
      .ok false after) :
    m.Matches ((Run.callValue callee args).leaves m) ↔
      m.stack.size + args.size < m.config.stackLimit ∨ m.stack.size = m.config.stackLimit := by
  by_cases hroom : m.stack.size + args.size < m.config.stackLimit
  · exact ⟨fun _ => .inl hroom, fun _ => callValue_matches h hroom hover⟩
  · have := h.room
    rw [Run.leaves, callValue_overflow h.room (Nat.le_of_not_lt hroom)]
    refine Machine.matches_pushed_iff.trans ?_
    rw [List.take_eq_nil_iff]
    simp
    omega

/-- On a stack for three values, with one on it already, null is called with one argument. It is not called
with two of them. -/
theorem callValue_matches_iff_null :
    let m : Machine := { config := { stackLimit := 3 }, stack := #[.bool true] }
    m.IsStanding ∧ m.Matches ((Run.callValue .null #[.int 1]).leaves m) ∧
      ¬m.Matches ((Run.callValue .null #[.int 1, .int 2]).leaves m) := by
  intro m
  have hm : m.IsStanding :=
    ((Machine.Arises.start { stackLimit := 3 } {} [] none 0).push (.bool true) (by decide)).standing
  refine ⟨hm, (callValue_matches_iff hm ?_).mpr (.inl (by decide)), fun h => ?_⟩
  · intro after hcall
    cases hcall
  · refine absurd ((callValue_matches_iff hm ?_).mp h) (by decide)
    intro after hcall
    cases hcall

end Neutral

end Rill
