-- SUMMARY: Whole runs of a call: the frame at a depth, its slots, and what becomes of them.
import Rill.Proofs.Capture.Slots
import Rill.Proofs.Cells.Steps
import Rill.Proofs.Safety.Hosts

/-!
# Runs of a call

The machines of a call that a host makes follow one another step by step. A frame that stays active through
some of them is the same one, at some instruction. In each step a slot of it keeps its cell, keeps bare,
becomes a new cell, or is bound anew; and the new cells of different steps are different.
-/

namespace Rill

-- ---------------------------------------------------------------------------
-- Runs
-- ---------------------------------------------------------------------------

/-- Consecutive machines of a call that a host makes of the callee below the top `count` operands. -/
structure CallRun (host : Machine) (count : Nat) where
  length : Nat
  machine : Nat → Machine
  start : machine 0 = { host with control := .entering count false :: host.control }
  going : ∀ t < length, host.control.length < (machine t).control.length
  step : ∀ t < length, Run.attempt host.control.length (machine t) = .ok () (machine (t + 1))

namespace CallRun

variable {host : Machine} {count : Nat}

/-- The run with one more machine. -/
def extend (r : CallRun host count) {m : Machine} (hgoing : host.control.length < (r.machine r.length).control.length)
    (hm : Run.attempt host.control.length (r.machine r.length) = .ok () m) : CallRun host count where
  length := r.length + 1
  machine t := if t ≤ r.length then r.machine t else m
  start := r.start
  going t ht := by
    rw [if_pos (Nat.le_of_lt_succ ht)]
    rcases Nat.lt_or_eq_of_le (Nat.le_of_lt_succ ht) with hlt | rfl
    · exact r.going t hlt
    · exact hgoing
  step t ht := by
    rw [if_pos (Nat.le_of_lt_succ ht)]
    rcases Nat.lt_or_eq_of_le (Nat.le_of_lt_succ ht) with hlt | rfl
    · rw [if_pos (Nat.succ_le_of_lt hlt)]
      exact r.step t hlt
    · rw [if_neg (Nat.not_succ_le_self _)]
      exact hm

/-- Whatever machine a call comes to, a run leads there. -/
theorem exists_of_attempts (r : CallRun host count) {steps : Nat} {ended : Bool} {after : Machine}
    (h : Run.attempts host.control.length steps (r.machine r.length) = .ok ended after) :
    ∃ r' : CallRun host count, r'.machine r'.length = after := by
  induction steps generalizing r with
  | zero =>
    cases h
    exact ⟨r, rfl⟩
  | succ steps ih =>
    change (if ((r.machine r.length).control.drop host.control.length).isEmpty then (Pure.pure true : Run Bool)
      else Run.attempt host.control.length >>= fun _ => Run.attempts host.control.length steps) _ = _ at h
    split at h
    · cases h
      exact ⟨r, rfl⟩
    · next hover =>
      rw [isEmpty_drop_iff, Nat.not_le] at hover
      cases hattempt : Run.attempt host.control.length (r.machine r.length) with
      | error e m =>
        rw [Run.bind_of_error hattempt] at h
        cases h
      | ok _ m =>
        rw [Run.bind_of_ok hattempt] at h
        refine ih (r.extend hover hattempt) ?_
        simpa [extend] using h

/-- Every call that a host makes is a run. -/
theorem exists_of_call {steps : Nat} {mustBeClass ended : Bool} {after : Machine}
    (h : Run.callPushed steps count mustBeClass host = .ok ended after) :
    ∃ r : CallRun host count, r.machine r.length = after := by
  have hends : Ends (Run.callPushed steps count mustBeClass) host
      (fun _ after => ∃ r : CallRun host count, r.machine r.length = after) fun _ => True := by
    refine .bind (.get (.ite (fun _ => .bind (.fail trivial)) fun _ => .bind (.modify ?_)))
    let r : CallRun host count :=
      ⟨0, fun _ => { host with control := .entering count false :: host.control }, rfl, nofun, nofun⟩
    exact .of_outcome (fun _ _ h => r.exists_of_attempts h) fun _ _ _ => trivial
  exact hends.of_ok h

end CallRun

/-- A host can call the callee below the top `count` operands: the machine is in its hands, and every
reference to a cell leads somewhere. -/
structure Machine.CanCall (host : Machine) (count : Nat) : Prop where
  standing : host.IsStanding
  whole : host.IsWhole
  callee : count < host.stack.size

namespace CallRun

variable {host : Machine} {count : Nat}

/-- All machines of the run are between two steps of the call. -/
theorem stays (r : CallRun host count) (h : host.IsStanding) (hcallee : count < host.stack.size) {t : Nat}
    (ht : t ≤ r.length) : Running host (host.stack.size - 1 - count) (r.machine t) := by
  induction t with
  | zero => exact r.start ▸ h.entering hcallee
  | succ t ih =>
    have hattempt := attempt_running h.idle (r.machine t) ⟨ih (Nat.le_of_succ_le ht), r.going t ht⟩
    rwa [r.step t ht] at hattempt

theorem running (r : CallRun host count) (h : host.CanCall count) {t : Nat} (ht : t ≤ r.length) :
    Running host (host.stack.size - 1 - count) (r.machine t) :=
  r.stays h.standing h.callee ht

theorem whole (r : CallRun host count) (h : host.CanCall count) {t : Nat} (ht : t ≤ r.length) :
    (r.machine t).IsWhole := by
  induction t with
  | zero =>
    obtain ⟨hheap, hstack, hglobals, hcontrol, hheld⟩ := h.whole
    rw [r.start]
    exact ⟨hheap, hstack, hglobals, List.forall_mem_cons.mpr ⟨trivial, hcontrol⟩, hheld⟩
  | succ t ih => exact ((ih (Nat.le_of_succ_le ht)).attempt (r.step t ht)).1

/-- Cells never get fewer. -/
theorem cells_mono (r : CallRun host count) (h : host.CanCall count) {s t : Nat} (hst : s ≤ t) (ht : t ≤ r.length) :
    (r.machine s).heap.cells.size ≤ (r.machine t).heap.cells.size := by
  induction t, hst using Nat.le_induction with
  | base => exact Nat.le_refl _
  | succ t hst ih =>
    exact (ih (Nat.le_of_succ_le ht)).trans ((r.whole h (Nat.le_of_succ_le ht)).attempt (r.step t ht)).2

-- ---------------------------------------------------------------------------
-- Activations
-- ---------------------------------------------------------------------------

/-- From one machine to another there is an activation at the depth, which is the same one all the time. -/
structure Active (r : CallRun host count) (depth s t : Nat) : Prop where
  inside : t ≤ r.length
  active : ∀ u, s ≤ u → u ≤ t → depth < (r.machine u).control.length

/-- What a slot of the frame at a depth holds. -/
def slot (r : CallRun host count) (depth i t : Nat) : Option Value :=
  ((r.machine t).frameAt depth).bind fun f => (r.machine t).stack[f.base + i]?

/-- In the step, the frame at the depth declares the variable with a value, or assigns a reference to it. -/
def Binds (r : CallRun host count) (t depth i : Nat) (v : Value) : Prop :=
  ∃ f rest op, (r.machine t).control = .script f :: rest ∧ rest.length = depth ∧
    f.routine.code.ops[f.ip]? = some op ∧ op.Binds i v ∧ (r.machine t).stack.back? = some v

variable {r : CallRun host count} {depth i s t : Nat} {f : Frame}

theorem Active.mono (h : r.Active depth s t) {s' t' : Nat} (hs : s ≤ s') (ht : t' ≤ t) : r.Active depth s' t' :=
  ⟨ht.trans h.inside, fun u hsu hut => h.active u (hs.trans hsu) (hut.trans ht)⟩

theorem slot_of_frameAt (hf : (r.machine t).frameAt depth = some f) (i : Nat) :
    r.slot depth i t = (r.machine t).stack[f.base + i]? := by
  rw [slot, hf]
  rfl

/-- What becomes of a slot in a step. -/
structure Turns (r : CallRun host count) (depth i t : Nat) : Prop where
  bound : ∀ v, r.Binds t depth i v → r.slot depth i (t + 1) = some v
  free : (∀ v, ¬r.Binds t depth i v) → Steady (r.slot depth i t) (r.slot depth i (t + 1)) ∨
    Bare (r.slot depth i t) ∧ ∃ c : CellId, r.slot depth i (t + 1) = some (.cell c) ∧
      (r.machine t).heap.cells.size ≤ c.index ∧ (r.machine t).control.length = depth + 1

/-- A step of an activation that stays active. -/
theorem turns (h : host.CanCall count) (hactive : r.Active depth t (t + 1)) (hdepth : host.control.length ≤ depth)
    (hf : (r.machine t).frameAt depth = some f) :
    ∃ f', (r.machine (t + 1)).frameAt depth = some f' ∧ f.Continues f' ∧
      ∀ i < f.routine.frameSize, r.Turns depth i t := by
  have hrunning := r.running h (Nat.le_of_succ_le hactive.inside)
  have hgoing := r.going t hactive.inside
  have hstep := r.step t hactive.inside
  have hafter := hactive.active (t + 1) (Nat.le_succ t) (Nat.le_refl _)
  by_cases hinner : depth + 1 < (r.machine t).control.length
  · -- The frame waits for a call.
    obtain hover | ⟨f', hf', hcontinues, hstack⟩ :=
      hrunning.attempt_idles h.standing.idle hgoing hstep hdepth hf hinner
    · omega
    refine ⟨f', hf', hcontinues, fun i hi => ⟨?_, fun _ => .inl (.inl ?_)⟩⟩
    · rintro v ⟨g, rest, op, hcontrol, hrest, -⟩
      rw [hcontrol, List.length_cons] at hinner
      omega
    · rw [slot_of_frameAt hf', slot_of_frameAt hf, hcontinues.base, hstack _ (by omega)]
  · -- The frame executes an instruction.
    have hlength : (r.machine t).control.length = depth + 1 := by
      have := Machine.lt_of_frameAt hf
      omega
    obtain ⟨a, rest, hcontrol⟩ := List.exists_cons_of_length_pos (l := (r.machine t).control) (by omega)
    obtain rfl : rest.length = depth := by
      rw [hcontrol, List.length_cons] at hlength
      omega
    obtain ⟨-, rfl⟩ | ⟨hlt, -⟩ := Machine.frameAt_cons hcontrol hf
    · obtain ⟨op, hop, hover | ⟨f', hf', hcontinues, hslots⟩⟩ := hrunning.attempt_steps hgoing hcontrol hstep
      · omega
      refine ⟨f', hf', hcontinues, fun i hi => ⟨?_, fun hfree => ?_⟩⟩
      · rintro v ⟨g, acts, op', hcontrol', -, hop', hbinds, hback⟩
        cases hcontrol.symm.trans hcontrol'
        obtain rfl : op = op' := Option.some.inj (hop.symm.trans hop')
        rw [slot_of_frameAt hf', hcontinues.base]
        exact (hslots i hi).bound v hbinds hback
      · have := (hslots i hi).free fun v hbinds hback => hfree v ⟨f, rest, op, hcontrol, rfl, hop, hbinds, hback⟩
        rw [slot_of_frameAt hf', slot_of_frameAt hf, hcontinues.base]
        exact this.imp_right fun ⟨hbare, c, hc, hfresh⟩ => ⟨hbare, c, hc, hfresh, hlength⟩
    · omega

/-- The frame of an activation that stays active. -/
theorem Active.frame (h : host.CanCall count) (hactive : r.Active depth s t) (hst : s ≤ t)
    (hdepth : host.control.length ≤ depth) (hf : (r.machine s).frameAt depth = some f) :
    ∃ f', (r.machine t).frameAt depth = some f' ∧ f.Continues f' := by
  induction t, hst using Nat.le_induction with
  | base => exact ⟨f, hf, .refl f⟩
  | succ t hst ih =>
    obtain ⟨f', hf', hcontinues⟩ := ih (hactive.mono (Nat.le_refl _) (Nat.le_succ _))
    obtain ⟨f'', hf'', hcontinues', -⟩ := turns h (hactive.mono hst (Nat.le_refl _)) hdepth hf'
    exact ⟨f'', hf'', hcontinues.trans hcontinues'⟩

theorem Active.turns (h : host.CanCall count) (hactive : r.Active depth s t) (hdepth : host.control.length ≤ depth)
    (hf : (r.machine s).frameAt depth = some f) (hi : i < f.routine.frameSize) {u : Nat} (hsu : s ≤ u) (hut : u < t) :
    r.Turns depth i u := by
  obtain ⟨f', hf', hcontinues⟩ := (hactive.mono (Nat.le_refl _) (Nat.le_of_lt hut)).frame h hsu hdepth hf
  obtain ⟨-, -, -, hturns⟩ := CallRun.turns h (hactive.mono hsu hut) hdepth hf'
  exact hturns i (hcontinues.routine ▸ hi)

-- ---------------------------------------------------------------------------
-- Slots of an activation
-- ---------------------------------------------------------------------------

/-- A cell stays in a slot as long as the variable is not bound anew. -/
theorem Active.keeps (h : host.CanCall count) (hactive : r.Active depth s t) (hst : s ≤ t)
    (hdepth : host.control.length ≤ depth) (hf : (r.machine s).frameAt depth = some f)
    (hi : i < f.routine.frameSize) {c : CellId} (hc : r.slot depth i s = some (.cell c))
    (hfree : ∀ u, s ≤ u → u < t → ∀ v, ¬r.Binds u depth i v) : r.slot depth i t = some (.cell c) := by
  induction t, hst using Nat.le_induction with
  | base => exact hc
  | succ t hst ih =>
    have hbefore := ih (hactive.mono (Nat.le_refl _) (Nat.le_succ t)) fun u hsu hut =>
      hfree u hsu (Nat.lt_succ_of_lt hut)
    have hturns := hactive.turns h hdepth hf hi hst (Nat.lt_succ_self t)
    rcases hturns.free (hfree t hst (Nat.lt_succ_self t)) with (hkept | ⟨hbare, -⟩) | ⟨hbare, -⟩
    · rw [hkept, hbefore]
    · exact absurd hbefore (hbare c)
    · exact absurd hbefore (hbare c)

/-- A cell in a slot is on the heap. -/
theorem lt_of_slot (r : CallRun host count) (h : host.CanCall count) (ht : t ≤ r.length) {c : CellId}
    (hc : r.slot depth i t = some (.cell c)) : c.index < (r.machine t).heap.cells.size := by
  obtain ⟨f, -, hf⟩ := Option.bind_eq_some_iff.mp hc
  exact (r.whole h ht).stack _ (Array.mem_of_getElem? hf)

/-- A cell that has come into a bare slot, though none was bound to the variable, was made for it. -/
theorem Active.made (h : host.CanCall count) (hactive : r.Active depth s t) (hst : s ≤ t)
    (hdepth : host.control.length ≤ depth) (hf : (r.machine s).frameAt depth = some f)
    (hi : i < f.routine.frameSize) (hbare : Bare (r.slot depth i s)) {c : CellId}
    (hc : r.slot depth i t = some (.cell c))
    (hplain : ∀ u, s ≤ u → u < t → ∀ v, r.Binds u depth i v → v.isCell = false) :
    ∃ u, s ≤ u ∧ u < t ∧ (r.machine u).control.length = depth + 1 ∧ (r.machine u).heap.cells.size ≤ c.index ∧
      c.index < (r.machine (u + 1)).heap.cells.size := by
  induction t, hst using Nat.le_induction with
  | base => exact absurd hc (hbare c)
  | succ t hst ih =>
    have hrest (hc : r.slot depth i t = some (.cell c)) := ih (hactive.mono (Nat.le_refl _) (Nat.le_succ t)) hc
      fun u hsu hut => hplain u hsu (Nat.lt_succ_of_lt hut)
    have hturns := hactive.turns h hdepth hf hi hst (Nat.lt_succ_self t)
    by_cases hbinds : ∃ v, r.Binds t depth i v
    · obtain ⟨v, hv⟩ := hbinds
      have := hplain t hst (Nat.lt_succ_self t) v hv
      obtain rfl : v = .cell c := Option.some.inj ((hturns.bound v hv).symm.trans hc)
      cases this
    · rcases hturns.free fun v hv => hbinds ⟨v, hv⟩ with (hkept | ⟨-, hafter⟩) | ⟨-, c', hc', hfresh, hlength⟩
      · obtain ⟨u, hsu, hut, hu⟩ := hrest (hkept ▸ hc)
        exact ⟨u, hsu, Nat.lt_succ_of_lt hut, hu⟩
      · exact absurd hc (hafter c)
      · obtain rfl : c' = c := by simpa using hc'.symm.trans hc
        exact ⟨t, hst, Nat.lt_succ_self t, hlength, hfresh, r.lt_of_slot h hactive.inside hc⟩

end CallRun

end Rill
