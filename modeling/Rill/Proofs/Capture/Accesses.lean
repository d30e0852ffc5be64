-- SUMMARY: Instructions on a variable that is in a cell read and change that cell.
import Rill.Proofs.Capture.Slots

/-!
# Variables in cells

A variable whose slot holds a cell, and one that has been captured, are read and assigned in the cell. For
such a variable every instruction that names it does what the cell says, and the slot is as it was.
-/

namespace Rill

-- ---------------------------------------------------------------------------
-- Instructions on a cell
-- ---------------------------------------------------------------------------

/-- The variable that an instruction reads or assigns. -/
def Instruction.variable? : Instruction → Option Slot
  | .read slot _ | .write slot | .declare slot => some slot
  | .count i _ => some (.frame i)
  | _ => none

namespace Run

/-- A cell, for the use that is made of the variable in it. -/
def readCell (cell : CellId) (use : Use) : Run Value := do
  match ← settle use with
  | .reference => return .cell cell
  | .unique =>
    let own ← unshare ((← heap).cellValue cell)
    setCell cell own
    return own
  | _ => return (← heap).cellValue cell

/-- Declares a function in the variable in a cell. -/
def declareCell (cell : CellId) (v : Value) : Run Unit := do
  match v with
  | .object id => setCell cell (.object (← merge (.cell cell) id))
  | v => setCell cell v

/-- Performs an instruction on the variable in a cell. -/
def performOn (cell : CellId) (op : Instruction) : Run Unit := do
  match op with
  | .read _ use => push (← readCell cell use)
  | .write _ => setCell cell (← pop)
  | .declare _ => declareCell cell (← pop)
  | .count _ up => setCell cell (← (← heap).stepCounter (.cell cell) up)
  | _ => return

end Run

-- ---------------------------------------------------------------------------
-- Captured variables
-- ---------------------------------------------------------------------------

section Captured

variable {f : Frame} {k : Nat} {cell : CellId}

theorem readSlot_captured (h : f.closure.captured[k]? = some cell) (use : Use) :
    Run.readSlot f (.captured k) use = Run.readCell cell use := by
  have hcell : Run.capturedCell f k = Pure.pure cell := by rw [Run.capturedCell, h]
  unfold Run.readSlot Run.readCell
  congr
  funext outcome
  cases outcome <;> simp [hcell, Run.unshareSlot]

theorem writeSlot_captured (h : f.closure.captured[k]? = some cell) (v : Value) :
    Run.writeSlot f (.captured k) v = Run.setCell cell v := by
  simp [Run.writeSlot, Run.capturedCell, h]

theorem declare_captured (h : f.closure.captured[k]? = some cell) (v : Value) :
    Run.declare f (.captured k) v = Run.declareCell cell v := by
  cases v <;> simp [Run.declare, Run.declaredBefore, Run.declareCell, Run.capturedCell, writeSlot_captured h, h]

/-- A frame works on the cells that its closure has captured. -/
theorem perform_captured (h : f.closure.captured[k]? = some cell) {op : Instruction}
    (hop : op.variable? = some (.captured k)) : Run.performPlain f op = Run.performOn cell op := by
  cases op with
  | read slot use =>
    cases hop
    simp only [Run.performPlain, Run.performOn, readSlot_captured h]
  | write slot =>
    cases hop
    simp only [Run.performPlain, Run.performOn, writeSlot_captured h]
  | declare slot =>
    cases hop
    simp only [Run.performPlain, Run.performOn, declare_captured h]
  | _ => cases hop

end Captured

-- ---------------------------------------------------------------------------
-- Variables in slots
-- ---------------------------------------------------------------------------

section Slots

variable {f : Frame} {i : Nat} {cell : CellId} {m : Machine}

theorem local?_run {v : Value} (h : m.stack[f.base + i]? = some v) : Run.local? f i m = .ok v m := by
  rw [Run.local?, Run.bind_get, h]
  rfl

/-- A slot is set to what it holds. -/
theorem setLocal_self {v : Value} (h : m.stack[f.base + i]? = some v) : Run.setLocal f i v m = .ok ⟨⟩ m := by
  obtain ⟨hi, hv⟩ := Array.getElem?_eq_some_iff.mp h
  have hstack : m.stack.setIfInBounds (f.base + i) v = m.stack := by
    ext k hk hk'
    · simp
    · rw [Array.getElem_setIfInBounds hk']
      split
      · next heq => simp only [← heq, hv]
      · rfl
  change EStateM.Result.ok _ { m with stack := m.stack.setIfInBounds (f.base + i) v } = _
  rw [hstack]

theorem readCell_argument (position : Nat) :
    Run.readCell cell (.argument position) m =
      Run.readCell cell (if m.precall.head?.any (·.isRef position) then .reference else .value) m :=
  Run.bind_congr (settle_argument position m)

theorem localCell_cell (h : m.stack[f.base + i]? = some (.cell cell)) : Run.localCell f i m = .ok cell m := by
  change (Run.local? f i >>= fun v => Run.cellFor v >>= fun c =>
    Run.setLocal f i (.cell c) >>= fun _ => Pure.pure c) m = _
  rw [Run.bind_of_ok (local?_run h), Run.bind_of_ok (show Run.cellFor (.cell cell) m = .ok cell m from rfl),
    Run.bind_of_ok (setLocal_self h)]
  rfl

/-- The container in the cell is made ready to be changed; the slot still holds the cell. -/
theorem readSlot_unique (hm : m.heap.IsSound) (h : m.stack[f.base + i]? = some (.cell cell)) :
    Run.readSlot f (.frame i) .unique m = Run.readCell cell .unique m := by
  change (Run.local? f i >>= fun old => Run.unshareSlot old [] >>= fun r =>
    Run.setLocal f i r.1 >>= fun _ => Pure.pure r.2) m = _
  rw [Run.bind_of_ok (local?_run h)]
  change ((Run.heap >>= fun h => Run.unshare (h.cellValue cell) [] >>= fun own => Run.setCell cell own >>= fun _ =>
    Pure.pure (Value.cell cell, own)) >>= fun r => Run.setLocal f i r.1 >>= fun _ => Pure.pure r.2) m =
    (Run.unshare (m.heap.cellValue cell) >>= fun own => Run.setCell cell own >>= fun _ => Pure.pure own) m
  simp only [bind_assoc, pure_bind]
  change (Run.unshare (m.heap.cellValue cell) [] >>= fun own => Run.setCell cell own >>= fun _ =>
    Run.setLocal f i (.cell cell) >>= fun _ => Pure.pure own) m = _
  have hspares := (Tame.unshare (m.heap.cellValue cell) []) m hm
  cases hown : Run.unshare (m.heap.cellValue cell) [] m with
  | error e m' => rw [Run.bind_of_error hown, Run.bind_of_error hown]
  | ok own m' =>
    rw [hown] at hspares
    rw [Run.bind_of_ok hown, Run.bind_of_ok hown]
    have hset : Run.setCell cell own m' = .ok ⟨⟩ { m' with heap := m'.heap.setCell cell own } := rfl
    have hslot : m'.stack[f.base + i]? = some (.cell cell) := hspares.stack ▸ h
    have hself := setLocal_self (m := { m' with heap := m'.heap.setCell cell own }) hslot
    rw [Run.bind_of_ok hset, Run.bind_of_ok hset, Run.bind_of_ok hself]

theorem readSlot_cell (hm : m.heap.IsSound) (h : m.stack[f.base + i]? = some (.cell cell)) (use : Use) :
    Run.readSlot f (.frame i) use m = Run.readCell cell use m := by
  have hvalue : Run.readSlot f (.frame i) .value m = Run.readCell cell .value m := Run.bind_of_ok (local?_run h)
  have hreference : Run.readSlot f (.frame i) .reference m = Run.readCell cell .reference m :=
    Run.bind_of_ok (localCell_cell h)
  cases use with
  | value => exact hvalue
  | reference => exact hreference
  | unique => exact readSlot_unique hm h
  | argument position =>
    rw [readSlot_argument, readCell_argument]
    split
    · exact hreference
    · exact hvalue

theorem writeSlot_cell (h : m.stack[f.base + i]? = some (.cell cell)) {v : Value} (hv : v.isCell = false) :
    Run.writeSlot f (.frame i) v m = Run.setCell cell v m := by
  have hassign : Run.assign (.cell cell) v m = .ok (.cell cell) { m with heap := m.heap.setCell cell v } := by
    simp only [Run.assign, hv]
    rfl
  have hset : Run.setLocal f i (.cell cell) { m with heap := m.heap.setCell cell v } = .ok ⟨⟩ _ := setLocal_self h
  change (Run.local? f i >>= fun old => Run.assign old v >>= fun held => Run.setLocal f i held) m = _
  rw [Run.bind_of_ok (local?_run h), Run.bind_of_ok hassign, hset]
  rfl

theorem declare_cell (hm : m.heap.IsSound) (h : m.stack[f.base + i]? = some (.cell cell)) {v : Value}
    (hv : v.isCell = false) : Run.declare f (.frame i) v m = Run.declareCell cell v m := by
  have hbefore : Run.declaredBefore f (.frame i) m = .ok (.cell cell) m := local?_run h
  unfold Run.declare
  rw [Run.bind_of_ok hbefore]
  cases v with
  | object id =>
    change (Run.merge (.cell cell) id >>= fun merged => Run.writeSlot f (.frame i) (.object merged)) m =
      (Run.merge (.cell cell) id >>= fun merged => Run.setCell cell (.object merged)) m
    have hspares := (Tame.merge (.cell cell) id) m hm
    cases hmerge : Run.merge (.cell cell) id m with
    | error e m' => rw [Run.bind_of_error hmerge, Run.bind_of_error hmerge]
    | ok merged m' =>
      rw [hmerge] at hspares
      have hslot : m'.stack[f.base + i]? = some (.cell cell) := hspares.stack ▸ h
      rw [Run.bind_of_ok hmerge, Run.bind_of_ok hmerge, writeSlot_cell hslot rfl]
  | _ => exact writeSlot_cell h hv

theorem count_cell (h : m.stack[f.base + i]? = some (.cell cell)) (up : Bool) :
    Run.performPlain f (.count i up) m = Run.performOn cell (.count i up) m := by
  change (Run.local? f i >>= fun old => Run.heap >>= fun heap => (heap.stepCounter old up : Run Value) >>= fun v =>
    Run.assign old v >>= fun held => Run.setLocal f i held) m =
    (Run.heap >>= fun heap => (heap.stepCounter (.cell cell) up : Run Value) >>= fun v => Run.setCell cell v) m
  rw [Run.bind_of_ok (local?_run h)]
  change ((m.heap.stepCounter (.cell cell) up : Run Value) >>= fun v =>
    Run.assign (.cell cell) v >>= fun held => Run.setLocal f i held) m =
    ((m.heap.stepCounter (.cell cell) up : Run Value) >>= fun v => Run.setCell cell v) m
  cases hv : m.heap.stepCounter (.cell cell) up with
  | error e => rfl
  | ok v =>
    have hplain := m.heap.stepCounter_plain (.cell cell) up v hv
    have hwrite := writeSlot_cell h hplain
    change (Run.local? f i >>= fun old => Run.assign old v >>= fun held => Run.setLocal f i held) m = _ at hwrite
    rw [Run.bind_of_ok (local?_run h)] at hwrite
    exact hwrite

/-- An operand is taken for a variable; the slot is not part of it. -/
theorem pop_cell (h : m.stack[f.base + i]? = some (.cell cell)) (hroom : f.base + i + 1 < m.stack.size) :
    ∃ v, m.stack.back? = some v ∧ Run.pop m = .ok v { m with stack := m.stack.pop } ∧
      m.stack.pop[f.base + i]? = some (.cell cell) := by
  cases hback : m.stack.back? with
  | none =>
    rw [Array.back?_eq_none_iff] at hback
    simp [hback] at hroom
  | some v =>
    refine ⟨v, rfl, ?_, ?_⟩
    · rw [Run.pop, Run.bind_get, hback]
      rfl
    · rw [Array.getElem?_pop, if_pos (by omega), h]

/-- A frame works on the cell that a slot of it holds, unless it binds the variable anew. -/
theorem perform_cell (hm : m.heap.IsSound) (h : m.stack[f.base + i]? = some (.cell cell)) {op : Instruction}
    (hop : op.variable? = some (.frame i)) (hroom : f.base + i + op.pops < m.stack.size)
    (hfree : ∀ v, op.Binds i v → m.stack.back? ≠ some v) : Run.performPlain f op m = Run.performOn cell op m := by
  cases op with
  | read slot use =>
    cases hop
    exact Run.bind_congr (f := Run.push) (readSlot_cell hm h use)
  | write slot =>
    cases hop
    obtain ⟨v, hback, hpop, hslot⟩ := pop_cell h hroom
    have hv : v.isCell = false := by
      by_contra hv
      exact hfree v (.inr ⟨by simpa using hv, .inl rfl⟩) hback
    change (Run.pop >>= fun v => Run.writeSlot f (.frame i) v) m = (Run.pop >>= fun v => Run.setCell cell v) m
    rw [Run.bind_of_ok hpop, Run.bind_of_ok hpop]
    exact writeSlot_cell hslot hv
  | declare slot =>
    cases hop
    obtain ⟨v, hback, hpop, hslot⟩ := pop_cell h hroom
    have hv : v.isCell = false := by
      by_contra hv
      exact hfree v (.inr ⟨by simpa using hv, .inr rfl⟩) hback
    change (Run.pop >>= fun v => Run.declare f (.frame i) v) m = (Run.pop >>= fun v => Run.declareCell cell v) m
    rw [Run.bind_of_ok hpop, Run.bind_of_ok hpop]
    exact declare_cell (m := { m with stack := m.stack.pop }) hm hslot hv
  | count j up =>
    cases hop
    exact count_cell h up
  | _ => cases hop

end Slots

end Rill
