-- SUMMARY: What an instruction puts into the slots of its frame.
import Rill.Proofs.Capture.Steadiness

/-!
# Slots of the innermost frame

An instruction leaves the slots of its frame steady, but for two kinds of instructions: some make a bare slot
a cell, which is a new one, and some bind the variable anew. Between two steps of a running machine the
innermost frame sets its slots so, or it is over.
-/

namespace Rill

-- ---------------------------------------------------------------------------
-- Slots that become cells
-- ---------------------------------------------------------------------------

/-- Some bare slots have become cells, which are new ones. -/
structure Machine.Promotes (m m' : Machine) : Prop where
  control : m'.control = m.control
  size : m'.stack.size = m.stack.size
  cells : m.heap.cells.size ≤ m'.heap.cells.size
  slots : ∀ k : Nat, m'.stack[k]? = m.stack[k]? ∨
    Bare m.stack[k]? ∧ ∃ c : CellId, m'.stack[k]? = some (.cell c) ∧ m.heap.cells.size ≤ c.index

namespace Machine.Promotes

theorem refl (m : Machine) : m.Promotes m := ⟨rfl, rfl, Nat.le_refl _, fun _ => .inl rfl⟩

theorem trans {m m' m'' : Machine} (h : m.Promotes m') (h' : m'.Promotes m'') : m.Promotes m'' where
  control := h'.control.trans h.control
  size := h'.size.trans h.size
  cells := h.cells.trans h'.cells
  slots k := by
    rcases h'.slots k with hkept | ⟨hbare, c, hc, hfresh⟩
    · rw [hkept]
      exact h.slots k
    · rcases h.slots k with hkept | ⟨-, c', hc', -⟩
      · exact .inr ⟨hkept ▸ hbare, c, hc, h.cells.trans hfresh⟩
      · exact absurd hc' (hbare c')

/-- A slot with a cell keeps it. -/
theorem cell {m m' : Machine} (h : m.Promotes m') {k : Nat} {c : CellId} (hc : m.stack[k]? = some (.cell c)) :
    m'.stack[k]? = some (.cell c) := by
  rcases h.slots k with hkept | ⟨hbare, -⟩
  · rw [hkept, hc]
  · exact absurd hc (hbare c)

end Machine.Promotes

section Promoting

variable {f : Frame} {m : Machine}

/-- A variable is referred to: its slot holds the cell then. -/
theorem localCell_ends (i : Nat) :
    Ends (Run.localCell f i) m (fun c m' => m.Promotes m' ∧ m'.stack[f.base + i]? = some (.cell c))
      (·.control = m.control) := by
  refine .bind (.local? rfl fun v hv => ?_)
  obtain ⟨hi, hv⟩ := Array.getElem?_eq_some_iff.mp hv
  have hkept (m' : Machine) (c : CellId) (k : Nat) :
      (m'.stack.setIfInBounds (f.base + i) (.cell c))[k]? = m'.stack[k]? ∨ k = f.base + i := by
    by_cases hk : k = f.base + i
    · exact .inr hk
    · exact .inl (Array.getElem?_setIfInBounds_ne (by omega))
  have hgrown (v : Value) : m.heap.cells.size ≤ (m.heap.allocateCell v).2.cells.size := by simp [Heap.allocateCell]
  cases v with
  | cell c =>
    refine .bind (.pure (.bind (.modify (.pure ⟨⟨rfl, by simp, Nat.le_refl _, fun k => .inl ?_⟩, by simp [hi]⟩))))
    rcases hkept m c k with h | rfl
    · exact h
    · rw [Array.getElem?_setIfInBounds_self_of_lt hi, Array.getElem?_eq_getElem hi, hv]
  | _ =>
    refine .bind (.bind (.get (.bind (.modify (.pure ?_)))))
    refine .bind (.modify (.pure ⟨⟨rfl, by simp, hgrown _, fun k => ?_⟩, by simp [hi]⟩))
    rcases hkept m ⟨m.heap.cells.size⟩ k with h | rfl
    · exact .inl h
    · refine .inr ⟨?_, ⟨m.heap.cells.size⟩, Array.getElem?_setIfInBounds_self_of_lt hi, Nat.le_refl _⟩
      rw [Array.getElem?_eq_getElem hi, hv]
      exact bare_of_isCell rfl

theorem capture_ends (c : Capture) :
    Ends (Run.capture f c) m
      (fun cell m' => m.Promotes m' ∧ (c.fromFrame = true → m'.stack[f.base + c.index]? = some (.cell cell)))
      (·.control = m.control) := by
  unfold Run.capture
  split
  · exact (localCell_ends c.index).after fun cell m' h => ⟨h.1, fun _ => h.2⟩
  · next hframe => exact .capturedCell rfl fun cell => ⟨.refl m, fun h => absurd h hframe⟩

/-- Variables are captured one after another. -/
theorem captures_ends (cs : List Capture) (m : Machine) :
    Ends (cs.mapM (Run.capture f)) m
      (fun cells m' => m.Promotes m' ∧ ∀ (k i : Nat), cs[k]? = some ⟨i, true⟩ →
        ∃ c, cells[k]? = some c ∧ m'.stack[f.base + i]? = some (.cell c))
      (·.control = m.control) := by
  induction cs generalizing m with
  | nil => exact .pure ⟨.refl m, by simp⟩
  | cons c rest ih =>
    rw [List.mapM_cons]
    refine .bind (.of_outcome (fun cell m₁ h => ?_) fun e m₁ h => (capture_ends c).of_error h)
    obtain ⟨hpromotes, hcell⟩ := (capture_ends c).of_ok h
    refine .bind (.of_outcome (fun cells m₂ h' => .pure ?_) fun e m₂ h' =>
      ((ih m₁).of_error h').trans hpromotes.control)
    obtain ⟨hrest, hcells⟩ := (ih m₁).of_ok h'
    refine ⟨hpromotes.trans hrest, fun k i hk => ?_⟩
    cases k with
    | zero =>
      obtain rfl : c = ⟨i, true⟩ := by simpa using hk
      exact ⟨cell, rfl, hrest.cell (hcell rfl)⟩
    | succ k => exact hcells k i (by simpa using hk)

/-- The closure is one of a routine, and has captured slots of the frame in the cells that they hold. -/
structure Closure.Holds (made : Closure) (f : Frame) (routine : Routine) (m : Machine) : Prop where
  callable : ∃ key, made.callable = .script routine key
  captured : ∀ (k i : Nat), routine.captures[k]? = some ⟨i, true⟩ →
    ∃ c, made.captured[k]? = some c ∧ m.stack[f.base + i]? = some (.cell c)

theorem newClosure_ends (child : Nat) (classes : Array Value) :
    Ends (Run.newClosure f child classes) m
      (fun v m' => m.Promotes m' ∧ ∃ routine made id, f.routine.children[child]? = some routine ∧ v = .object id ∧
        m'.heap.content? id = some (.function (.ofClosure routine.name made)) ∧ made.Holds f routine m')
      (·.control = m.control) := by
  unfold Run.newClosure
  split
  · exact .fail rfl
  next routine hroutine =>
  refine .bind (.heap (.bind (.lift (fun signature _ => ?_) rfl)))
  have hseal (key : RoutineKey) : Ends (Run.sealSignature key routine.name signature) m
      (fun _ m' => m.Promotes m' ∧ m'.stack = m.stack) (·.control = m.control) := by
    refine .bind (.get ?_)
    split
    · split
      · exact .fail rfl
      · exact .pure ⟨.refl m, rfl⟩
    · exact .modify ⟨⟨rfl, rfl, Nat.le_refl _, fun _ => .inl rfl⟩, rfl⟩
  refine .bind (.of_outcome (fun _ m₁ h₁ => ?_) fun e m₁ h₁ => (hseal _).of_error h₁)
  obtain ⟨hsealed, -⟩ := (hseal _).of_ok h₁
  rw [Array.mapM_eq_mapM_toList, bind_map_left]
  have hcaptures := captures_ends (f := f) routine.captures.toList m₁
  refine .bind (.of_outcome (fun cells m₂ h₂ => ?_) fun e m₂ h₂ => (hcaptures.of_error h₂).trans hsealed.control)
  obtain ⟨hpromotes, hcells⟩ := hcaptures.of_ok h₂
  let made : Closure := ⟨.script routine ⟨f.key.chunk, child :: f.key.path⟩, signature, cells.toArray, m₂.closures + 1⟩
  let after : Machine := { m₂ with
    closures := m₂.closures + 1
    heap := (m₂.heap.allocate .function (.function (.ofClosure routine.name made))).2 }
  have hafter : ∀ registrations, m.Promotes { after with registrations := registrations } := fun _ =>
    hsealed.trans (hpromotes.trans ⟨rfl, rfl, Nat.le_refl _, fun _ => .inl rfl⟩)
  refine show m.Promotes { after with registrations := _ } ∧ _ from
    ⟨hafter _, routine, made, ⟨m₂.heap.objects.size⟩, hroutine, rfl, ?_, ⟨_, rfl⟩, fun k i hk => ?_⟩
  · exact (Heap.content?_allocate _ _ _ _).trans (if_pos rfl)
  · obtain ⟨c, hc, hslot⟩ := hcells k i (by simpa using hk)
    exact ⟨c, by simpa [made] using hc, hslot⟩

/-- On top of the stack is a function that the frame has just made of a nested routine. -/
def Frame.Makes (f : Frame) (child : Nat) (m : Machine) : Prop :=
  ∃ routine made id, f.routine.children[child]? = some routine ∧ m.stack.back? = some (.object id) ∧
    m.heap.content? id = some (.function (.ofClosure routine.name made)) ∧ made.Holds f routine m

theorem closure_makes (child params : Nat) :
    Ends (Run.perform f (.closure child params)) m (fun flow m' => flow = .next ∧ f.Makes child m') fun _ => True := by
  refine .bind (.bind (.popMany trivial fun classes _ => .bind ?_))
  have hnew := newClosure_ends (f := f) (m := { m with stack := m.stack.shrink (m.stack.size - params) }) child classes
  refine .of_outcome (fun v m' h => ?_) fun e m' h => trivial
  obtain ⟨-, routine, made, id, hroutine, rfl, hcontent, hholds⟩ := hnew.of_ok h
  refine .push trivial (.pure ⟨rfl, routine, made, id, hroutine, by simp, hcontent, hholds.callable, fun k i hk => ?_⟩)
  obtain ⟨c, hc, hslot⟩ := hholds.captured k i hk
  obtain ⟨hi, -⟩ := Array.getElem?_eq_some_iff.mp hslot
  exact ⟨c, hc, by rw [Array.getElem?_push_lt hi, ← hslot, Array.getElem?_eq_getElem hi]⟩

end Promoting

-- ---------------------------------------------------------------------------
-- Instructions
-- ---------------------------------------------------------------------------

/-- The instruction puts the operand into the slot: it declares the variable, or assigns a reference to it. -/
def Instruction.Binds (op : Instruction) (i : Nat) (v : Value) : Prop :=
  op = .define i ∨ v.isCell = true ∧ (op = .write (.frame i) ∨ op = .declare (.frame i))

theorem Instruction.Binds.unique {op : Instruction} {i j : Nat} {v w : Value} (h : op.Binds i v)
    (h' : op.Binds j w) : i = j := by
  rcases h with rfl | ⟨-, rfl | rfl⟩ <;> rcases h' with h' | ⟨-, h' | h'⟩ <;> cases h' <;> rfl

/-- The instruction can bind a variable anew. -/
def Instruction.isBinder : Instruction → Bool
  | .define _ | .write _ | .declare _ => true
  | _ => false

theorem Instruction.not_binds {op : Instruction} (h : op.isBinder = false) (i : Nat) (v : Value) :
    ¬op.Binds i v := by
  rintro (rfl | ⟨-, rfl | rfl⟩) <;> cases h

/-- The instruction binds a variable to what is on top of the stack, or it leaves the slot steady or makes it
a cell, which is a new one. -/
structure Frame.Sets (f : Frame) (op : Instruction) (m : Machine) (i : Nat) (new : Option Value) : Prop where
  bound : ∀ v, op.Binds i v → m.stack.back? = some v → new = some v
  free : (∀ v, op.Binds i v → m.stack.back? ≠ some v) → Steady m.stack[f.base + i]? new ∨
    Bare m.stack[f.base + i]? ∧ ∃ c : CellId, new = some (.cell c) ∧ m.heap.cells.size ≤ c.index

theorem Frame.Sets.of_free {f : Frame} {op : Instruction} {m : Machine} {i : Nat} {new : Option Value}
    (hfree : ∀ v, op.Binds i v → m.stack.back? ≠ some v)
    (h : Steady m.stack[f.base + i]? new ∨
      Bare m.stack[f.base + i]? ∧ ∃ c : CellId, new = some (.cell c) ∧ m.heap.cells.size ≤ c.index) :
    f.Sets op m i new :=
  ⟨fun v hv hback => absurd hback (hfree v hv), fun _ => h⟩

/-- The frame has set its slots. -/
structure Frame.Turns (f : Frame) (op : Instruction) (m m' : Machine) : Prop where
  control : m'.control = m.control
  slots : ∀ i < f.routine.frameSize, f.Sets op m i m'.stack[f.base + i]?

theorem Shape.Admits.all_pops_le {s : Shape} {op : Instruction} (h : s.Admits op)
    (hpending : ∀ height ∈ s.pending, 0 < height) : op.pops ≤ s.operands := by
  cases op with
  | call count keepRef =>
    obtain ⟨hle, hhead⟩ := h
    have := hpending _ (List.mem_of_mem_head? hhead)
    simp only [Instruction.pops]
    omega
  | result => exact Nat.le_of_eq h.1.symm
  | jump test target =>
    cases test with
    | ifFalseKeep | ifTrueKeep => exact Nat.le_of_add_left_le h
    | _ => exact Nat.le_of_add_left_le h.1
  | _ => exact h.pops_le rfl

section Performing

variable {f : Frame} {m : Machine}

theorem Works.turns {x : Run α} {n k : Nat} {op : Instruction} (h : Works f n k x) (hm : m.heap.IsSound)
    (hroom : f.base + f.routine.frameSize + n ≤ m.stack.size) (hop : op.isBinder = false) :
    Ends x m (fun _ => f.Turns op m) (·.control = m.control) :=
  (h m hm hroom).after fun _ _ hm' =>
    ⟨hm'.control, fun i hi => .of_free (fun v hv => absurd hv (op.not_binds hop i v)) (.inl (hm'.slots i hi))⟩

/-- The operand has been taken. -/
theorem Works.turns_popped {x : Run α} {n k : Nat} {op : Instruction} (h : Works f n k x) (hm : m.heap.IsSound)
    (hroom : f.base + f.routine.frameSize + (n + 1) ≤ m.stack.size)
    (hfree : ∀ i v, op.Binds i v → m.stack.back? ≠ some v) :
    Ends x { m with stack := m.stack.pop } (fun _ => f.Turns op m) (·.control = m.control) := by
  refine (h { m with stack := m.stack.pop } hm (by simp; omega)).after fun _ _ hm' =>
    ⟨hm'.control, fun i hi => .of_free (hfree i) (.inl ?_)⟩
  have hkept : m.stack.pop[f.base + i]? = m.stack[f.base + i]? := by
    rw [Array.getElem?_pop, if_pos (by omega)]
  exact hkept ▸ hm'.slots i hi

/-- The variable that the instruction binds is the only one that changes. -/
theorem turns_binds {op : Instruction} {i : Nat} {v : Value} (hbinds : op.Binds i v)
    (hback : m.stack.back? = some v) (hi : i < f.routine.frameSize)
    (hroom : f.base + f.routine.frameSize + 1 ≤ m.stack.size) :
    f.Turns op m { m with stack := m.stack.pop.setIfInBounds (f.base + i) v } := by
  refine ⟨rfl, fun j hj => ?_⟩
  rw [getElem?_setSlot (by simp; omega)]
  split
  · next hji =>
    subst hji
    exact ⟨fun w _ hw => hback.symm.trans hw, fun hfree => absurd hback (hfree v hbinds)⟩
  · next hji =>
    rw [Array.getElem?_pop, if_pos (by omega)]
    exact .of_free (fun w hw => absurd (hw.unique hbinds) hji) (.inl (.refl _))

/-- A variable is bound to a reference. -/
theorem writeSlot_binds {op : Instruction} {i : Nat} {c : CellId} (hbinds : op.Binds i (.cell c))
    (hback : m.stack.back? = some (.cell c)) (hi : i < f.routine.frameSize)
    (hroom : f.base + f.routine.frameSize + 1 ≤ m.stack.size) :
    Ends (Run.writeSlot f (.frame i) (.cell c)) { m with stack := m.stack.pop } (fun _ => f.Turns op m)
      (·.control = m.control) := by
  refine .bind (.local? rfl fun old _ => .bind ?_)
  have hassign : Run.assign old (.cell c) = Pure.pure (.cell c) := by cases old <;> rfl
  rw [hassign]
  exact .pure (.modify (turns_binds hbinds hback hi hroom))

/-- A plain value that is assigned binds nothing. -/
theorem binds_plain {op : Instruction} {v : Value} (hv : v.isCell = false) (hback : m.stack.back? = some v)
    (hop : ∀ i, op ≠ .define i) (i : Nat) (w : Value) (h : op.Binds i w) : m.stack.back? ≠ some w := by
  rintro hw
  rcases h with h | ⟨hcell, -⟩
  · exact hop i h
  · obtain rfl := Option.some.inj (hback.symm.trans hw)
    rw [hv] at hcell
    cases hcell

/-- No slot of the frame is assigned. -/
theorem binds_other {op : Instruction} {slot : Slot} (hslot : ∀ i, slot ≠ .frame i)
    (hop : op = .write slot ∨ op = .declare slot) (i : Nat) (w : Value) (h : op.Binds i w) :
    m.stack.back? ≠ some w := by
  rcases h with rfl | ⟨-, rfl | rfl⟩ <;> rcases hop with h | h <;> cases h
  all_goals exact absurd rfl (hslot i)

theorem write_turns {slot : Slot} (hslot : slot.InRange f.routine) (hm : m.heap.IsSound)
    (hroom : f.base + f.routine.frameSize + 1 ≤ m.stack.size) :
    Ends (Run.performPlain f (.write slot)) m (fun _ => f.Turns (.write slot) m) (·.control = m.control) := by
  refine .bind (.pop rfl fun v hv => ?_)
  cases hcell : v.isCell with
  | false => exact (Works.writeSlot slot hcell).turns_popped hm hroom (binds_plain hcell hv nofun)
  | true =>
    cases v with
    | cell c =>
      cases slot with
      | frame i => exact writeSlot_binds (.inr ⟨rfl, .inl rfl⟩) hv hslot hroom
      | captured k =>
        exact (Alters.writeSlot (by simp) _).works.turns_popped hm hroom (binds_other (by simp) (.inl rfl))
      | global k =>
        exact (Alters.writeSlot (by simp) _).works.turns_popped hm hroom (binds_other (by simp) (.inl rfl))
    | _ => cases hcell

theorem declare_turns {slot : Slot} (hslot : slot.InRange f.routine) (hm : m.heap.IsSound)
    (hroom : f.base + f.routine.frameSize + 1 ≤ m.stack.size) :
    Ends (Run.performPlain f (.declare slot)) m (fun _ => f.Turns (.declare slot) m) (·.control = m.control) := by
  refine .bind (.pop rfl fun v hv => ?_)
  have hother (hslot : ∀ i, slot ≠ .frame i) (c : CellId) : Ends
      (Run.declaredBefore f slot >>= fun _ => Run.writeSlot f slot (.cell c)) { m with stack := m.stack.pop }
      (fun _ => f.Turns (.declare slot) m) (·.control = m.control) :=
    ((Alters.declaredBefore f slot).bind fun _ => .writeSlot hslot (.cell c)).works.turns_popped hm hroom
      (binds_other hslot (.inr rfl))
  cases hcell : v.isCell with
  | false => exact (Works.declare slot hcell).turns_popped hm hroom (binds_plain hcell hv nofun)
  | true =>
    cases v with
    | cell c =>
      cases slot with
      | frame i => exact .bind (.local? rfl fun _ _ => writeSlot_binds (.inr ⟨rfl, .inr rfl⟩) hv hslot hroom)
      | captured k => exact hother (by simp) c
      | global k => exact hother (by simp) c
    | _ => cases hcell

theorem define_turns {i : Nat} (hi : i < f.routine.frameSize)
    (hroom : f.base + f.routine.frameSize + 1 ≤ m.stack.size) :
    Ends (Run.performPlain f (.define i)) m (fun _ => f.Turns (.define i) m) (·.control = m.control) :=
  .bind (.pop rfl fun _ hv => .bind (.local? rfl fun _ _ => .modify (turns_binds (.inl rfl) hv hi hroom)))

/-- Operands above the slots make no difference. -/
theorem Machine.Promotes.turns {op : Instruction} {m₁ m₂ m' : Machine} (h : m₁.Promotes m₂)
    (hcontrol : m₁.control = m.control) (hcells : m₁.heap.cells.size = m.heap.cells.size)
    (hbefore : ∀ k < f.base + f.routine.frameSize, m₁.stack[k]? = m.stack[k]?)
    (hcontrol' : m'.control = m₂.control)
    (hafter : ∀ k < f.base + f.routine.frameSize, m'.stack[k]? = m₂.stack[k]?) (hop : op.isBinder = false) :
    f.Turns op m m' := by
  refine ⟨hcontrol'.trans (h.control.trans hcontrol), fun i hi => ?_⟩
  have hk : f.base + i < f.base + f.routine.frameSize := by omega
  refine .of_free (fun v hv => absurd hv (op.not_binds hop i v)) ?_
  rw [hafter _ hk, ← hbefore _ hk, ← hcells]
  exact (h.slots (f.base + i)).imp_left .inl

theorem push_below {v : Value} {height : Nat} (h : height ≤ m.stack.size) :
    ∀ k < height, (m.stack.push v)[k]? = m.stack[k]? := fun k hk => by
  rw [Array.getElem?_push_lt (by omega), Array.getElem?_eq_getElem (by omega)]

/-- The callee takes an argument as a reference or as a value. -/
theorem settle_argument (position : Nat) (m : Machine) :
    Run.settle (.argument position) m =
      Run.settle (if m.precall.head?.any (·.isRef position) then .reference else .value) m := by
  split
  all_goals
    next h =>
      simp [Run.settle, Run.takesReference, h, bind, EStateM.bind, Run.get_run, pure, EStateM.pure]

theorem readSlot_argument (slot : Slot) (position : Nat) (m : Machine) :
    Run.readSlot f slot (.argument position) m =
      Run.readSlot f slot (if m.precall.head?.any (·.isRef position) then .reference else .value) m :=
  Run.bind_congr (settle_argument position m)

theorem read_turns (slot : Slot) (use : Use) (hm : m.heap.IsSound)
    (hroom : f.base + f.routine.frameSize + 0 ≤ m.stack.size) :
    Ends (Run.performPlain f (.read slot use)) m (fun _ => f.Turns (.read slot use) m) (·.control = m.control) := by
  cases slot with
  | captured k => exact ((Alters.readSlot (by simp) use).bind fun v => .push v).works.turns hm hroom rfl
  | global k => exact ((Alters.readSlot (by simp) use).bind fun v => .push v).works.turns hm hroom rfl
  | frame i =>
    have hsteady {outcome : Use} (h : outcome = .value ∨ outcome = .unique) {op : Instruction}
        (hop : op.isBinder = false) :
        Ends (Run.readSlot f (.frame i) outcome >>= Run.push) m (fun _ => f.Turns op m) (·.control = m.control) :=
      ((Works.readFrame i h).bind fun v => (Alters.push v).works).turns hm hroom hop
    have hrefers {op : Instruction} (hop : op.isBinder = false) :
        Ends (Run.readSlot f (.frame i) .reference >>= Run.push) m
        (fun _ => f.Turns op m) (·.control = m.control) := by
      refine .bind (.bind (.pure (.bind (.of_outcome (fun c m' h => ?_) fun e m' h => (localCell_ends i).of_error h))))
      obtain ⟨hpromotes, -⟩ := (localCell_ends i).of_ok h
      refine .pure (.push hpromotes.control ?_)
      exact hpromotes.turns rfl rfl (fun _ _ => rfl) rfl (push_below (hpromotes.size ▸ hroom)) hop
    cases use with
    | value => exact hsteady (.inl rfl) rfl
    | unique => exact hsteady (.inr rfl) rfl
    | reference => exact hrefers rfl
    | argument position =>
      have hread := readSlot_argument (f := f) (.frame i) position m
      change Ends (Run.readSlot f (.frame i) (.argument position) >>= Run.push) m _ _
      rw [Ends.congr (Run.bind_congr hread (f := Run.push))]
      split
      · exact hrefers rfl
      · exact hsteady (.inl rfl) rfl

theorem closure_turns (child params : Nat)
    (hroom : f.base + f.routine.frameSize + params ≤ m.stack.size) :
    Ends (Run.performPlain f (.closure child params)) m (fun _ => f.Turns (.closure child params) m)
      (·.control = m.control) := by
  refine .bind (.popMany rfl fun classes _ => .bind ?_)
  have hnew := newClosure_ends (f := f) (m := { m with stack := m.stack.shrink (m.stack.size - params) }) child classes
  refine .of_outcome (fun v m' h => ?_) fun e m' h => hnew.of_error h
  obtain ⟨hpromotes, -⟩ := hnew.of_ok h
  refine .push hpromotes.control ?_
  refine hpromotes.turns rfl rfl (fun k hk => ?_) rfl (push_below ?_) rfl
  · simp [Array.getElem?_extract]
    omega
  · rw [hpromotes.size]
    simp
    omega

/-- Slots are made that are missing. -/
theorem reserve_turns (slots : Nat) :
    Ends (Run.performPlain f (.reserve slots)) m (fun _ => f.Turns (.reserve slots) m) (·.control = m.control) := by
  refine .bind (.get ?_)
  dsimp only
  split
  · exact .bind (.fail rfl)
  · have hnot (i : Nat) (v : Value) : ¬(Instruction.reserve slots).Binds i v := Instruction.not_binds rfl i v
    refine .modify (f := fun _ => _) ⟨rfl, fun i _ => .of_free (fun v hv => absurd hv (hnot i v)) (.inl ?_)⟩
    dsimp only
    by_cases hi : f.base + i < m.stack.size
    · rw [Array.getElem?_append_left hi]
      exact .refl _
    · refine .inr ⟨?_, ?_⟩
      · rw [Array.getElem?_eq_none (by omega)]
        exact fun _ => nofun
      · rw [Array.getElem?_append_right (by omega), Array.getElem?_replicate]
        split
        · exact bare_of_isCell rfl
        · exact fun _ => nofun

/-- An instruction on operands. -/
theorem operands_turns {op : Instruction} (hop : op.isStraight = true) (hslots : op.namesSlots = false)
    (hm : m.heap.IsSound) (hroom : f.base + f.routine.frameSize + op.pops ≤ m.stack.size) :
    Ends (Run.performPlain f op) m (fun _ => f.Turns op m) (·.control = m.control) := by
  have hbinder : op.isBinder = false := by cases op <;> first | rfl | cases hslots
  obtain ⟨k, halters⟩ := performPlain_alters hop hslots
  exact halters.works.turns hm (by rwa [Nat.zero_add]) hbinder

/-- An instruction that neither jumps nor calls nor returns. -/
theorem performPlain_turns {op : Instruction} (hrange : op.InRange f.routine) (hop : op.isStraight = true)
    (hm : m.heap.IsSound) (hroom : f.base + f.routine.frameSize + op.pops ≤ m.stack.size) :
    Ends (Run.performPlain f op) m (fun _ => f.Turns op m) (·.control = m.control) := by
  cases op with
  | reserve slots => exact reserve_turns slots
  | read slot use => exact read_turns slot use hm hroom
  | write slot => exact write_turns hrange hm hroom
  | define i => exact define_turns hrange hroom
  | declare slot => exact declare_turns hrange hm hroom
  | count i up => exact (Works.count i up).turns hm hroom rfl
  | closure child params => exact closure_turns child params hroom
  | jump | call | result => cases hop
  | _ => exact operands_turns rfl rfl hm hroom

theorem perform_turns {op : Instruction} (hrange : op.InRange f.routine) (hm : m.heap.IsSound)
    (hroom : f.base + f.routine.frameSize + op.pops ≤ m.stack.size) :
    Ends (Run.perform f op) m (fun _ => f.Turns op m) (·.control = m.control) := by
  cases op with
  | jump test target => exact (Alters.performJump test target).works.turns hm hroom rfl
  | call args keepRef => exact .bind (.modify (.pure ⟨rfl, fun i _ =>
      .of_free (fun v hv => absurd hv (Instruction.not_binds rfl i v)) (.inl (.refl _))⟩))
  | result => exact (Alters.pop.bind fun v => .pure _).works.turns hm hroom rfl
  | _ => exact .bind ((performPlain_turns hrange rfl hm hroom).after fun _ _ h => .pure h)

end Performing

-- ---------------------------------------------------------------------------
-- Steps of the innermost frame
-- ---------------------------------------------------------------------------

/-- The frame at a depth goes on, and it has set its slots; or it is over. -/
def Frame.Steps (f : Frame) (op : Instruction) (depth : Nat) (m m' : Machine) : Prop :=
  m'.control.length ≤ depth ∨ ∃ f', m'.frameAt depth = some f' ∧ f.Continues f' ∧
    ∀ i < f.routine.frameSize, f.Sets op m i m'.stack[f.base + i]?

theorem stepFrame_steps {f : Frame} {op : Instruction} {m : Machine} {rest : List Activation}
    (hop : f.routine.code.ops[f.ip]? = some op) (hcontrol : m.control = .script f :: rest)
    (hperform : Ends (Run.perform f op) m (fun _ => f.Turns op m) (·.control = m.control)) :
    Ends (Run.stepFrame f) m (fun _ => f.Steps op rest.length m) (·.control = m.control) := by
  unfold Run.stepFrame
  simp only [hop]
  refine .bind (.of_outcome (fun flow m' h => ?_) fun e m' h => hperform.of_error h)
  obtain ⟨hkept, hslots⟩ := hperform.of_ok h
  rw [hcontrol] at hkept
  have hgoes (next : Nat → Nat) :
      Ends (Run.goTo next) m' (fun _ => f.Steps op rest.length m) (·.control = m.control) := by
    refine .modify (.inr ⟨{ f with ip := next f.ip }, ?_, ⟨_, rfl⟩, hslots⟩)
    rw [Machine.frameAt_eq_some]
    simp only [hkept]
    exact getElem?_reverse_cons
  cases flow with
  | next => exact hgoes _
  | jump target => exact hgoes _
  | enter args keepRef =>
    have hacts : .script f :: rest <:+ .entering args keepRef :: m'.control := hkept ▸ List.suffix_cons _ _
    exact .modify (.inr ⟨f, Machine.frameAt_of_suffix hacts getElem?_reverse_cons, .refl f, hslots⟩)
  | leave v =>
    have hover : (resumed rest).length ≤ rest.length := by
      unfold resumed
      split <;> simp
    have hcomplete := complete_run (f.base - 1) f.keepRef v m'
    simp only [hkept, List.drop_succ_cons, List.drop_zero] at hcomplete
    refine .of_outcome (fun _ m'' h' => ?_) fun e m'' h' => ?_
    · cases hcomplete.symm.trans h'
      exact .inl hover
    · cases hcomplete.symm.trans h'

/-- A guarded call that takes a failure is one of those that were active. -/
theorem recover_control {m m' : Machine} {outer : Nat} {e : Failure} (h : m.recover outer e = some m') :
    ∃ w rest, .native w :: rest <:+ m.control ∧ m'.control = .native { w with succeeded := false } :: rest := by
  unfold Machine.recover at h
  split at h
  · next w rest hguarded =>
    split at h
    · cases h
    · cases h
      exact ⟨w, rest, hguarded ▸ List.dropWhile_suffix _, rfl⟩
  · cases h

/-- A step of a frame goes on as it does, or the frame is over. -/
theorem attempt_ends {m m' : Machine} {f : Frame} {rest : List Activation} {outer : Nat} {Q : Unit → Machine → Prop}
    (hcontrol : m.control = .script f :: rest) (hstep : Ends (Run.stepFrame f) m Q (·.control = m.control))
    (hm' : Run.attempt outer m = .ok () m') : m'.control.length ≤ rest.length ∨ Q () m' := by
  rw [← Ends.congr (step_eq hcontrol)] at hstep
  unfold Run.attempt at hm'
  cases hrun : Run.step m with
  | ok _ after =>
    simp only [hrun] at hm'
    cases hm'
    exact .inr (hstep.of_ok hrun)
  | error e after =>
    simp only [hrun] at hm'
    split at hm'
    · next recovered hrecover =>
      cases hm'
      obtain ⟨w, acts, hacts, hafter⟩ := recover_control hrecover
      rw [hstep.of_error hrun, hcontrol] at hacts
      rw [hafter, List.length_cons]
      -- The frame is no native function, so the guarded call is further out.
      rcases List.suffix_cons_iff.mp hacts with heq | hsuffix
      · cases heq
      · exact .inl hsuffix.length_le
    · cases hm'

section Running

variable {host m m' : Machine} {callee : Nat} {f : Frame} {rest : List Activation}

/-- The innermost frame of a running machine makes its slots, or it executes an instruction that finds
what it needs. -/
theorem Running.innermost (h : Running host callee m) (hlength : host.control.length < m.control.length)
    (hcontrol : m.control = .script f :: rest) :
    m.heap.IsSound ∧ Sound f.routine ∧ ∃ op, f.routine.code.ops[f.ip]? = some op ∧ op.InRange f.routine ∧
      (op = .reserve f.routine.frameSize ∨ f.base + f.routine.frameSize + op.pops ≤ m.stack.size) := by
  cases h with
  | done within hhost => exact absurd hlength (by rw [hhost]; exact Nat.lt_irrefl _)
  | entering atop => cases hcontrol.symm.trans atop.control
  | answered resuming => cases hcontrol.symm.trans resuming.atop.control
  | @entered g acts slot height precall shape atop base fits start arguments room =>
    obtain ⟨rfl, rfl⟩ : f = g ∧ rest = acts := by simpa using hcontrol.symm.trans atop.control
    have has : f.routine.Has f.ip (.reserve f.routine.frameSize) := start ▸ (fits.sound _ .self).nonempty
    exact ⟨atop.within.sound, fits.sound, _, has, (fits.sound _ .self).inRange _ _ has, .inl rfl⟩
  | @executing g acts slot precall shape fits inside site =>
    obtain ⟨rfl, rfl⟩ : f = g ∧ rest = acts := by simpa using hcontrol.symm.trans site.control
    obtain ⟨op, has⟩ : ∃ op, f.routine.Has f.ip op := ⟨_, Array.getElem?_eq_getElem inside⟩
    have hpops := (fits.assigned.admits _ _ has).all_pops_le site.meets.pending
    have hsize : m.stack.size = f.base + f.routine.frameSize + (shape f.ip).operands := site.size
    exact ⟨site.within.sound, fits.sound, op, has, (fits.sound _ .self).inRange _ _ has, .inr (by omega)⟩

/-- What the innermost frame does between two steps of a running machine. -/
theorem Running.attempt_steps (h : Running host callee m) (hlength : host.control.length < m.control.length)
    (hcontrol : m.control = .script f :: rest) (hm' : Run.attempt host.control.length m = .ok () m') :
    ∃ op, f.routine.code.ops[f.ip]? = some op ∧ f.Steps op rest.length m m' := by
  obtain ⟨hsound, -, op, hop, hrange, hroom⟩ := h.innermost hlength hcontrol
  have hperform : Ends (Run.perform f op) m (fun _ => f.Turns op m) (·.control = m.control) := by
    rcases hroom with rfl | hroom
    · exact .bind ((reserve_turns _).after fun _ _ h => .pure h)
    · exact perform_turns hrange hsound hroom
  refine ⟨op, hop, ?_⟩
  rcases attempt_ends hcontrol (stepFrame_steps hop hcontrol hperform) hm' with hover | hsteps
  · exact .inl hover
  · exact hsteps

/-- A frame makes a function, or it is over. -/
theorem Running.attempt_makes (h : Running host callee m) (hlength : host.control.length < m.control.length)
    (hcontrol : m.control = .script f :: rest) (hm' : Run.attempt host.control.length m = .ok () m')
    {child params : Nat} (hop : f.routine.code.ops[f.ip]? = some (.closure child params)) :
    m'.control.length ≤ rest.length ∨ f.Makes child m' := by
  obtain ⟨hsound, -, op, hop', hrange, hroom⟩ := h.innermost hlength hcontrol
  obtain rfl : op = .closure child params := Option.some.inj (hop'.symm.trans hop)
  have hperform := perform_turns hrange hsound (hroom.resolve_left nofun)
  have hstep : Ends (Run.stepFrame f) m (fun _ => f.Makes child) (·.control = m.control) := by
    unfold Run.stepFrame
    simp only [hop]
    refine .bind (.of_outcome (fun flow after h => ?_) fun e after h => hperform.of_error h)
    obtain ⟨rfl, routine, made, id, hroutine, htop, hcontent, hholds⟩ := (closure_makes child params).of_ok h
    exact .modify ⟨routine, made, id, hroutine, htop, hcontent, hholds.callable, hholds.captured⟩
  exact attempt_ends hcontrol hstep hm'

end Running

end Rill
