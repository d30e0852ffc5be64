-- SUMMARY: Stretches of one instruction, and stretches that make whole routines well formed.
import Rill.Compile.Program
import Rill.Proofs.Depth.Stretch

/-!
# Steps between shapes

Every kind of instruction is a stretch of its own.
-/

namespace Rill

-- ---------------------------------------------------------------------------
-- More operands
-- ---------------------------------------------------------------------------

namespace Shape

/-- The shape with more operands on top, which are no iterators. -/
def grow (s : Shape) (n : Nat) : Shape := { s with operands := s.operands + n, onTop := false }

@[simp] theorem grow_operands (s : Shape) (n : Nat) : (s.grow n).operands = s.operands + n := rfl
@[simp] theorem grow_pending (s : Shape) (n : Nat) : (s.grow n).pending = s.pending := rfl
@[simp] theorem grow_iterators (s : Shape) (n : Nat) : (s.grow n).iterators = s.iterators := rfl
@[simp] theorem grow_onTop (s : Shape) (n : Nat) : (s.grow n).onTop = false := rfl
@[simp] theorem grow_floor (s : Shape) (n : Nat) : (s.grow n).floor = s.floor := rfl

@[simp] theorem grow_grow (s : Shape) (m n : Nat) : (s.grow m).grow n = s.grow (m + n) := by
  simp only [grow, Nat.add_assoc]

theorem le_grow_zero (s : Shape) : s ≤ s.grow 0 := ⟨rfl, rfl, List.Subset.refl _, fun h => by simp at h⟩

/-- The shape between statements. -/
def level (iterators : List Nat) : Shape := { iterators := iterators }

theorem level_isLevel (iterators : List Nat) : (level iterators).IsLevel := ⟨rfl, rfl⟩

theorem level_mono {L L' : List Nat} (h : L ⊆ L') : level L' ≤ level L := ⟨rfl, rfl, h, id⟩

/-- An argument at a position is evaluated next. -/
def TakesArgument (s : Shape) (p : Nat) : Prop :=
  s.pending.head? = some s.floor ∧ s.operands = s.floor + p

/-- The shape with an iterator on top. -/
def growIterator (s : Shape) : Shape := { s.grow 1 with onTop := true }

/-- The shape in which a callee that was pushed waits for its arguments. -/
def wait (s : Shape) : Shape := { s.grow 1 with pending := (s.operands + 1) :: s.pending }

@[simp] theorem wait_floor (s : Shape) : s.wait.floor = s.operands + 1 := rfl
@[simp] theorem wait_operands (s : Shape) : s.wait.operands = s.operands + 1 := rfl
@[simp] theorem wait_iterators (s : Shape) : s.wait.iterators = s.iterators := rfl

theorem wait_takesArgument (s : Shape) : s.wait.TakesArgument 0 := ⟨rfl, rfl⟩

theorem TakesArgument.grow {s : Shape} {p : Nat} (h : s.TakesArgument p) :
    (s.grow 1).TakesArgument (p + 1) :=
  ⟨h.1, by simp [h.2]; omega⟩

end Shape

theorem subset_filter_ne {xs : List Nat} {k : Nat} (h : k ∉ xs) : xs ⊆ xs.filter (· ≠ k) := by
  intro x hx
  rw [List.mem_filter]
  exact ⟨hx, by simpa using fun heq : x = k => h (heq ▸ hx)⟩

-- ---------------------------------------------------------------------------
-- Instructions that go on
-- ---------------------------------------------------------------------------

/-- The instruction goes on at the next one. -/
def Instruction.goesOn : Instruction → Bool
  | .jump .. | .call .. | .precall | .result | .throw => false
  | _ => true

/-- The instruction leaves slots alone. -/
def Instruction.isPlain : Instruction → Bool
  | .read .. | .write _ | .define _ | .declare _ | .count .. | .closure .. => false
  | op => op.goesOn && !op.takesIterator

theorem Instruction.Fine.of_inRange {r : Routine} {op : Instruction} (h : op.InRange r)
    (hop : ∀ k params, op ≠ .closure k params) : op.Fine r :=
  ⟨.inr h, fun k params _ heq => absurd heq (hop k params)⟩

namespace Stretch

variable {r : Routine} {i : Nat} {s t u : Shape} {exits : Exits} {o : Instruction}

/-- An instruction that goes on at the next one. -/
theorem next (has : r.Has i o) (fine : o.Fine r) (admits : s.Admits o) (hgoes : o.goesOn = true)
    (hle : s.after r o ≤ t) : Stretch r i s (i + 1) t exits True := by
  have hedges : s.edges r i o = [(i + 1, s.after r o)] := by
    cases o <;> first | rfl | simp [Instruction.goesOn] at hgoes
  refine .op has fine admits fun e he => .inl ?_
  rw [hedges, List.mem_singleton] at he
  exact he ▸ ⟨rfl, hle⟩

theorem admits_grow (hs : s.floor ≤ s.operands) (hgoes : o.goesOn = true)
    (hiter : o.takesIterator = false) (harg : ∀ p ∈ o.argument?, s.TakesArgument p) :
    (s.grow o.pops).Admits o := by
  have hpops : s.floor + o.pops ≤ s.operands + o.pops := by omega
  have hall : s.floor + o.pops ≤ (s.grow o.pops).operands ∧
      (o.takesIterator = true → (s.grow o.pops).onTop = true) ∧
      ∀ p ∈ o.argument?, s.pending.head? = some s.floor ∧
        (s.grow o.pops).operands - o.pops = s.floor + p := by
    refine ⟨hpops, fun h => by rw [hiter] at h; exact absurd h (by decide), fun p hp => ?_⟩
    obtain ⟨hhead, hoperands⟩ := harg p hp
    refine ⟨hhead, ?_⟩
    rw [Shape.grow_operands, Nat.add_sub_cancel, hoperands]
  cases o <;> first | exact hall | simp [Instruction.goesOn] at hgoes

/-- An instruction puts its results in the place of its operands. -/
theorem operate (hs : s.floor ≤ s.operands) (has : r.Has i o) (fine : o.Fine r)
    (hgoes : o.goesOn = true) (hiter : o.takesIterator = false)
    (harg : ∀ p ∈ o.argument?, s.TakesArgument p)
    (hkeep : s.iterators ⊆ (s.grow o.pops).iteratorsAfter r o) :
    Stretch r i (s.grow o.pops) (i + 1) (s.grow o.pushes) exits True := by
  refine next has fine (admits_grow hs hgoes hiter harg) hgoes ⟨?_, ?_, hkeep, by simp⟩
  · simp only [Shape.after, Shape.grow_operands, Nat.add_sub_cancel]
  · cases o <;> first | rfl | simp [Instruction.goesOn] at hgoes

/-- An instruction that leaves slots alone. -/
theorem plain (hs : s.floor ≤ s.operands) (has : r.Has i o) (hrange : o.InRange r)
    (hplain : o.isPlain = true) (harg : ∀ p ∈ o.argument?, s.TakesArgument p) :
    Stretch r i (s.grow o.pops) (i + 1) (s.grow o.pushes) exits True := by
  refine operate hs has (.of_inRange hrange fun k params heq => ?_) ?_ ?_ harg ?_
  · simp [heq, Instruction.isPlain] at hplain
  all_goals
    cases o
    all_goals
      simp only [Instruction.isPlain, Bool.false_eq_true, Bool.and_eq_true, Bool.not_eq_true'] at hplain
    all_goals first | exact hplain.1 | exact hplain.2 | exact List.Subset.refl _

/-- A variable is pushed. -/
theorem read {slot : Slot} {use : Use} (hs : s.floor ≤ s.operands) (has : r.Has i (.read slot use))
    (hrange : slot.InRange r) (hslot : ∀ k, slot = .frame k → k ∉ s.iterators)
    (huse : ∀ p, use = .argument p → s.TakesArgument p) :
    Stretch r i s (i + 1) (s.grow 1) exits True := by
  refine (operate (o := .read slot use) hs has (.of_inRange hrange (by simp)) rfl rfl ?_ ?_).weaken
    s.le_grow_zero (Shape.le_refl _)
  · cases use <;> simp [Instruction.argument?, huse]
  · cases slot with
    | frame k =>
      have hkeep := subset_filter_ne (hslot k rfl)
      cases use <;> first | exact List.Subset.refl _ | exact hkeep
    | captured k => exact List.Subset.refl _
    | global k => exact List.Subset.refl _

/-- An iterator is pushed. -/
theorem readIterator {k : Nat} (hs : s.floor ≤ s.operands) (has : r.Has i (.read (.frame k) .value))
    (hrange : k < r.frameSize) (hslot : k ∈ s.iterators) :
    Stretch r i s (i + 1) s.growIterator exits True := by
  have hadmits : s.Admits (.read (.frame k) .value) :=
    ⟨hs, fun h => by simp [Instruction.takesIterator] at h,
        fun p hp => by simp [Instruction.argument?] at hp⟩
  refine next has (.of_inRange hrange (by simp)) hadmits rfl ⟨rfl, rfl, List.Subset.refl _, fun _ => ?_⟩
  simpa [Shape.after, Shape.leavesIterator] using hslot

/-- A variable takes the value on top. -/
theorem write {slot : Slot} (hs : s.floor ≤ s.operands)
    (has : r.Has i (.write slot) ∨ r.Has i (.declare slot))
    (hrange : slot.InRange r) (hslot : ∀ k, slot = .frame k → k ∉ s.iterators) :
    Stretch r i (s.grow 1) (i + 1) (s.grow 0) exits True := by
  have hkeep (o : Instruction) (ho : o = .write slot ∨ o = .declare slot) :
      s.iterators ⊆ (s.grow 1).iteratorsAfter r o := by
    cases slot with
    | frame k =>
      have hkeep := subset_filter_ne (hslot k rfl)
      rcases ho with rfl | rfl <;> exact hkeep
    | captured k => rcases ho with rfl | rfl <;> exact List.Subset.refl _
    | global k => rcases ho with rfl | rfl <;> exact List.Subset.refl _
  rcases has with has | has
  · exact operate (o := .write slot) hs has (.of_inRange hrange (by simp)) rfl rfl nofun
      (hkeep _ (.inl rfl))
  · exact operate (o := .declare slot) hs has (.of_inRange hrange (by simp)) rfl rfl nofun
      (hkeep _ (.inr rfl))

/-- A slot is bound to the value on top. -/
theorem define {k : Nat} (hs : s.floor ≤ s.operands) (has : r.Has i (.define k)) (hrange : k < r.frameSize)
    (hslot : k ∉ s.iterators) : Stretch r i (s.grow 1) (i + 1) (s.grow 0) exits True :=
  operate (o := .define k) hs has (.of_inRange hrange (by simp)) rfl rfl nofun (subset_filter_ne hslot)

/-- A counter in a slot moves on. -/
theorem count {k : Nat} {up : Bool} (hs : s.floor ≤ s.operands) (has : r.Has i (.count k up))
    (hrange : k < r.frameSize) (hslot : k ∉ s.iterators) :
    Stretch r i (s.grow 0) (i + 1) (s.grow 0) exits True :=
  operate (o := .count k up) hs has (.of_inRange hrange (by simp)) rfl rfl nofun (subset_filter_ne hslot)

/-- A function is made. It must not capture slots with iterators. -/
theorem closure {k params : Nat} {child : Routine} (hs : s.floor ≤ s.operands)
    (has : r.Has i (.closure k params)) (hchild : r.children[k]? = some child)
    (hparams : params ≤ child.frameSize) (hsound : Sound child)
    (hcaptures : ∀ c ∈ child.captures, c.InRange r ∧ (c.fromFrame = true → c.index ∉ s.iterators)) :
    Stretch r i (s.grow params) (i + 1) (s.grow 1) exits True := by
  refine operate (o := .closure k params) hs has ⟨.inr ⟨child, hchild, hparams⟩, ?_⟩ rfl rfl nofun ?_
  · intro k' params' child' heq hchild'
    obtain ⟨rfl, rfl⟩ := Instruction.closure.inj heq
    rw [hchild, Option.some.injEq] at hchild'
    subst hchild'
    exact ⟨hsound, fun c hc => (hcaptures c hc).1⟩
  · intro x hx
    refine List.mem_filter.mpr ⟨hx, ?_⟩
    simp only [hchild, Option.any_some, Bool.not_eq_true', ← Bool.not_eq_true, Array.contains_iff_mem]
    exact fun hmem => (hcaptures _ hmem).2 rfl hx

-- ---------------------------------------------------------------------------
-- Iterators
-- ---------------------------------------------------------------------------

theorem iterate {byRef : Bool} (hs : s.floor ≤ s.operands) (has : r.Has i (.iterate byRef)) :
    Stretch r i (s.grow 1) (i + 1) s.growIterator exits True := by
  have hadmits := admits_grow (o := .iterate byRef) hs rfl rfl nofun
  refine next has (.of_inRange trivial (by simp)) hadmits rfl ⟨?_, rfl, List.Subset.refl _, fun _ => rfl⟩
  simp [Shape.after, Instruction.pops, Instruction.pushes, Shape.growIterator]

/-- A slot is bound to the iterator on top. -/
theorem defineIterator {k : Nat} (hs : s.floor ≤ s.operands) (has : r.Has i (.define k))
    (hrange : k < r.frameSize) :
    Stretch r i s.growIterator (i + 1) { s.grow 0 with iterators := k :: s.iterators } exits True := by
  have hadmits : s.growIterator.Admits (.define k) :=
    ⟨Nat.add_le_add_right hs 1, fun _ => rfl, nofun⟩
  exact next has (.of_inRange hrange (by simp)) hadmits rfl ⟨rfl, rfl, List.Subset.refl _, id⟩

/-- The iterator on top is used up. -/
theorem advance {o : Instruction} (hs : s.floor ≤ s.operands) (has : r.Has i o)
    (ho : o.takesIterator = true) : Stretch r i s.growIterator (i + 1) (s.grow 1) exits True := by
  have hadmits : s.floor + 1 ≤ s.operands + 1 ∧ (true = true → s.growIterator.onTop = true) ∧
      ∀ p ∈ (none : Option Nat), s.pending.head? = some s.floor ∧ s.operands + 1 - 1 = s.floor + p :=
    ⟨Nat.add_le_add_right hs 1, fun _ => rfl, nofun⟩
  cases o
  all_goals first | simp [Instruction.takesIterator] at ho; done | skip
  all_goals
    exact next has (.of_inRange trivial (by simp)) hadmits rfl ⟨rfl, rfl, List.Subset.refl _, id⟩

-- ---------------------------------------------------------------------------
-- Jumps
-- ---------------------------------------------------------------------------

variable {target : Nat}

/-- A jump that is always taken; nothing reaches the instruction after it from here. -/
theorem jump (hs : s.floor ≤ s.operands) (has : r.Has i (.jump .always target)) (hexit : exits target u)
    (hle : s.grow 0 ≤ u) : Stretch r i s (i + 1) t exits True := by
  refine .op has ⟨.inl ⟨_, _, rfl⟩, nofun⟩ ⟨hs, nofun, nofun⟩ fun e he => .inr ?_
  rw [Shape.edges, List.mem_singleton] at he
  exact he ▸ ⟨u, hexit, hle⟩

/-- A jump that takes its condition. -/
theorem test {o : JumpTest} (hs : s.floor ≤ s.operands) (has : r.Has i (.jump o target))
    (ho : o = .ifFalse ∨ o = .ifTrue) (hexit : exits target u) (hle : s.grow 0 ≤ u) :
    Stretch r i (s.grow 1) (i + 1) (s.grow 0) exits True := by
  have hadmits := Nat.add_le_add_right hs 1
  rcases ho with rfl | rfl
  all_goals
    refine .op has ⟨.inl ⟨_, _, rfl⟩, nofun⟩ ⟨hadmits, nofun, nofun⟩ fun e he => ?_
    rw [Shape.edges, List.mem_cons, List.mem_singleton] at he
    rcases he with rfl | rfl
    · exact .inr ⟨u, hexit, hle⟩
    · exact .inl ⟨rfl, Shape.le_refl _⟩

/-- A jump that keeps its condition when it is taken. -/
theorem keep (hs : s.floor ≤ s.operands) {op : LogicalOp}
    (has : r.Has i (.jump (Compile.logicalTest op) target)) (hexit : exits target u) (hle : s.grow 1 ≤ u) :
    Stretch r i (s.grow 1) (i + 1) (s.grow 0) exits True := by
  have hadmits := Nat.add_le_add_right hs 1
  cases op
  all_goals
    refine .op has ⟨.inl ⟨_, _, rfl⟩, nofun⟩ hadmits fun e he => ?_
    rw [Compile.logicalTest, Shape.edges, List.mem_cons, List.mem_singleton] at he
    rcases he with rfl | rfl
    · exact .inr ⟨u, hexit, hle⟩
    · exact .inl ⟨rfl, Shape.le_refl _⟩

-- ---------------------------------------------------------------------------
-- Calls and ends
-- ---------------------------------------------------------------------------

/-- The callee on top waits for its arguments. -/
theorem precall (hs : s.floor ≤ s.operands) (has : r.Has i .precall) :
    Stretch r i (s.grow 1) (i + 1) s.wait exits True := by
  refine .op has (.of_inRange trivial (by simp)) (Nat.add_le_add_right hs 1) fun e he => .inl ?_
  obtain rfl : e = (i + 1, (s.grow 1).after r .precall) := List.mem_singleton.mp he
  exact ⟨rfl, rfl, rfl, List.Subset.refl _, id⟩

/-- A result takes the place of a callee and its arguments. -/
theorem call {n : Nat} {keepRef : Bool} (has : r.Has i (.call n keepRef)) :
    Stretch r i (s.wait.grow n) (i + 1) (s.grow 1) exits True := by
  have hadmits : (s.wait.grow n).Admits (.call n keepRef) := by
    refine ⟨by simp, ?_⟩
    rw [Shape.grow_operands, Nat.add_sub_cancel]
    rfl
  refine .op has (.of_inRange trivial (by simp)) hadmits fun e he => .inl ?_
  obtain rfl : e = (i + 1, (s.wait.grow n).after r (.call n keepRef)) := List.mem_singleton.mp he
  refine ⟨rfl, ?_, rfl, List.Subset.refl _, id⟩
  simp only [Shape.after, Instruction.pops, Instruction.pushes, Shape.grow_operands, Shape.wait_operands]
  omega

/-- The return from a function. -/
theorem result (has : r.Has i .result) (hs : s.operands = 1) (hpending : s.pending = []) :
    Stretch r i s (i + 1) t exits True :=
  .op has (.of_inRange trivial (by simp)) ⟨hs, hpending⟩ nofun

theorem throw (hs : s.floor ≤ s.operands) (has : r.Has i .throw) :
    Stretch r i (s.grow 1) (i + 1) t exits True :=
  .op has (.of_inRange trivial (by simp)) ⟨Nat.add_le_add_right hs 1, nofun, nofun⟩ nofun

end Stretch

end Rill

/-!
# Routines from stretches

The statements of a routine make a stretch without exits. With the reservation before it and the return
behind it, that stretch is an assignment for the whole routine.
-/

namespace Rill

-- ---------------------------------------------------------------------------
-- Nested routines
-- ---------------------------------------------------------------------------

theorem Nested.cases_head {r q : Routine} (h : Nested r q) :
    q = r ∨ ∃ child ∈ r.children, Nested child q := by
  induction h with
  | self => exact .inl rfl
  | child _ mem ih =>
    rcases ih with rfl | ⟨c, hc, hq⟩
    · exact .inr ⟨_, mem, .self⟩
    · exact .inr ⟨c, hc, hq.child mem⟩

/-- What holds of a routine and of every routine in its children holds of every routine in it. -/
theorem Nested.forall_of_children {r : Routine} {P : Routine → Prop} (h : P r)
    (hchildren : ∀ child ∈ r.children, ∀ q, Nested child q → P q) : ∀ q, Nested r q → P q := by
  intro q hq
  rcases hq.cases_head with rfl | ⟨child, hchild, hq⟩
  · exact h
  · exact hchildren child hchild q hq

theorem Sound.of_children {r : Routine} (h : WellFormed r) (hchildren : ∀ child ∈ r.children, Sound child) :
    Sound r :=
  Nested.forall_of_children h hchildren

theorem Nested.of_child {r q child : Routine} (hmem : child ∈ r.children) (h : Nested child q) :
    Nested r q := by
  induction h with
  | self => exact .child .self hmem
  | child _ mem ih => exact .child ih mem

theorem Sound.of_mem_children {r child : Routine} (h : Sound r) (hmem : child ∈ r.children) : Sound child :=
  fun q hq => h q (.of_child hmem hq)

-- ---------------------------------------------------------------------------
-- Whole routines
-- ---------------------------------------------------------------------------

theorem Shape.eq_of_start_le {s : Shape} (h : ({} : Shape) ≤ s) : s = {} := by
  obtain ⟨operands, pending, iterators, onTop⟩ := s
  obtain rfl : 0 = operands := h.operands
  obtain rfl : [] = pending := h.pending
  obtain rfl : iterators = [] := List.subset_nil.mp h.iterators
  cases onTop with
  | false => rfl
  | true => exact absurd (h.onTop rfl) (by decide)

/-- A routine with an assignment whose instructions name what exists is well formed with its children. -/
theorem Assigned.sound {r : Routine} {shape : Nat → Shape} (h : Assigned r shape)
    (hreserve : r.Has 0 (.reserve r.frameSize)) (hfine : ∀ pc op, r.Has pc op → op.Fine r)
    (huses : r.UsesChildren) : Sound r := by
  have hused (child : Routine) (hchild : child ∈ r.children) :
      Sound child ∧ ∀ c ∈ child.captures, c.InRange r := by
    obtain ⟨k, hk, hget⟩ := Array.mem_iff_getElem.mp hchild
    obtain ⟨pc, params, has⟩ := huses k hk
    exact (hfine pc _ has).children k params child rfl (Array.getElem?_eq_some_iff.mpr ⟨hk, hget⟩)
  refine .of_children ⟨hreserve, fun pc op has => ?_, fun child hc => (hused child hc).2, shape, h⟩
    fun child hc => (hused child hc).1
  rcases (hfine pc op has).inRange with ⟨test, target, rfl⟩ | hrange
  · have hedges := h.edges pc _ has
    cases test <;> exact (hedges (target, _) List.mem_cons_self).1
  · exact hrange

/-- Statements between the reservation of the slots and the return make a sound routine. -/
theorem Stretch.routine {r : Routine} {body : Nat} {P : Prop} (hreserve : r.Has 0 (.reserve r.frameSize))
    (hbody : Stretch r 1 (.level []) body (.level []) (fun _ _ => False) P)
    (hnull : r.Has body .pushNull) (hresult : r.Has (body + 1) .result) (hsize : r.code.size = body + 2)
    (huses : r.UsesChildren) : Sound r ∧ P := by
  have hstart : Stretch r 0 {} 1 (.level []) (fun _ _ => False) True :=
    plain (s := {}) (Nat.le_refl 0) hreserve rfl rfl nofun
  have hend : Stretch r body (.level []) (body + 1) (Shape.grow (.level []) 1) (fun _ _ => False) True :=
    (plain (s := .level []) (Nat.le_refl 0) hnull trivial rfl nofun).weaken (Shape.le_grow_zero _)
      (Shape.le_refl _)
  obtain ⟨shape, hbalance, hP⟩ := (hstart.seq hbody).seq hend
  -- The return has one operand, and nothing comes after it.
  let whole (n : Nat) : Shape := if n ≤ body then shape n else Shape.grow (.level []) 1
  have hcode (pc : Nat) (op : Instruction) (has : r.Has pc op) : op.Fine r ∧ (whole pc).Admits op ∧
      ∀ e ∈ (whole pc).edges r pc op, e.1 < r.code.size ∧ e.2 ≤ whole e.1 := by
    have hpc : pc < body + 2 := hsize ▸ (Array.getElem?_eq_some_iff.mp has).1
    rcases Nat.lt_or_ge body pc with hlast | hin
    · obtain rfl : pc = body + 1 := by omega
      obtain rfl : op = .result := Option.some.inj (has.symm.trans hresult)
      simp only [whole, if_neg (Nat.not_le.mpr hlast)]
      exact ⟨.of_inRange trivial (by simp), ⟨rfl, rfl⟩, nofun⟩
    · obtain ⟨op', has', fine, admits, hedges⟩ := hbalance.code pc (Nat.zero_le _) (by omega)
      obtain rfl : op = op' := Option.some.inj (has.symm.trans has')
      simp only [whole, if_pos hin]
      refine ⟨fine, admits, fun e he => ?_⟩
      rcases hedges e he with ⟨-, hlt, hle⟩ | ⟨heq, hle⟩ | ⟨_, hfalse, -⟩
      · exact ⟨by omega, by rwa [if_pos (by omega)]⟩
      · exact ⟨by omega, by rwa [heq, if_neg (by omega)]⟩
      · exact hfalse.elim
  have hassigned : Assigned r whole := by
    refine ⟨?_, fun pc op has => (hcode pc op has).2.1, fun pc op has => (hcode pc op has).2.2⟩
    simp only [whole, if_pos (Nat.zero_le body)]
    exact Shape.eq_of_start_le (hbalance.entry (Nat.succ_pos body))
  refine ⟨hassigned.sound hreserve (fun pc op has => (hcode pc op has).1) huses, ?_⟩
  refine (hP whole hassigned (fun n _ hn => if_pos (by omega)) ?_).1.2
  simp only [whole, if_neg (Nat.not_le.mpr (Nat.lt_succ_self body)), Shape.le_refl]

end Rill
