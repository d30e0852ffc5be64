-- SUMMARY: What is known about the operands before an instruction, and pieces of code for which it fits together.
import Rill.Proofs.Layout.Placement

/-!
# Shapes

A *shape* says how many operands lie above the slots of a frame when an instruction is met, which calls
wait for their arguments, and where iterators are. An instruction *admits* some shapes and hands others on
to the instructions after it. An assignment of shapes to the instructions of a routine fits together when
every instruction admits its own and what it hands on is what the next one has.
-/

namespace Rill

-- ---------------------------------------------------------------------------
-- Shapes
-- ---------------------------------------------------------------------------

/-- The operands before an instruction. `operands` counts the values above the slots of the frame, and
`pending` holds for every callee that waits for its arguments, innermost first, how many operands there
were when it was on top. The slots in `iterators` hold iterators, and so does the top if `onTop` is set. -/
structure Shape where
  operands : Nat := 0
  pending : List Nat := []
  iterators : List Nat := []
  onTop : Bool := false
  deriving Repr, DecidableEq

/-- One shape promises all that another one does: the depths are the same. -/
structure Shape.Refines (s t : Shape) : Prop where
  operands : s.operands = t.operands
  pending : s.pending = t.pending
  iterators : t.iterators ⊆ s.iterators
  onTop : t.onTop = true → s.onTop = true

instance : LE Shape := ⟨Shape.Refines⟩

theorem Shape.le_refl (s : Shape) : s ≤ s := ⟨rfl, rfl, List.Subset.refl _, id⟩

theorem Shape.le_trans {s t u : Shape} (h : s ≤ t) (h' : t ≤ u) : s ≤ u :=
  ⟨h.operands.trans h'.operands, h.pending.trans h'.pending, List.Subset.trans h'.iterators h.iterators,
    fun hu => h.onTop (h'.onTop hu)⟩

/-- Between statements there are no operands, and no call waits. -/
def Shape.IsLevel (s : Shape) : Prop := s.operands = 0 ∧ s.pending = []

/-- The operands that the innermost waiting callee keeps, itself included. -/
def Shape.floor (s : Shape) : Nat := s.pending.headD 0

-- ---------------------------------------------------------------------------
-- Instructions
-- ---------------------------------------------------------------------------

/-- Number of operands that an instruction takes. -/
def Instruction.pops : Instruction → Nat
  | .pushNull | .pushBool _ | .pushSmall _ | .pushInt _ | .pushFloat _ | .pushNan | .pushStr _
  | .reserve _ | .read .. | .count .. | .jump .always _ | .precall => 0
  | .pop | .write _ | .define _ | .declare _ | .member .. | .negate | .not | .iterate _ | .hasNext
  | .nextKey | .nextValue | .throw | .result | .jump .. => 1
  | .setMember _ | .binary _ => 2
  | .element n _ | .call n _ => n + 1
  | .setElement n => n + 2
  | .concat n | .closure _ n | .list n | .set n | .print n _ => n
  | .table n => 2 * n
  | .array rows cols => rows * cols
  | .assert n => if n > 1 then 2 else 1

/-- Number of operands that an instruction leaves. -/
def Instruction.pushes : Instruction → Nat
  | .reserve _ | .count .. | .pop | .write _ | .define _ | .declare _ | .throw | .result | .jump ..
  | .precall | .setMember _ | .setElement _ | .print .. | .assert _ => 0
  | _ => 1

/-- The position of the argument that an instruction evaluates. -/
def Instruction.argument? : Instruction → Option Nat
  | .read _ (.argument p) | .element _ (.argument p) | .member _ (.argument p) => some p
  | _ => none

/-- The instruction uses an iterator on top of the operands. -/
def Instruction.takesIterator : Instruction → Bool
  | .hasNext | .nextKey | .nextValue => true
  | _ => false

namespace Shape

/-- An instruction finds the operands it needs. It takes none from below the innermost waiting callee; an
argument is evaluated right above the arguments before it; a call takes its own callee and arguments; and
a function returns the only operand it has. -/
def Admits (s : Shape) (op : Instruction) : Prop :=
  match op with
  | .call n _ => n ≤ s.operands ∧ s.pending.head? = some (s.operands - n)
  | .result => s.operands = 1 ∧ s.pending = []
  | .precall | .jump .ifFalseKeep _ | .jump .ifTrueKeep _ => s.floor + 1 ≤ s.operands
  | op =>
    s.floor + op.pops ≤ s.operands ∧ (op.takesIterator = true → s.onTop = true) ∧
      ∀ p ∈ op.argument?, s.pending.head? = some (s.floor) ∧ s.operands - op.pops = s.floor + p

/-- The slots that hold iterators after an instruction that may put something else into slots. -/
def iteratorsAfter (r : Routine) (s : Shape) : Instruction → List Nat
  | .define i => if s.onTop then i :: s.iterators else s.iterators.filter (· ≠ i)
  | .write (.frame i) | .declare (.frame i) | .count i _ | .read (.frame i) .reference
  | .read (.frame i) .unique | .read (.frame i) (.argument _) => s.iterators.filter (· ≠ i)
  | .closure k _ =>
    s.iterators.filter fun i => !(r.children[k]?).any fun child => child.captures.contains ⟨i, true⟩
  | _ => s.iterators

/-- The instruction leaves an iterator on top. -/
def leavesIterator (s : Shape) : Instruction → Bool
  | .iterate _ => true
  | .read (.frame i) .value => s.iterators.contains i
  | _ => false

/-- The shape after an instruction, where the next one goes on. -/
def after (r : Routine) (s : Shape) (op : Instruction) : Shape where
  operands := s.operands - op.pops + op.pushes
  pending :=
    match op with
    | .precall => s.operands :: s.pending
    | .call .. => s.pending.tail
    | _ => s.pending
  iterators := s.iteratorsAfter r op
  onTop := s.leavesIterator op

/-- Where an instruction at `pc` goes on, and with which shape. -/
def edges (r : Routine) (pc : Nat) (s : Shape) (op : Instruction) : List (Nat × Shape) :=
  match op with
  | .jump .always target => [(target, s.after r op)]
  | .jump .ifFalse target | .jump .ifTrue target => [(target, s.after r op), (pc + 1, s.after r op)]
  | .jump .ifFalseKeep target | .jump .ifTrueKeep target => [(target, s), (pc + 1, s.after r op)]
  | .result | .throw => []
  | op => [(pc + 1, s.after r op)]

end Shape

-- ---------------------------------------------------------------------------
-- Operands of instructions
-- ---------------------------------------------------------------------------

/-- A variable that exists: a slot of the frame, a captured variable, or a name among the constants. -/
def Slot.InRange (r : Routine) : Slot → Prop
  | .frame i => i < r.frameSize
  | .captured k => k < r.captures.size
  | .global k => k < r.strings.size

/-- A captured variable that exists in the enclosing routine. -/
def Capture.InRange (r : Routine) (c : Capture) : Prop :=
  if c.fromFrame then c.index < r.frameSize else c.index < r.captures.size

/-- Everything that an instruction names exists: instructions, constants, routines, slots and captured
variables. -/
def Instruction.InRange (r : Routine) : Instruction → Prop
  | .pushInt k => k < r.integers.size
  | .pushFloat k => k < r.floats.size
  | .pushStr k | .member k _ | .setMember k => k < r.strings.size
  | .reserve n => n = r.frameSize
  | .read slot _ | .write slot | .declare slot => slot.InRange r
  | .define i | .count i _ => i < r.frameSize
  | .closure k params => ∃ child, r.children[k]? = some child ∧ params ≤ child.frameSize
  | .jump _ target => target < r.code.size
  | _ => True

-- ---------------------------------------------------------------------------
-- Routines
-- ---------------------------------------------------------------------------

/-- An assignment of shapes to the instructions of a routine. Every instruction admits its shape, and
control goes on inside the routine, with what is assigned there. -/
structure Assigned (r : Routine) (shape : Nat → Shape) : Prop where
  start : shape 0 = {}
  admits : ∀ pc op, r.Has pc op → (shape pc).Admits op
  edges : ∀ pc op, r.Has pc op → ∀ e ∈ (shape pc).edges r pc op, e.1 < r.code.size ∧ e.2 ≤ shape e.1

/-- Control can reach an instruction with a shape. -/
inductive Reaches (r : Routine) : Nat → Shape → Prop
  | start : Reaches r 0 {}
  | step {pc : Nat} {s : Shape} {op : Instruction} {e : Nat × Shape} (before : Reaches r pc s)
      (has : r.Has pc op) (edge : e ∈ s.edges r pc op) : Reaches r e.1 e.2

/-- Whenever control reaches an instruction, it does so between statements. -/
def StartsLevel (r : Routine) (pc : Nat) : Prop := ∀ s, Reaches r pc s → s.IsLevel

/-- A routine whose operands are in range, whose children find their captured variables, and whose
instructions have shapes that fit together. -/
structure WellFormed (r : Routine) : Prop where
  nonempty : r.Has 0 (.reserve r.frameSize)
  inRange : ∀ pc op, r.Has pc op → op.InRange r
  captures : ∀ child ∈ r.children, ∀ c ∈ child.captures, c.InRange r
  balanced : ∃ shape, Assigned r shape

/-- A routine and the routines of the functions in it, at any depth. -/
inductive Nested (r : Routine) : Routine → Prop
  | self : Nested r r
  | child {q child : Routine} (inside : Nested r q) (mem : child ∈ q.children) : Nested r child

/-- A routine is well formed with all routines in it. -/
def Sound (r : Routine) : Prop := ∀ q, Nested r q → WellFormed q

end Rill

/-!
# Stretches of code

A *stretch* is a piece of code with shapes for its instructions. Control enters it at its first
instruction and leaves it behind its last one, or by a jump to one of the places it names. Stretches follow
one another, and a jump back to the start of a stretch closes it to a loop. A stretch carries a consequence
that holds once it is part of an assignment for the whole routine.
-/

namespace Rill

-- ---------------------------------------------------------------------------
-- Weaker shapes
-- ---------------------------------------------------------------------------

namespace Shape

variable {r : Routine} {s t : Shape}

theorem iteratorsAfter_mono (h : s ≤ t) (op : Instruction) :
    t.iteratorsAfter r op ⊆ s.iteratorsAfter r op := by
  have hfilter (p : Nat → Bool) : t.iterators.filter p ⊆ s.iterators.filter p := fun x hx => by
    rw [List.mem_filter] at hx ⊢
    exact ⟨h.iterators hx.1, hx.2⟩
  unfold iteratorsAfter
  split
  · next i =>
    cases ht : t.onTop with
    | true =>
      rw [h.onTop ht]
      exact List.cons_subset_cons i h.iterators
    | false =>
      have hsub : t.iterators.filter (· ≠ i) ⊆ i :: s.iterators := fun x hx =>
        List.mem_cons_of_mem _ (h.iterators (List.mem_filter.mp hx).1)
      cases s.onTop with
      | true => simpa using hsub
      | false => simpa using hfilter (· ≠ i)
  all_goals first | exact hfilter _ | exact h.iterators

theorem leavesIterator_mono (h : s ≤ t) (op : Instruction) (ht : t.leavesIterator op = true) :
    s.leavesIterator op = true := by
  unfold leavesIterator at *
  split
  · rfl
  · simp only [List.contains_iff_mem] at ht ⊢
    exact h.iterators ht
  · simp_all

theorem after_mono (h : s ≤ t) (op : Instruction) : s.after r op ≤ t.after r op where
  operands := by simp only [after, h.operands]
  pending := by simp only [after, h.operands, h.pending]
  iterators := iteratorsAfter_mono h op
  onTop := leavesIterator_mono h op

/-- A shape that refines another one goes on the same ways, with shapes that refine. -/
theorem edges_mono (h : s ≤ t) {pc : Nat} {op : Instruction} {e : Nat × Shape}
    (he : e ∈ s.edges r pc op) : ∃ e' ∈ t.edges r pc op, e'.1 = e.1 ∧ e.2 ≤ e'.2 := by
  have hafter := after_mono (r := r) h op
  unfold edges at *
  split at he
  all_goals simp only [List.mem_cons, List.not_mem_nil, or_false] at he ⊢
  · exact ⟨_, rfl, by rw [he], he ▸ hafter⟩
  · rcases he with rfl | rfl
    · exact ⟨_, .inl rfl, rfl, hafter⟩
    · exact ⟨_, .inr rfl, rfl, hafter⟩
  · rcases he with rfl | rfl
    · exact ⟨_, .inl rfl, rfl, hafter⟩
    · exact ⟨_, .inr rfl, rfl, hafter⟩
  · rcases he with rfl | rfl
    · exact ⟨_, .inl rfl, rfl, h⟩
    · exact ⟨_, .inr rfl, rfl, hafter⟩
  · rcases he with rfl | rfl
    · exact ⟨_, .inl rfl, rfl, h⟩
    · exact ⟨_, .inr rfl, rfl, hafter⟩
  · exact ⟨_, rfl, by rw [he], he ▸ hafter⟩

end Shape

/-- Control reaches an instruction only with shapes that refine the assigned one. -/
theorem Assigned.reaches {r : Routine} {shape : Nat → Shape} (h : Assigned r shape) {pc : Nat} {s : Shape}
    (hs : Reaches r pc s) : s ≤ shape pc := by
  induction hs with
  | start => rw [h.start]; exact Shape.le_refl _
  | step _ has edge ih =>
    obtain ⟨e', he', hpc, hle⟩ := Shape.edges_mono ih edge
    exact hpc ▸ Shape.le_trans hle (h.edges _ _ has e' he').2

theorem Assigned.startsLevel {r : Routine} {shape : Nat → Shape} (h : Assigned r shape) {pc : Nat}
    (hpc : (shape pc).IsLevel) : StartsLevel r pc := by
  intro s hs
  have hle := h.reaches hs
  exact ⟨hle.operands.trans hpc.1, hle.pending.trans hpc.2⟩

-- ---------------------------------------------------------------------------
-- Stretches
-- ---------------------------------------------------------------------------

/-- What an instruction names exists; a function that it makes is sound and finds its captured variables. -/
structure Instruction.Fine (r : Routine) (op : Instruction) : Prop where
  inRange : (∃ test target, op = .jump test target) ∨ op.InRange r
  children : ∀ k params child, op = .closure k params → r.children[k]? = some child →
    Sound child ∧ ∀ c ∈ child.captures, c.InRange r

/-- Where control may go by jumps, and with which shapes. -/
abbrev Exits := Nat → Shape → Prop

/-- The shapes of a piece of code from `i` up to `j` fit together: it is entered with the shape `s`, ends
with `t`, and is left by jumps only through `exits`. -/
structure Balances (r : Routine) (shape : Nat → Shape) (i : Nat) (s : Shape) (j : Nat) (t : Shape)
    (exits : Exits) : Prop where
  ordered : i ≤ j
  entry : i < j → s ≤ shape i
  empty : i = j → s ≤ t
  code : ∀ n, i ≤ n → n < j → ∃ op, r.Has n op ∧ op.Fine r ∧ (shape n).Admits op ∧
    ∀ e ∈ (shape n).edges r n op, (i ≤ e.1 ∧ e.1 < j ∧ e.2 ≤ shape e.1) ∨ (e.1 = j ∧ e.2 ≤ t) ∨
      ∃ u, exits e.1 u ∧ e.2 ≤ u

/-- A piece of code with shapes that fit together, and what holds when they are part of an assignment. -/
def Stretch (r : Routine) (i : Nat) (s : Shape) (j : Nat) (t : Shape) (exits : Exits) (P : Prop) : Prop :=
  ∃ shape, Balances r shape i s j t exits ∧
    ∀ whole, Assigned r whole → (∀ n, i ≤ n → n < j → whole n = shape n) → t ≤ whole j → P

namespace Stretch

variable {r : Routine} {i j k : Nat} {s t u : Shape} {exits : Exits} {P Q : Prop}

theorem imp (h : Stretch r i s j t exits P) (hPQ : P → Q) : Stretch r i s j t exits Q := by
  obtain ⟨shape, hfits, hP⟩ := h
  exact ⟨shape, hfits, fun whole hwhole hsame hj => hPQ (hP whole hwhole hsame hj)⟩

theorem ordered (h : Stretch r i s j t exits P) : i ≤ j := h.choose_spec.1.ordered

/-- A stretch that is entered without operands starts between statements. -/
theorem startsLevel (h : Stretch r i s j t exits P) (hs : s.IsLevel) :
    Stretch r i s j t exits (StartsLevel r i ∧ P) := by
  obtain ⟨shape, hfits, hP⟩ := h
  refine ⟨shape, hfits, fun whole hwhole hsame hj => ⟨?_, hP whole hwhole hsame hj⟩⟩
  have hle : s ≤ whole i := by
    rcases Nat.eq_or_lt_of_le hfits.ordered with rfl | hlt
    · exact Shape.le_trans (hfits.empty rfl) hj
    · rw [hsame i (Nat.le_refl _) hlt]
      exact hfits.entry hlt
  exact hwhole.startsLevel ⟨hle.operands.symm.trans hs.1, hle.pending.symm.trans hs.2⟩

/-- No code at all. -/
theorem nil (hst : s ≤ t) : Stretch r i s i t exits True :=
  ⟨fun _ => s, ⟨Nat.le_refl _, fun h => absurd h (Nat.lt_irrefl _), fun _ => hst,
      fun n hlo hhi => by omega⟩,
    fun _ _ _ _ => trivial⟩

/-- One instruction. -/
theorem op {o : Instruction} (has : r.Has i o) (fine : o.Fine r) (admits : s.Admits o)
    (hedges : ∀ e ∈ s.edges r i o, (e.1 = i + 1 ∧ e.2 ≤ t) ∨ ∃ u, exits e.1 u ∧ e.2 ≤ u) :
    Stretch r i s (i + 1) t exits True := by
  refine ⟨fun _ => s, ⟨by omega, fun _ => Shape.le_refl s, by omega, fun n hlo hhi => ?_⟩,
    fun _ _ _ _ => trivial⟩
  obtain rfl : n = i := by omega
  exact ⟨o, has, fine, admits, fun e he => .inr (hedges e he)⟩

/-- One stretch after another. The first may also jump to the start of the second. -/
theorem seq (h₁ : Stretch r i s k t exits P) (h₂ : Stretch r k t j u exits Q) :
    Stretch r i s j u exits (P ∧ Q) := by
  obtain ⟨shape₁, hfits₁, hP⟩ := h₁
  obtain ⟨shape₂, hfits₂, hQ⟩ := h₂
  have hik := hfits₁.ordered
  have hkj := hfits₂.ordered
  let shape (n : Nat) : Shape := if n < k then shape₁ n else shape₂ n
  have hlow {n : Nat} (hn : n < k) : shape n = shape₁ n := if_pos hn
  have hhigh {n : Nat} (hn : k ≤ n) : shape n = shape₂ n := if_neg (Nat.not_lt.mpr hn)
  -- What ends the first piece goes on in the second one, or behind it if that has no code.
  have hmiddle {v : Shape} (hv : v ≤ t) : (k < j ∧ v ≤ shape k) ∨ (k = j ∧ v ≤ u) := by
    rcases Nat.eq_or_lt_of_le hkj with rfl | hlt
    · exact .inr ⟨rfl, Shape.le_trans hv (hfits₂.empty rfl)⟩
    · rw [hhigh (Nat.le_refl _)]
      exact .inl ⟨hlt, Shape.le_trans hv (hfits₂.entry hlt)⟩
  refine ⟨shape, ⟨Nat.le_trans hik hkj, fun hlt => ?_, fun heq => ?_, fun n hlo hhi => ?_⟩, ?_⟩
  · rcases Nat.eq_or_lt_of_le hik with rfl | hlt'
    · rw [hhigh (Nat.le_refl _)]
      exact Shape.le_trans (hfits₁.empty rfl) (hfits₂.entry hlt)
    · rw [hlow hlt']
      exact hfits₁.entry hlt'
  · exact Shape.le_trans (hfits₁.empty (by omega)) (hfits₂.empty (by omega))
  · rcases Nat.lt_or_ge n k with hn | hn
    · obtain ⟨o, has, fine, admits, hedges⟩ := hfits₁.code n hlo hn
      rw [hlow hn]
      refine ⟨o, has, fine, admits, fun e he => ?_⟩
      rcases hedges e he with ⟨hi, hk, hle⟩ | ⟨hk, hle⟩ | hexit
      · exact .inl ⟨hi, by omega, by rwa [hlow hk]⟩
      · rcases hmiddle hle with ⟨hlt, hle⟩ | ⟨heq, hle⟩
        · exact .inl ⟨by omega, by omega, hk ▸ hle⟩
        · exact .inr (.inl ⟨hk.trans heq, hle⟩)
      · exact .inr (.inr hexit)
    · obtain ⟨o, has, fine, admits, hedges⟩ := hfits₂.code n hn hhi
      rw [hhigh hn]
      refine ⟨o, has, fine, admits, fun e he => ?_⟩
      rcases hedges e he with ⟨hk, hj, hle⟩ | hend | hexit
      · exact .inl ⟨by omega, hj, by rwa [hhigh hk]⟩
      · exact .inr (.inl hend)
      · exact .inr (.inr hexit)
  · intro whole hwhole hsame hj
    refine ⟨hP whole hwhole (fun n hlo hhi => ?_) ?_, hQ whole hwhole (fun n hlo hhi => ?_) hj⟩
    · rw [hsame n hlo (by omega), hlow hhi]
    · rcases hmiddle (Shape.le_refl t) with ⟨hlt, hle⟩ | ⟨rfl, hle⟩
      · rw [hsame k hik hlt]
        exact hle
      · exact Shape.le_trans hle hj
    · rw [hsame n (by omega) hhi, hhigh hlo]

/-- Exits may be narrowed to the end of the stretch and to other exits. -/
theorem mono {E : Exits} (h : Stretch r i s j t exits P)
    (hexits : ∀ n v, exits n v → (n = j ∧ v ≤ t) ∨ ∃ w, E n w ∧ v ≤ w) :
    Stretch r i s j t E P := by
  obtain ⟨shape, hfits, hP⟩ := h
  refine ⟨shape, { hfits with code := fun n hlo hhi => ?_ }, hP⟩
  obtain ⟨o, has, fine, admits, hedges⟩ := hfits.code n hlo hhi
  refine ⟨o, has, fine, admits, fun e he => ?_⟩
  rcases hedges e he with hin | hend | ⟨v, hv, hle⟩
  · exact .inl hin
  · exact .inr (.inl hend)
  · rcases hexits _ v hv with ⟨hj, hvt⟩ | ⟨w, hw, hvw⟩
    · exact .inr (.inl ⟨hj, Shape.le_trans hle hvt⟩)
    · exact .inr (.inr ⟨w, hw, Shape.le_trans hle hvw⟩)

/-- A stretch may be entered with more, and promise less at its end. -/
theorem weaken {s' t' : Shape} (h : Stretch r i s j t exits P) (hs : s' ≤ s) (ht : t ≤ t') :
    Stretch r i s' j t' exits P := by
  obtain ⟨shape, hfits, hP⟩ := h
  refine ⟨shape, ⟨hfits.ordered, fun hlt => Shape.le_trans hs (hfits.entry hlt),
    fun heq => Shape.le_trans hs (Shape.le_trans (hfits.empty heq) ht), fun n hlo hhi => ?_⟩,
    fun whole hwhole hsame hj => hP whole hwhole hsame (Shape.le_trans ht hj)⟩
  obtain ⟨o, has, fine, admits, hedges⟩ := hfits.code n hlo hhi
  refine ⟨o, has, fine, admits, fun e he => ?_⟩
  rcases hedges e he with hin | ⟨hj, hle⟩ | hexit
  · exact .inl hin
  · exact .inr (.inl ⟨hj, Shape.le_trans hle ht⟩)
  · exact .inr (.inr hexit)

/-- Jumps back to the start of a stretch make it a loop. -/
theorem loop (h : Stretch r i s j t (fun n v => (n = i ∧ v = s) ∨ exits n v) P) (hlt : i < j) :
    Stretch r i s j t exits P := by
  obtain ⟨shape, hfits, hP⟩ := h
  refine ⟨shape, { hfits with code := fun n hlo hhi => ?_ }, hP⟩
  obtain ⟨o, has, fine, admits, hedges⟩ := hfits.code n hlo hhi
  refine ⟨o, has, fine, admits, fun e he => ?_⟩
  rcases hedges e he with hin | hend | ⟨v, ⟨hi, rfl⟩ | hexit, hle⟩
  · exact .inl hin
  · exact .inr (.inl hend)
  · exact .inl ⟨by omega, by omega, hi ▸ Shape.le_trans hle (hfits.entry hlt)⟩
  · exact .inr (.inr ⟨v, hexit, hle⟩)

end Stretch

end Rill
