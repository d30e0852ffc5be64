-- SUMMARY: Slots that no name of a text denotes, and how statements extend the visible names.
import Rill.Proofs.Layout.Names
import Rill.Proofs.Syntax.Proper

/-!
# Slots

A statement gives new names new slots, and names keep their slots. So a slot that holds an iterator, which
no name of the text denotes, stays out of reach of the statements inside the loop.
-/

namespace Rill.Layout

namespace Env

-- ---------------------------------------------------------------------------
-- Extensions
-- ---------------------------------------------------------------------------

/-- Later names are earlier ones or have slots that were not taken before. -/
structure Extends (Γ Γ' : Env) : Prop where
  taken : Γ.taken ≤ Γ'.taken
  names : ∀ b ∈ Γ'.names, b ∈ Γ.names ∨ (Γ.taken ≤ b.slot ∧ b.slot < Γ'.taken)

theorem Extends.refl (Γ : Env) : Γ.Extends Γ := ⟨Nat.le_refl _, fun _ hb => .inl hb⟩

theorem Extends.trans {Γ₁ Γ₂ Γ₃ : Env} (h : Γ₁.Extends Γ₂) (h' : Γ₂.Extends Γ₃) : Γ₁.Extends Γ₃ := by
  refine ⟨Nat.le_trans h.taken h'.taken, fun b hb => ?_⟩
  have htaken := h.taken
  have htaken' := h'.taken
  rcases h'.names b hb with hmid | ⟨hlo, hhi⟩
  · rcases h.names b hmid with hold | ⟨hlo, hhi⟩
    · exact .inl hold
    · exact .inr ⟨hlo, by omega⟩
  · exact .inr ⟨by omega, hhi⟩

theorem Extends.enter (Γ : Env) : Γ.Extends Γ.enter := ⟨Nat.le_refl _, fun _ hb => .inl hb⟩

theorem Extends.declare (Γ : Env) (name : String) : Γ.Extends (Γ.declare name) := by
  refine ⟨Nat.le_succ _, fun b hb => ?_⟩
  rcases List.mem_cons.mp hb with rfl | hb
  · exact .inr ⟨Nat.le_refl _, Nat.lt_succ_self _⟩
  · exact .inl hb

theorem Extends.declareAll (Γ : Env) (names : List String) : Γ.Extends (Γ.declareAll names) := by
  induction names generalizing Γ with
  | nil => exact .refl Γ
  | cons name names ih => exact (Extends.declare Γ name).trans (ih _)

theorem Extends.leave {Γ Γ' : Env} (h : Γ.Extends Γ') : Γ.Extends Γ'.leave :=
  ⟨h.taken, fun b hb => h.names b (List.mem_filter.mp hb).1⟩

end Env

-- ---------------------------------------------------------------------------
-- Statements
-- ---------------------------------------------------------------------------

mutual

theorem envAfter_extends (debug : Bool) (Γ : Env) (s : Stmt) : Γ.Extends (envAfter debug Γ s) := by
  match s with
  | .declare _ names _ => exact .declareAll Γ names
  | .function _ isLocal name _ =>
    simp only [envAfter]
    split
    · split
      · exact .refl Γ
      · exact .declare Γ name
    · exact .refl Γ
  | .branch _ arms none => exact envAfterArms_extends debug Γ arms
  | .branch _ arms (some body) =>
    exact (envAfterArms_extends debug Γ arms).trans (envAfterBlock_extends debug _ body)
  | .whileLoop _ _ body => exact envAfterBlock_extends debug Γ body
  | .repeatLoop _ ⟨_, stmts⟩ _ =>
    exact ((Env.Extends.enter Γ).trans (envAfterAll_extends debug _ stmts)).leave
  | .forLoop _ counter _ _ _ step body =>
    refine Env.Extends.leave ((Env.Extends.enter Γ).trans ?_)
    exact (Env.Extends.declareAll _ _).trans (envAfterBlock_extends debug _ body)
  | .foreachLoop _ key value _ _ ⟨_, stmts⟩ =>
    refine Env.Extends.leave (Env.Extends.leave ((Env.Extends.enter Γ).trans ?_))
    refine (Env.Extends.declare _ "$iter").trans ((Env.Extends.enter _).trans ?_)
    exact (Env.Extends.declareAll _ _).trans (envAfterAll_extends debug _ stmts)
  | .debug _ body =>
    simp only [envAfter]
    split
    · exact envAfterBlock_extends debug Γ body
    · exact .refl Γ
  | .block _ body => exact envAfterBlock_extends debug Γ body
  | .expr .. | .assign .. | .print .. | .result .. | .leave _ | .next _ | .pass _ | .assert ..
  | .throw .. => exact .refl Γ

theorem envAfterAll_extends (debug : Bool) (Γ : Env) (stmts : List Stmt) :
    Γ.Extends (envAfterAll debug Γ stmts) := by
  match stmts with
  | [] => exact .refl Γ
  | s :: rest => exact (envAfter_extends debug Γ s).trans (envAfterAll_extends debug _ rest)

theorem envAfterBlock_extends (debug : Bool) (Γ : Env) (body : Block) :
    Γ.Extends (envAfterBlock debug Γ body) := by
  match body with
  | ⟨_, stmts⟩ => exact ((Env.Extends.enter Γ).trans (envAfterAll_extends debug _ stmts)).leave

theorem envAfterArms_extends (debug : Bool) (Γ : Env) (arms : List (Expr × Block)) :
    Γ.Extends (envAfterArms debug Γ arms) := by
  match arms with
  | [] => exact .refl Γ
  | (_, body) :: rest =>
    exact (envAfterBlock_extends debug Γ body).trans (envAfterArms_extends debug _ rest)

end

theorem envAfterOption_extends (debug : Bool) (Γ : Env) (body : Option Block) :
    Γ.Extends (envAfterOption debug Γ body) := by
  cases body with
  | none => exact .refl Γ
  | some body => exact envAfterBlock_extends debug Γ body

-- ---------------------------------------------------------------------------
-- Slots out of reach
-- ---------------------------------------------------------------------------

/-- The names of a text denote taken slots, and none of the hidden ones. -/
structure Hides (Γ : Env) (hidden : List Nat) : Prop where
  bound : ∀ i ∈ hidden, i < Γ.taken
  names : ∀ b ∈ Γ.names, b.slot < Γ.taken ∧ (IsName b.name → b.slot ∉ hidden)

theorem Hides.empty (depth : Nat) : Hides { depth := depth } [] := ⟨by simp, by simp⟩

theorem Hides.mono {Γ Γ' : Env} {hidden : List Nat} (h : Hides Γ hidden) (hΓ : Γ.Extends Γ') :
    Hides Γ' hidden := by
  have htaken := hΓ.taken
  refine ⟨fun i hi => Nat.lt_of_lt_of_le (h.bound i hi) htaken, fun b hb => ?_⟩
  rcases hΓ.names b hb with hold | ⟨hlo, hhi⟩
  · exact ⟨Nat.lt_of_lt_of_le (h.names b hold).1 htaken, (h.names b hold).2⟩
  · exact ⟨hhi, fun _ hmem => by have := h.bound _ hmem; omega⟩

/-- A slot that gets a name no text can spell is hidden. -/
theorem Hides.declare {Γ : Env} {hidden : List Nat} {name : String} (h : Hides Γ hidden)
    (hname : ¬IsName name) : Hides (Γ.declare name) (Γ.taken :: hidden) := by
  constructor
  · intro i hi
    rw [Env.declare_taken]
    rcases List.mem_cons.mp hi with rfl | hi
    · exact Nat.lt_succ_self _
    · exact Nat.lt_succ_of_lt (h.bound i hi)
  · intro b hb
    rw [Env.declare_taken]
    rcases List.mem_cons.mp hb with rfl | hb
    · exact ⟨Nat.lt_succ_self _, fun hb => absurd hb hname⟩
    · obtain ⟨hlt, hfree⟩ := h.names b hb
      refine ⟨Nat.lt_succ_of_lt hlt, fun hb hmem => ?_⟩
      rcases List.mem_cons.mp hmem with heq | hmem
      · omega
      · exact hfree hb hmem

/-- The slot of a name of the text. -/
theorem Hides.find {Γ : Env} {hidden : List Nat} {name : String} {slot : Nat} (h : Hides Γ hidden)
    (hname : IsName name) (hfind : Γ.find? name = some slot) : slot < Γ.taken ∧ slot ∉ hidden := by
  simp only [Env.find?, Option.map_eq_some_iff] at hfind
  obtain ⟨b, hb, rfl⟩ := hfind
  have hmem := List.mem_of_find?_eq_some hb
  have heq : b.name = name := by simpa using List.find?_some hb
  exact ⟨(h.names b hmem).1, (h.names b hmem).2 (heq ▸ hname)⟩

/-- The slot of a name of the text that is declared in the innermost scope. -/
theorem Hides.inScope {Γ : Env} {hidden : List Nat} {name : String} {slot : Nat} (h : Hides Γ hidden)
    (hname : IsName name) (hfind : Γ.inScope? name = some slot) : slot < Γ.taken ∧ slot ∉ hidden := by
  simp only [Env.inScope?, Option.map_eq_some_iff] at hfind
  obtain ⟨b, hb, rfl⟩ := hfind
  have hmem := List.mem_of_find?_eq_some hb
  have heq : b.name = name := by
    have := List.find?_some hb
    simp only [Bool.and_eq_true, beq_iff_eq] at this
    exact this.2
  exact ⟨(h.names b hmem).1, (h.names b hmem).2 (heq ▸ hname)⟩

theorem not_isName_iter : ¬IsName "$iter" := by simp [IsName]

end Rill.Layout
