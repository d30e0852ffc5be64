-- SUMMARY: Every definition of the grammar makes progress and builds nodes that stand on the tokens it reads.
import Rill.Proofs.Syntax.Progress

/-!
# Gathering nodes

One lemma per definition of the grammar. A definition with a limit does not run out of it from a cursor
with fewer tokens behind it: each round of a loop and each level of recursion reads a token. A definition
that is given the start of its node is followed from the cursor `c₀` that was there.
-/

namespace Rill.Grammar

open Rill.Parser

variable {s : Scan} {n : Nat}

-- ---------------------------------------------------------------------------
-- Lists between brackets
-- ---------------------------------------------------------------------------

section Expressions

variable {nested : Parser Expr} {body : Context → Parser Block} {operand : Parser Expr} {c₀ c : Cursor}
  {nodes : List TreeNode}

theorem itemsUntil_gathers (hn : Gathers s n nested Expr.nodes) (close : Mark) (context : Context)
    (limit : Nat) : Gathers s (min n limit) (itemsUntil nested close context limit) exprNodes := by
  induction limit with
  | zero => exact fun c _ hlt => absurd hlt (by omega)
  | succ limit ih =>
    intro c hc hlt
    refine hn.step hc.refl (by omega) fun item c₁ h₁ _ => ?_
    refine skipNewlines_step h₁ fun c₂ h₂ _ => acceptMark_step h₂ (fun c₃ h₃ _ => ?_) ?_
    · refine skipNewlines_step h₃ fun c₄ h₄ _ => kind_step (.ite (fun _ => ?_) (fun _ => ?_))
      · exact expectMark_step h₄ fun c₅ h₅ _ => .pure ⟨h₅, by omega⟩
      · exact ih.step h₄ (by omega) fun items c₅ h₅ _ => .pure ⟨h₅, by omega⟩
    · exact expectMark_step h₂ fun c₃ h₃ _ => .pure ⟨h₃, by omega⟩

theorem commaList_gathers (limit : Nat) (hn : Gathers s n nested Expr.nodes) (close : Mark)
    (context : Context) : Gathers s (min n limit) (commaList limit nested close context) exprNodes := by
  intro c hc hlt
  refine skipNewlines_step hc.refl fun c₁ h₁ _ => acceptMark_step h₁ (fun c₂ h₂ _ => ?_) ?_
  · exact .pure ⟨h₂, by omega⟩
  · refine (itemsUntil_gathers hn close context limit c₁ h₁.last (by omega)).mono fun items c₂ ⟨h₂, _⟩ => ?_
    exact ⟨h₁.trans h₂, by omega⟩

theorem arrayRows_gathers (hn : Gathers s n nested Expr.nodes) (limit : Nat) (cols : Option Nat)
    (row : Nat) : Gathers s (min n limit) (arrayRows nested limit cols row) fun r => exprNodes r.1 := by
  induction limit generalizing cols row with
  | zero => exact fun c _ hlt => absurd hlt (by omega)
  | succ limit ih =>
    intro c hc hlt
    refine hn.step hc.refl (by omega) fun item c₁ h₁ _ => ?_
    refine skipNewlines_step h₁ fun c₂ h₂ _ => acceptMark_step h₂ (fun c₃ h₃ _ => ?_) ?_
    · refine skipNewlines_step h₃ fun c₄ h₄ _ => ?_
      exact (ih cols (row + 1)).step h₄ (by omega) fun r c₅ h₅ _ => .pure ⟨h₅, by omega⟩
    · refine kind_step (.ite (fun _ => ?_) (fun _ => .pure ⟨h₂, by omega⟩))
      refine .refuse h₂.last trivial fun _ => .ite (fun hnext => ?_) (fun _ => .pure ⟨h₂, by omega⟩)
      refine advance_step h₂ (hnext ▸ trivial) fun c₃ h₃ _ => skipNewlines_step h₃ fun c₄ h₄ _ => ?_
      exact (ih (some (row + 1)) 0).step h₄ (by omega) fun r c₅ h₅ _ => .pure ⟨h₅, by omega⟩

theorem arrayLiteral_arrives (limit : Nat) (hn : Gathers s n nested Expr.nodes) (h : Gathered s c₀ [] c)
    (hread : c.rest.length < c₀.rest.length) (hlt : c.rest.length < min n limit) :
    Arrives s (arrayLiteral limit nested c₀.mark) c fun e c' =>
      Gathered s c₀ e.nodes c' ∧ c'.rest.length < c₀.rest.length := by
  refine skipNewlines_step h fun c₁ h₁ _ => acceptMark_step h₁ (fun c₂ h₂ _ => ?_) ?_
  · exact siteFrom_step (.pure ⟨h₂.node (by omega) rfl rfl, by omega⟩)
  · refine (arrayRows_gathers hn limit none 0).step h₁ (by omega) fun r c₂ h₂ _ => ?_
    refine expectMark_step h₂ fun c₃ h₃ _ => siteFrom_step (.pure ?_)
    exact ⟨h₃.node (by omega) rfl rfl, by omega⟩

theorem tableEntries_gathers (hn : Gathers s n nested Expr.nodes) (limit : Nat) :
    Gathers s (min n limit) (tableEntries nested limit) (List.flatMap entryNodes) := by
  induction limit with
  | zero => exact fun c _ hlt => absurd hlt (by omega)
  | succ limit ih =>
    intro c hc hlt
    refine skipNewlines_step hc.refl fun c₁ h₁ _ => acceptMark_step h₁ (fun c₂ h₂ _ => ?_) ?_
    · refine skipNewlines_step h₂ fun c₃ h₃ _ => kind_step (.ite (fun _ => ?_) (fun _ => ?_))
      · exact expectMark_step h₃ fun c₄ h₄ _ => .pure ⟨h₄, by omega⟩
      · refine hn.step h₃ (by omega) fun key c₄ h₄ _ => expectMark_step h₄ fun c₅ h₅ _ => ?_
        refine hn.step h₅ (by omega) fun value c₆ h₆ _ => ?_
        exact ih.step h₆ (by omega) fun entries c₇ h₇ _ => .pure ⟨h₇, by omega⟩
    · exact expectMark_step h₁ fun c₂ h₂ _ => .pure ⟨h₂, by omega⟩

theorem braceLiteral_arrives (limit : Nat) (hn : Gathers s n nested Expr.nodes) (h : Gathered s c₀ [] c)
    (hread : c.rest.length < c₀.rest.length) (hlt : c.rest.length < min n limit) :
    Arrives s (braceLiteral limit nested c₀.mark) c fun e c' =>
      Gathered s c₀ e.nodes c' ∧ c'.rest.length < c₀.rest.length := by
  refine skipNewlines_step h fun c₁ h₁ _ => acceptMark_step h₁ (fun c₂ h₂ _ => ?_) ?_
  · exact siteFrom_step (.pure ⟨h₂.node (by omega) rfl rfl, by omega⟩)
  refine hn.step h₁ (by omega) fun first c₂ h₂ _ => acceptMark_step h₂ (fun c₃ h₃ _ => ?_) ?_
  · refine hn.step h₃ (by omega) fun value c₄ h₄ _ => ?_
    refine (tableEntries_gathers hn limit).step h₄ (by omega) fun entries c₅ h₅ _ => ?_
    exact siteFrom_step (.pure ⟨h₅.node (by omega) rfl rfl, by omega⟩)
  · refine skipNewlines_step h₂ fun c₃ h₃ _ => acceptMark_step h₃ (fun c₄ h₄ _ => ?_) ?_
    · refine (commaList_gathers limit hn _ _).step h₄ (by omega) fun items c₅ h₅ _ => ?_
      exact siteFrom_step (.pure ⟨h₅.node (by omega) rfl rfl, by omega⟩)
    · refine expectMark_step h₃ fun c₄ h₄ _ => siteFrom_step (.pure ?_)
      exact ⟨h₄.node (by omega) rfl rfl, by omega⟩

/-- An expression that stands only after a keyword or a mark. -/
theorem optional_step {β : Type} {f : Option Expr → Parser β} {Q : β → Cursor → Prop} {present : Bool}
    (hn : Gathers s n nested Expr.nodes) (h : Gathered s c₀ nodes c) (hlt : c.rest.length < n)
    (hf : ∀ e c', Gathered s c₀ (nodes ++ exprNodes e.toList) c' → c'.rest.length ≤ c.rest.length →
      Arrives s (f e) c' Q) :
    Arrives s (if present = true then some <$> nested >>= f else pure none >>= f) c Q := by
  refine .join (.ite (fun _ => ?_) (fun _ => .pure (hf none c ?_ le_rfl)))
  · rw [map_eq_pure_bind]
    exact hn.step h hlt fun e c' h' hlt' => .pure (hf (some e) c' h' hlt'.le)
  · exact h.trans h.last.refl

-- ---------------------------------------------------------------------------
-- Function literals
-- ---------------------------------------------------------------------------

theorem paramsAfter_gathers (hn : Gathers s n nested Expr.nodes) (limit : Nat) (names : List String) :
    Gathers s (min n limit) (paramsAfter nested limit names) (List.flatMap Param.nodes) := by
  induction limit generalizing names with
  | zero => exact fun c _ hlt => absurd hlt (by omega)
  | succ limit ih =>
    intro c hc hlt
    refine here_step (acceptKw_either hc.refl fun byRef c₁ h₁ _ => ident_step h₁ fun name c₂ h₂ _ => ?_)
    refine .refuse h₂.last trivial fun _ => acceptKw_either h₂ fun typed c₃ h₃ _ => ?_
    refine optional_step hn h₃ (by omega) fun type c₄ h₄ _ => skipNewlines_step h₄ fun c₅ h₅ _ => ?_
    refine acceptMark_step h₅ (fun c₆ h₆ _ => ?_) (.pure ⟨h₅.trans h₅.last.refl, by omega⟩)
    refine skipNewlines_step h₆ fun c₇ h₇ _ => ?_
    exact (ih _).step h₇ (by omega) fun params c₈ h₈ _ => .pure ⟨h₈, by omega⟩

theorem parameters_gathers (limit : Nat) (hn : Gathers s n nested Expr.nodes) :
    Gathers s (min n limit) (parameters limit nested) (List.flatMap Param.nodes) := by
  intro c hc hlt
  refine skipNewlines_step hc.refl fun c₁ h₁ _ => acceptMark_step h₁ (fun c₂ h₂ _ => ?_) ?_
  · exact .pure ⟨h₂, by omega⟩
  · refine (paramsAfter_gathers hn limit []).step h₁ (by omega) fun params c₂ h₂ _ => ?_
    refine .refuse h₂.last trivial fun _ => expectMark_step h₂ fun c₃ h₃ _ => ?_
    exact .pure ⟨h₃, by omega⟩

-- ---------------------------------------------------------------------------
-- Primaries and postfix steps
-- ---------------------------------------------------------------------------

/-- A token that is an expression of its own. -/
theorem atom_arrives {e : Site → Expr} (hc : c.IsOn s) (hkind : c.token.kind.Plain)
    (hsite : ∀ site, (e site).site = site) (hchildren : ∀ site, (e site).children = []) :
    Arrives s (do advance; return e (← siteFrom c.mark)) c fun e c' =>
      Gathered s c e.nodes c' ∧ c'.rest.length < c.rest.length :=
  advance_step hc.refl hkind fun _ h hlt =>
    siteFrom_step (.pure ⟨h.node hlt (hsite _) (hchildren _), hlt⟩)

theorem primary_gathers (limit : Nat) (hn : Gathers s n nested Expr.nodes) :
    Gathers s (min n limit + 1) (primary limit nested) Expr.nodes := by
  intro c hc hlt
  refine here_step (kind_step ?_)
  split
  case h_3 hkind =>
    exact .ite (fun hn => atom_arrives hc (hkind ▸ hn) (fun _ => rfl) fun _ => rfl)
      (fun _ => .fail hc trivial)
  case h_9 hkind =>
    refine advance_step hc.refl (hkind ▸ trivial) fun c₁ h₁ _ => ?_
    refine (commaList_gathers limit hn _ _).step h₁ (by omega) fun items c₂ h₂ _ => ?_
    exact siteFrom_step (.pure ⟨h₂.node (by omega) rfl rfl, by omega⟩)
  case h_10 hkind =>
    refine advance_step hc.refl (hkind ▸ trivial) fun c₁ h₁ _ => expectMark_step h₁ fun c₂ h₂ _ => ?_
    exact arrayLiteral_arrives limit hn h₂ (by omega) (by omega)
  case h_11 hkind =>
    refine advance_step hc.refl (hkind ▸ trivial) fun c₁ h₁ _ => ?_
    exact braceLiteral_arrives limit hn h₁ (by omega) (by omega)
  case h_12 hkind =>
    refine advance_step hc.refl (hkind ▸ trivial) fun c₁ h₁ _ => skipNewlines_step h₁ fun c₂ h₂ _ => ?_
    refine hn.step h₂ (by omega) fun inner c₃ h₃ _ => skipNewlines_step h₃ fun c₄ h₄ _ => ?_
    exact expectMark_step h₄ fun c₅ h₅ _ => .pure ⟨h₅, by omega⟩
  case h_13 => exact .expected hc
  all_goals
    next hkind => exact atom_arrives hc (hkind ▸ trivial) (fun _ => rfl) fun _ => rfl

theorem operandHead_gathers {limit : Nat} (hn : Gathers s n nested Expr.nodes)
    (hb : ∀ context, Gathers s n (body context) Block.nodes) :
    Gathers s (min n limit + 1) (operandHead limit nested body) Expr.nodes := by
  intro c hc hlt
  refine here_step (acceptKw_step hc.refl (fun c₁ h₁ _ => ?_) ?_)
  · refine hn.step h₁ (by omega) fun target c₂ h₂ _ => ?_
    exact siteFrom_step (.pure ⟨h₂.node (by omega) rfl rfl, by omega⟩)
  refine acceptKw_step hc.refl (fun c₁ h₁ _ => ?_) (primary_gathers limit hn c hc hlt)
  refine expectMark_step h₁ fun c₂ h₂ _ => ?_
  refine (parameters_gathers limit hn).step h₂ (by omega) fun params c₃ h₃ _ => ?_
  refine (hb _).step h₃ (by omega) fun block c₄ h₄ _ => ?_
  exact siteFrom_step (.pure ⟨h₄.node (by omega) rfl rfl, by omega⟩)

theorem postfixSteps_arrives (hn : Gathers s n nested Expr.nodes) {limit : Nat} {e : Expr}
    (h : Gathered s c₀ e.nodes c) (hread : c.rest.length < c₀.rest.length)
    (hlt : c.rest.length < min n limit) :
    Arrives s (postfixSteps nested c₀.mark limit e) c fun e c' =>
      Gathered s c₀ e.nodes c' ∧ c'.rest.length < c₀.rest.length := by
  induction limit generalizing e c with
  | zero => exact absurd hlt (by omega)
  | succ limit ih =>
    refine acceptMark_step h (fun c₁ h₁ _ => ?_) (acceptMark_step h (fun c₁ h₁ _ => ?_) ?_)
    · refine ident_step h₁ fun name c₂ h₂ _ => siteFrom_step ?_
      exact ih (h₂.node (by omega) rfl rfl) (by omega) (by omega)
    · refine (commaList_gathers limit hn _ _).step h₁ (by omega) fun indices c₂ h₂ _ => ?_
      refine .refuse h₂.last trivial fun _ => siteFrom_step ?_
      exact ih (h₂.node (by omega) rfl rfl) (by omega) (by omega)
    refine acceptMark_step h (fun c₁ h₁ _ => ?_) (.pure ⟨h, hread⟩)
    refine (commaList_gathers limit hn _ _).step h₁ (by omega) fun args c₂ h₂ _ => siteFrom_step ?_
    exact ih (h₂.node (by omega) rfl rfl) (by omega) (by omega)

theorem postfixExpr_gathers {limit : Nat} (hn : Gathers s n nested Expr.nodes)
    (hb : ∀ context, Gathers s n (body context) Block.nodes) :
    Gathers s (min n limit + 1) (postfixExpr limit nested body) Expr.nodes := by
  intro c hc hlt
  refine here_step ((operandHead_gathers hn hb).step hc.refl hlt fun head c₁ h₁ _ => ?_)
  exact postfixSteps_arrives hn h₁ (by omega) (by omega)

-- ---------------------------------------------------------------------------
-- Operators
-- ---------------------------------------------------------------------------

theorem chainLeft_arrives {op? : TokenKind → Option BinaryOp} (heof : op? .eof = none)
    (hint : ∀ n, op? (.int n) = none)
    (ho : Gathers s n operand Expr.nodes) {limit : Nat} {left : Expr} (h : Gathered s c₀ left.nodes c)
    (hread : c.rest.length < c₀.rest.length) (hlt : c.rest.length < min n limit) :
    Arrives s (chainLeft op? operand c₀.mark limit left) c fun e c' =>
      Gathered s c₀ e.nodes c' ∧ c'.rest.length < c₀.rest.length := by
  induction limit generalizing left c with
  | zero => exact absurd hlt (by omega)
  | succ limit ih =>
    refine kind_step ?_
    split
    · exact .pure ⟨h, hread⟩
    · next op hkind =>
      refine advance_step h (.of_some heof hint hkind) fun c₁ h₁ _ => ho.step h₁ (by omega) fun right c₂ h₂ _ => ?_
      exact siteFrom_step (ih (h₂.node (by omega) rfl rfl) (by omega) (by omega))

/-- Operands with the operators of one layer between them. -/
theorem chain_gathers {op? : TokenKind → Option BinaryOp} (heof : op? .eof = none)
    (hint : ∀ n, op? (.int n) = none)
    (ho : Gathers s n operand Expr.nodes) {limit : Nat} (hlimit : n ≤ limit) :
    Gathers s n (do
      let start ← here
      let left ← operand
      chainLeft op? operand start limit left) Expr.nodes := by
  intro c hc hlt
  refine here_step (ho.step hc.refl hlt fun left c₁ h₁ _ => ?_)
  exact chainLeft_arrives heof hint ho h₁ (by omega) (by omega)

theorem power_gathers (ho : Gathers s n operand Expr.nodes) {limit : Nat} (hlimit : n ≤ limit) :
    Gathers s n (power limit operand) Expr.nodes :=
  chain_gathers rfl (fun _ => rfl) ho hlimit

theorem product_gathers (ho : Gathers s n operand Expr.nodes) {limit : Nat} (hlimit : n ≤ limit) :
    Gathers s n (product limit operand) Expr.nodes :=
  chain_gathers rfl (fun _ => rfl) ho hlimit

/-- The sign in front of a literal is part of it, and otherwise a node above the operand. -/
theorem negated_gathered {e : Expr} (h : Gathered s c₀ e.nodes c)
    (hread : c.rest.length < c₀.rest.length) : Gathered s c₀ (negated (c₀.siteTo c) e).nodes c := by
  unfold negated
  split
  · next site n =>
    obtain ⟨hstart, hstop⟩ := h.row.inside _ (List.mem_singleton_self _)
    rw [← h.siteTo_stop hread] at hstop
    exact h.replace (h.row_node hread .nil rfl rfl) fun _ _ hat => hat.neg hstart hstop
  · exact h.replace (h.row_node hread .nil rfl rfl) fun _ _ hat => (hat.children nofun).not_nil.elim
  · exact h.node hread rfl rfl

theorem signed_gathers (ho : Gathers s n operand Expr.nodes) :
    Gathers s n (signed operand) Expr.nodes := by
  intro c hc hlt
  refine here_step (acceptMark_read hc.refl (fun c₁ hsign hfirst h₁ _ => ?_) (ho c hc hlt))
  refine kind_step (.ite (fun hkind => ?_) (fun _ => ?_))
  · refine moves_step h₁.last (by simp [hkind]) fun c₂ hsecond => ?_
    obtain ⟨h₂, _⟩ := h₁.smallest hfirst hsign hkind hsecond
    refine kind_step (.refuse h₂.last trivial fun _ => siteFrom_step (.pure ⟨h₂, by omega⟩))
  · refine ho.step h₁ (by omega) fun e c₂ h₂ _ => siteFrom_step (.pure ?_)
    exact ⟨negated_gathered h₂ (by omega), by omega⟩

theorem concatParts_gathers (ho : Gathers s n operand Expr.nodes) (limit : Nat) :
    Gathers s (min n limit) (concatParts operand limit) exprNodes := by
  induction limit with
  | zero => exact fun c _ hlt => absurd hlt (by omega)
  | succ limit ih =>
    intro c hc hlt
    refine skipNewlines_step hc.refl fun c₁ h₁ _ => ho.step h₁ (by omega) fun part c₂ h₂ _ => ?_
    refine acceptMark_step h₂ (fun c₃ h₃ _ => ?_) (.pure ⟨h₂, by omega⟩)
    exact ih.step h₃ (by omega) fun parts c₄ h₄ _ => .pure ⟨h₄, by omega⟩

theorem sum_gathers (ho : Gathers s n operand Expr.nodes) {limit : Nat} (hlimit : n ≤ limit) :
    Gathers s n (sum limit operand) Expr.nodes := by
  intro c hc hlt
  refine here_step (ho.step hc.refl hlt fun left c₁ h₁ _ => acceptMark_step h₁ (fun c₂ h₂ _ => ?_) ?_)
  · refine (concatParts_gathers ho limit).step h₂ (by omega) fun parts c₃ h₃ _ => siteFrom_step (.pure ?_)
    exact ⟨h₃.node (by omega) rfl rfl, by omega⟩
  · exact chainLeft_arrives rfl (fun _ => rfl) ho h₁ (by omega) (by omega)

theorem comparison_gathers (ho : Gathers s n operand Expr.nodes) :
    Gathers s n (comparison operand) Expr.nodes := by
  intro c hc hlt
  refine here_step (ho.step hc.refl hlt fun left c₁ h₁ _ => kind_step ?_)
  split
  · exact .pure ⟨h₁, by omega⟩
  · next op hkind =>
    refine advance_step h₁ (.of_some rfl (fun _ => rfl) hkind) fun c₂ h₂ _ => ho.step h₂ (by omega) fun right c₃ h₃ _ => ?_
    refine kind_step (.refuse h₃.last trivial fun _ => siteFrom_step (.pure ?_))
    exact ⟨h₃.node (by omega) rfl rfl, by omega⟩

theorem negation_gathers (ho : Gathers s n operand Expr.nodes) (limit : Nat) :
    Gathers s (min n limit) (negation operand limit) Expr.nodes := by
  induction limit with
  | zero => exact fun c _ hlt => absurd hlt (by omega)
  | succ limit ih =>
    intro c hc hlt
    refine here_step (acceptKw_step hc.refl (fun c₁ h₁ _ => ?_) (ho c hc (by omega)))
    refine ih.step h₁ (by omega) fun e c₂ h₂ _ => siteFrom_step (.pure ?_)
    exact ⟨h₂.node (by omega) rfl rfl, by omega⟩

theorem chainRight_gathers (word : Keyword) (op : LogicalOp) (ho : Gathers s n operand Expr.nodes)
    (limit : Nat) : Gathers s (min n limit) (chainRight word op operand limit) Expr.nodes := by
  induction limit with
  | zero => exact fun c _ hlt => absurd hlt (by omega)
  | succ limit ih =>
    intro c hc hlt
    refine here_step (ho.step hc.refl (by omega) fun left c₁ h₁ _ => ?_)
    refine acceptKw_step h₁ (fun c₂ h₂ _ => ?_) (.pure ⟨h₁, by omega⟩)
    refine skipNewlines_step h₂ fun c₃ h₃ _ => ih.step h₃ (by omega) fun right c₄ h₄ _ => ?_
    exact siteFrom_step (.pure ⟨h₄.node (by omega) rfl rfl, by omega⟩)

theorem conditional_gathers (hn : Gathers s n nested Expr.nodes)
    (ho : Gathers s (n + 1) operand Expr.nodes) :
    Gathers s (n + 1) (conditional nested operand) Expr.nodes := by
  intro c hc hlt
  refine here_step (ho.step hc.refl hlt fun whenTrue c₁ h₁ _ => ?_)
  refine acceptKw_step h₁ (fun c₂ h₂ _ => ?_) (.pure ⟨h₁, by omega⟩)
  refine hn.step h₂ (by omega) fun cond c₃ h₃ _ => expectKw_step h₃ fun c₄ h₄ _ => ?_
  refine hn.step h₄ (by omega) fun whenFalse c₅ h₅ _ => siteFrom_step (.pure ?_)
  exact ⟨h₅.node (by omega) rfl rfl, by omega⟩

theorem expressionWith_gathers {limit : Nat} (hn : Gathers s n nested Expr.nodes)
    (hb : ∀ context, Gathers s n (body context) Block.nodes) (hlimit : n < limit) :
    Gathers s (n + 1) (expressionWith limit nested body) Expr.nodes := by
  have hsteps : Gathers s (n + 1) (postfixExpr limit nested body) Expr.nodes :=
    (postfixExpr_gathers hn hb).mono (by omega)
  have hpowers := power_gathers hsteps hlimit
  have hsums := sum_gathers (product_gathers (signed_gathers hpowers) hlimit) hlimit
  have hnegations := (negation_gathers (comparison_gathers hsums) limit).mono (le_min le_rfl hlimit)
  have hconjunctions := (chainRight_gathers .andKw .conj hnegations limit).mono (le_min le_rfl hlimit)
  have hdisjunctions := (chainRight_gathers .orKw .disj hconjunctions limit).mono (le_min le_rfl hlimit)
  exact conditional_gathers hn hdisjunctions

end Expressions

-- ---------------------------------------------------------------------------
-- Blocks
-- ---------------------------------------------------------------------------

section Statements

variable {expr : Parser Expr} {statement : Parser Stmt} {c₀ c : Cursor} {nodes : List TreeNode}

theorem statementEnd_step {β : Type} {f : Unit → Parser β} {Q : β → Cursor → Prop}
    (h : Gathered s c₀ nodes c)
    (hf : ∀ c', Gathered s c₀ nodes c' → c'.rest.length ≤ c.rest.length → Arrives s (f ()) c' Q) :
    Arrives s (statementEnd >>= f) c Q := by
  refine .bind (kind_step (.ite (fun _ => ?_) (fun _ => .ite (fun _ => .expected h.last) (fun _ => ?_))))
  · exact (skipSeparators_arrives h.last).mono fun _ c' h' => hf c' (h.skip h') h'.fewer
  · exact .pure (hf c h le_rfl)

theorem stmtsUntil_mayGather (hs : Gathers s n statement Stmt.nodes) (closer : Keyword)
    (others : List Keyword) (context : Context) (limit : Nat) :
    MayGather s (min n limit) (stmtsUntil statement closer others context limit) (List.map .stmt) := by
  induction limit with
  | zero => exact fun c _ hlt => absurd hlt (by omega)
  | succ limit ih =>
    intro c hc hlt
    refine kind_step (.ite (fun _ => .pure hc.refl) (fun _ => .ite (fun _ => .expected hc) (fun _ => ?_)))
    refine hs.step hc.refl (by omega) fun stmt c₁ h₁ _ => statementEnd_step h₁ fun c₂ h₂ _ => ?_
    exact ih.step h₂ (by omega) fun stmts c₃ h₃ _ => .pure h₃

theorem blockUntil_mayGather {limit : Nat} (hs : Gathers s n statement Stmt.nodes) (hlimit : n ≤ limit)
    (closer : Keyword) (others : List Keyword) (context : Context) :
    MayGather s n (blockUntil limit statement closer others context) Block.nodes := by
  intro c hc hlt
  refine here_step (skipSeparators_step hc.refl fun c₁ h₁ _ => ?_)
  exact (stmtsUntil_mayGather hs closer others context limit).step h₁ (by omega) fun _ _ h₂ _ => .pure h₂

theorem block_gathers {limit : Nat} (hs : Gathers s n statement Stmt.nodes) (hlimit : n ≤ limit)
    (context : Context) : Gathers s n (block limit statement context) Block.nodes := by
  intro c hc hlt
  refine (blockUntil_mayGather hs hlimit _ _ _).step hc.refl hlt fun body c₁ h₁ _ => ?_
  exact expectKw_step h₁ fun c₂ h₂ _ => .pure ⟨h₂, by omega⟩

-- ---------------------------------------------------------------------------
-- Statements after their keyword
-- ---------------------------------------------------------------------------

theorem printArgs_mayGather (he : Gathers s n expr Expr.nodes) (limit : Nat) :
    MayGather s (min n limit) (printArgs expr limit) fun r => exprNodes r.2 := by
  induction limit with
  | zero => exact fun c _ hlt => absurd hlt (by omega)
  | succ limit ih =>
    intro c hc hlt
    refine acceptMark_step hc.refl (fun c₁ h₁ _ => ?_) (.pure hc.refl)
    refine atStatementEnd_step fun _ => .ite (fun _ => .pure h₁) (fun _ => ?_)
    refine he.step h₁ (by omega) fun arg c₂ h₂ _ => ih.step h₂ (by omega) fun r c₃ h₃ _ => ?_
    exact .pure h₃

theorem namesAfter_mayGather (limit : Nat) : MayGather s limit (namesAfter limit) fun _ => [] := by
  induction limit with
  | zero => exact fun c _ hlt => absurd hlt (by omega)
  | succ limit ih =>
    intro c hc hlt
    refine acceptMark_step hc.refl (fun c₁ h₁ _ => ident_step h₁ fun name c₂ h₂ _ => ?_) (.pure hc.refl)
    exact ih.step h₂ (by omega) fun names c₃ h₃ _ => .pure h₃

theorem valuesAfter_mayGather (he : Gathers s n expr Expr.nodes) (limit : Nat) :
    MayGather s (min n limit) (valuesAfter expr limit) exprNodes := by
  induction limit with
  | zero => exact fun c _ hlt => absurd hlt (by omega)
  | succ limit ih =>
    intro c hc hlt
    refine acceptMark_step hc.refl (fun c₁ h₁ _ => ?_) (.pure hc.refl)
    refine he.step h₁ (by omega) fun value c₂ h₂ _ => ih.step h₂ (by omega) fun values c₃ h₃ _ => ?_
    exact .pure h₃

theorem declaration_gathers {limit : Nat} (he : Gathers s n expr Expr.nodes) (hlimit : n ≤ limit) :
    Gathers s n (declaration limit expr) fun r => exprNodes r.2 := by
  intro c hc hlt
  refine ident_step hc.refl fun first c₁ h₁ _ => ?_
  refine (namesAfter_mayGather limit).step h₁ (by omega) fun names c₂ h₂ _ => ?_
  refine acceptMark_step h₂ (fun c₃ h₃ _ => ?_) (.pure ⟨h₂, by omega⟩)
  refine he.step h₃ (by omega) fun value c₄ h₄ _ => ?_
  refine (valuesAfter_mayGather he limit).step h₄ (by omega) fun values c₅ h₅ _ => ?_
  exact .refuse h₅.last trivial fun _ => .pure ⟨h₅, by omega⟩

theorem elsifBranches_mayGather {branch : Parser Block} (he : Gathers s n expr Expr.nodes)
    (hb : MayGather s n branch Block.nodes) (limit : Nat) :
    MayGather s (min n limit) (elsifBranches expr branch limit) (List.flatMap branchNodes) := by
  induction limit with
  | zero => exact fun c _ hlt => absurd hlt (by omega)
  | succ limit ih =>
    intro c hc hlt
    refine acceptKw_step hc.refl (fun c₁ h₁ _ => ?_) (.pure hc.refl)
    refine he.step h₁ (by omega) fun cond c₂ h₂ _ => expectKw_step h₂ fun c₃ h₃ _ => ?_
    refine hb.step h₃ (by omega) fun body c₄ h₄ _ => ih.step h₄ (by omega) fun others c₅ h₅ _ => ?_
    exact .pure (by simpa [branchNodes, Expr.nodes] using h₅)

/-- The nodes of the branches of an `if` statement. -/
def ifNodes (branches : List (Expr × Block) × Option Block) : List TreeNode :=
  branches.1.flatMap branchNodes ++ branches.2.toList.flatMap Block.nodes

theorem ifBranches_gathers {limit : Nat} (he : Gathers s n expr Expr.nodes)
    (hs : Gathers s n statement Stmt.nodes) (hlimit : n ≤ limit) :
    Gathers s n (ifBranches limit expr statement) ifNodes := by
  intro c hc hlt
  have hbranch : MayGather s n (branchBlock limit statement) Block.nodes :=
    blockUntil_mayGather hs hlimit _ _ _
  refine he.step hc.refl hlt fun cond c₁ h₁ _ => expectKw_step h₁ fun c₂ h₂ _ => ?_
  refine hbranch.step h₂ (by omega) fun body c₃ h₃ _ => ?_
  refine (elsifBranches_mayGather he hbranch limit).step h₃ (by omega) fun others c₄ h₄ _ => ?_
  have hlast (otherwise : Option Block) (c₅ : Cursor)
      (h₅ : Gathered s c (ifNodes ((cond, body) :: others, otherwise)) c₅)
      (hlt₅ : c₅.rest.length < c.rest.length) :
      Arrives s (do expectKw .endKw .ifStatement; return ((cond, body) :: others, otherwise)) c₅
        fun r c' => Gathered s c (ifNodes r) c' ∧ c'.rest.length < c.rest.length :=
    expectKw_step h₅ fun c₆ h₆ _ => .pure ⟨h₆, by omega⟩
  refine acceptKw_either h₄ fun present c₅ h₅ _ => .join (.ite (fun _ => ?_) (fun _ => .pure ?_))
  · rw [map_eq_pure_bind]
    refine (blockUntil_mayGather hs hlimit _ _ _).step h₅ (by omega) fun otherwise c₆ h₆ _ => ?_
    exact .pure (hlast (some otherwise) c₆ (by simpa [ifNodes, branchNodes, Expr.nodes] using h₆) (by omega))
  · exact hlast none c₅ (by simpa [ifNodes, branchNodes, Expr.nodes] using h₅) (by omega)

theorem direction_step {β : Type} {f : Bool → Parser β} {Q : β → Cursor → Prop}
    (h : Gathered s c₀ nodes c)
    (hf : ∀ b c', Gathered s c₀ nodes c' → c'.rest.length < c.rest.length → Arrives s (f b) c' Q) :
    Arrives s (direction >>= f) c Q := by
  refine .bind (acceptKw_step h (fun c₁ h₁ hlt => .pure (hf false c₁ h₁ hlt)) ?_)
  exact acceptKw_step h (fun c₁ h₁ hlt => .pure (hf true c₁ h₁ hlt)) (.expected h.last)

theorem forLoop_arrives {limit : Nat} (he : Gathers s n expr Expr.nodes)
    (hs : Gathers s n statement Stmt.nodes) (hlimit : n ≤ limit) (h : Gathered s c₀ [] c)
    (hread : c.rest.length < c₀.rest.length) (hlt : c.rest.length < n) :
    Arrives s (forLoop limit expr statement c₀.mark) c fun stmt c' =>
      Gathered s c₀ stmt.nodes c' ∧ c'.rest.length < c₀.rest.length := by
  refine ident_step h fun counter c₁ h₁ _ => expectMark_step h₁ fun c₂ h₂ _ => ?_
  refine he.step h₂ (by omega) fun first c₃ h₃ _ => direction_step h₃ fun descending c₄ h₄ _ => ?_
  refine he.step h₄ (by omega) fun last c₅ h₅ _ => acceptKw_either h₅ fun stepped c₆ h₆ _ => ?_
  refine optional_step he h₆ (by omega) fun step c₇ h₇ _ => expectKw_step h₇ fun c₈ h₈ _ => ?_
  refine (block_gathers hs hlimit _).step h₈ (by omega) fun body c₉ h₉ _ => siteFrom_step (.pure ?_)
  exact ⟨h₉.node (by omega) rfl rfl, by omega⟩

/-- A collection that is taken out of its `ref` is inside it. -/
theorem withoutRef_gathered {e : Expr} (h : Gathered s c₀ e.nodes c) :
    Gathered s c₀ (withoutRef e).nodes c := by
  unfold withoutRef
  split
  · exact h.replace h.row.children fun _ _ hat => hat.children nofun
  · exact h

theorem foreachVariables_step {β : Type} {f : Option String × String × Bool → Parser β}
    {Q : β → Cursor → Prop} (h : Gathered s c₀ nodes c)
    (hf : ∀ names c', Gathered s c₀ nodes c' → c'.rest.length < c.rest.length →
      Arrives s (f names) c' Q) : Arrives s (foreachVariables >>= f) c Q := by
  refine .bind (acceptKw_either h fun firstByRef c₁ h₁ _ => ident_step h₁ fun first c₂ h₂ _ => ?_)
  refine acceptMark_step h₂ (fun c₃ h₃ _ => ?_) (.pure (hf _ c₂ h₂ (by omega)))
  refine .refuse h₃.last trivial fun _ => acceptKw_either h₃ fun byRef c₄ h₄ _ => ?_
  exact ident_step h₄ fun value c₅ h₅ _ => .pure (hf _ c₅ h₅ (by omega))

theorem foreachLoop_arrives {limit : Nat} (he : Gathers s n expr Expr.nodes)
    (hs : Gathers s n statement Stmt.nodes) (hlimit : n ≤ limit) (h : Gathered s c₀ [] c)
    (hread : c.rest.length < c₀.rest.length) (hlt : c.rest.length < n) :
    Arrives s (foreachLoop limit expr statement c₀.mark) c fun stmt c' =>
      Gathered s c₀ stmt.nodes c' ∧ c'.rest.length < c₀.rest.length := by
  refine foreachVariables_step h fun names c₁ h₁ _ => expectKw_step h₁ fun c₂ h₂ _ => ?_
  refine he.step h₂ (by omega) fun collection c₃ h₃ _ => expectKw_step h₃ fun c₄ h₄ _ => ?_
  have hcollection : Gathered s c₀ (withoutRef collection).nodes c₄ := withoutRef_gathered h₄
  refine (block_gathers hs hlimit _).step hcollection (by omega) fun body c₅ h₅ _ => ?_
  exact siteFrom_step (.pure ⟨h₅.node (by omega) rfl rfl, by omega⟩)

theorem functionDeclaration_arrives {limit : Nat} (he : Gathers s n expr Expr.nodes)
    (hs : Gathers s n statement Stmt.nodes) (hlimit : n ≤ limit) (h : Gathered s c₀ [] c)
    (hread : c.rest.length < c₀.rest.length) (hlt : c.rest.length < n) (isLocal : Bool) :
    Arrives s (functionDeclaration limit expr statement c₀.mark isLocal) c fun stmt c' =>
      Gathered s c₀ stmt.nodes c' ∧ c'.rest.length < c₀.rest.length := by
  refine ident_step h fun name c₁ h₁ _ => expectMark_step h₁ fun c₂ h₂ _ => ?_
  refine (parameters_gathers limit he).step h₂ (by omega) fun params c₃ h₃ _ => ?_
  refine (block_gathers hs hlimit _).step h₃ (by omega) fun body c₄ h₄ _ => siteFrom_step (.pure ?_)
  exact ⟨h₄.node (by omega) rfl rfl, by omega⟩

theorem simpleStatement_arrives (he : Gathers s n expr Expr.nodes) (h : Gathered s c₀ [] c)
    (hlt : c.rest.length < n) :
    Arrives s (simpleStatement expr c₀.mark) c fun stmt c' =>
      Gathered s c₀ stmt.nodes c' ∧ c'.rest.length < c₀.rest.length := by
  have hfewer := h.fewer
  refine he.step h hlt fun target c₁ h₁ _ => kind_step ?_
  split
  · exact siteFrom_step (.pure ⟨h₁.node (by omega) rfl rfl, by omega⟩)
  · next op hkind =>
    refine .refuse h₁.last trivial fun _ => advance_step h₁ (.of_some rfl (fun _ => rfl) hkind) fun c₂ h₂ _ => ?_
    refine he.step h₂ (by omega) fun value c₃ h₃ _ => siteFrom_step (.pure ?_)
    exact ⟨h₃.node (by omega) rfl rfl, by omega⟩

-- ---------------------------------------------------------------------------
-- One statement
-- ---------------------------------------------------------------------------

theorem keywordStatement_arrives {limit : Nat} (he : Gathers s n expr Expr.nodes)
    (hs : Gathers s n statement Stmt.nodes) (hlimit : n ≤ limit) (h : Gathered s c₀ [] c)
    (hread : c.rest.length < c₀.rest.length) (hlt : c.rest.length < n) (w : Keyword) :
    Arrives s (keywordStatement limit expr statement c₀.mark w) c fun stmt c' =>
      Gathered s c₀ stmt.nodes c' ∧ c'.rest.length < c₀.rest.length := by
  have hsite {stmt : Site → Stmt} {c' : Cursor} {children : List TreeNode}
      (h' : Gathered s c₀ children c') (hlt' : c'.rest.length ≤ c.rest.length)
      (hstmt : ∀ site, (stmt site).site = site) (hchildren : ∀ site, (stmt site).children = children) :
      Arrives s (do return stmt (← siteFrom c₀.mark)) c' fun stmt c' =>
        Gathered s c₀ stmt.nodes c' ∧ c'.rest.length < c₀.rest.length :=
    siteFrom_step (.pure ⟨h'.node (by omega) (hstmt _) (hchildren _), by omega⟩)
  unfold keywordStatement
  split
  · refine atStatementEnd_step fun _ => .ite (fun _ => ?_) (fun _ => ?_)
    · exact hsite h le_rfl (fun _ => rfl) fun _ => rfl
    refine he.step h hlt fun arg c₁ h₁ _ => ?_
    refine (printArgs_mayGather he limit).step h₁ (by omega) fun r c₂ h₂ _ => ?_
    exact hsite h₂ (by omega) (fun _ => rfl) fun _ => rfl
  · refine skipNewlines_step h fun c₁ h₁ _ => acceptKw_step h₁ (fun c₂ h₂ _ => ?_) ?_
    · exact functionDeclaration_arrives he hs hlimit h₂ (by omega) (by omega) true
    · refine (declaration_gathers he hlimit).step h₁ (by omega) fun r c₂ h₂ _ => ?_
      exact hsite h₂ (by omega) (fun _ => rfl) fun _ => rfl
  · refine (ifBranches_gathers he hs hlimit).step h hlt fun r c₁ h₁ _ => ?_
    exact hsite h₁ (by omega) (fun _ => rfl) fun _ => rfl
  · refine he.step h hlt fun cond c₁ h₁ _ => expectKw_step h₁ fun c₂ h₂ _ => ?_
    refine (block_gathers hs hlimit _).step h₂ (by omega) fun body c₃ h₃ _ => ?_
    exact hsite h₃ (by omega) (fun _ => rfl) fun _ => rfl
  · refine (blockUntil_mayGather hs hlimit _ _ _).step h hlt fun body c₁ h₁ _ => ?_
    refine expectKw_step h₁ fun c₂ h₂ _ => he.step h₂ (by omega) fun cond c₃ h₃ _ => ?_
    exact hsite h₃ (by omega) (fun _ => rfl) fun _ => rfl
  · exact forLoop_arrives he hs hlimit h hread hlt
  · exact foreachLoop_arrives he hs hlimit h hread hlt
  · exact functionDeclaration_arrives he hs hlimit h hread hlt false
  · refine atStatementEnd_step fun _ => .ite (fun _ => ?_) (fun _ => ?_)
    · exact hsite h le_rfl (fun _ => rfl) fun _ => rfl
    · exact he.step h hlt fun value c₁ h₁ _ => hsite h₁ (by omega) (fun _ => rfl) fun _ => rfl
  · exact hsite h le_rfl (fun _ => rfl) fun _ => rfl
  · exact hsite h le_rfl (fun _ => rfl) fun _ => rfl
  · exact hsite h le_rfl (fun _ => rfl) fun _ => rfl
  · refine he.step h hlt fun cond c₁ h₁ _ => acceptMark_either h₁ fun present c₂ h₂ _ => ?_
    refine optional_step he h₂ (by omega) fun message c₃ h₃ _ => ?_
    exact hsite h₃ (by omega) (fun _ => rfl) fun _ => rfl
  · exact he.step h hlt fun value c₁ h₁ _ => hsite h₁ (by omega) (fun _ => rfl) fun _ => rfl
  · refine (block_gathers hs hlimit _).step h hlt fun body c₁ h₁ _ => ?_
    exact hsite h₁ (by omega) (fun _ => rfl) fun _ => rfl
  · refine accept_step h trivial (fun c₁ h₁ _ => ?_) ?_
    · refine (block_gathers hs hlimit _).step h₁ (by omega) fun body c₂ h₂ _ => ?_
      exact hsite h₂ (by omega) (fun _ => rfl) fun _ => rfl
    · exact hs.step h hlt fun stmt c₁ h₁ _ => hsite h₁ (by omega) (fun _ => rfl) fun _ => rfl
  · exact simpleStatement_arrives he h hlt

theorem statementWith_gathers {limit : Nat} (he : Gathers s (n + 1) expr Expr.nodes)
    (hs : Gathers s n statement Stmt.nodes) (hlimit : n ≤ limit) :
    Gathers s (n + 1) (statementWith limit expr statement) Stmt.nodes := by
  intro c hc hlt
  refine here_step (kind_step ?_)
  split
  · next w hkind =>
    refine .ite (fun _ => ?_) (fun _ => simpleStatement_arrives he hc.refl hlt)
    refine advance_step hc.refl (hkind ▸ trivial) fun c₁ h₁ _ => ?_
    exact keywordStatement_arrives (he.mono (Nat.le_succ n)) hs hlimit h₁ (by omega) (by omega) w
  · exact simpleStatement_arrives he hc.refl hlt

-- ---------------------------------------------------------------------------
-- Recursion
-- ---------------------------------------------------------------------------

/-- Expressions and statements read at least one token, and each level of nesting leaves fewer of them. -/
theorem nested_gathers (depth : Nat) :
    Gathers s depth (expressionUpTo depth) Expr.nodes ∧ Gathers s depth (statementUpTo depth) Stmt.nodes := by
  induction depth with
  | zero => exact ⟨fun c _ hlt => absurd hlt (by omega), fun c _ hlt => absurd hlt (by omega)⟩
  | succ depth ih =>
    obtain ⟨hexpr, hstmt⟩ := ih
    have hbody (context : Context) :
        Gathers s depth (block (depth + 1) (statementUpTo depth) context) Block.nodes :=
      block_gathers hstmt (Nat.le_succ depth) context
    have hwhole := expressionWith_gathers hexpr hbody (Nat.lt_succ_self depth)
    exact ⟨hwhole, statementWith_gathers hwhole hstmt (Nat.le_succ depth)⟩

-- ---------------------------------------------------------------------------
-- Scripts
-- ---------------------------------------------------------------------------

theorem debugOption_mayGather (limit : Nat) (setting : Option Bool) :
    MayGather s limit (debugOption limit setting) fun _ => [] := by
  induction limit generalizing setting with
  | zero => exact fun c _ hlt => absurd hlt (by omega)
  | succ limit ih =>
    intro c hc hlt
    have hnext (value : Bool) (c' : Cursor) (h' : Gathered s c [] c')
        (hlt' : c'.rest.length < c.rest.length) :
        Arrives s (do skipSeparators; debugOption limit (some value)) c' fun _ c' => Gathered s c [] c' := by
      refine skipSeparators_step h' fun c₁ h₁ _ => ?_
      exact (ih (some value) c₁ h₁.last (by omega)).mono fun _ _ h₂ => h₁.skip h₂
    refine acceptKw_step hc.refl (fun c₁ h₁ _ => acceptKw_step h₁ (fun c₂ h₂ _ => ?_) ?_) (.pure hc.refl)
    · refine acceptMark_step h₂ (fun c₃ h₃ _ => ?_) (.bind (.pure (hnext true c₂ h₂ (by omega))))
      refine acceptKw_step h₃ (fun c₄ h₄ _ => .bind (.pure (hnext false c₄ h₄ (by omega)))) ?_
      refine acceptKw_step h₃ (fun c₄ h₄ _ => .bind (.pure (hnext true c₄ h₄ (by omega)))) ?_
      exact .bind (.fail h₃.last trivial)
    · exact kind_step (.bind (.fail h₁.last trivial))

theorem topLevel_mayGather (hs : Gathers s n statement Stmt.nodes) (limit : Nat) :
    MayGather s (min n limit) (topLevel statement limit) (List.map .stmt) := by
  induction limit with
  | zero => exact fun c _ hlt => absurd hlt (by omega)
  | succ limit ih =>
    intro c hc hlt
    refine kind_step (.ite (fun _ => .pure hc.refl) (fun _ => ?_))
    refine hs.step hc.refl (by omega) fun stmt c₁ h₁ _ => statementEnd_step h₁ fun c₂ h₂ _ => ?_
    refine kind_step (.ite (fun _ => .bind (.expected h₂.last)) (fun _ => ?_))
    exact ih.step h₂ (by omega) fun stmts c₃ h₃ _ => .pure h₃

end Statements

theorem script_mayGather (limit : Nat) : MayGather s limit (script limit) fun r => r.body.nodes := by
  intro c hc hlt
  refine here_step (skipSeparators_step hc.refl fun c₁ h₁ _ => ?_)
  refine (debugOption_mayGather limit none).step h₁ (by omega) fun debug c₂ h₂ _ => ?_
  refine (topLevel_mayGather (nested_gathers limit).2 limit).step h₂ (by omega) fun stmts c₃ h₃ _ => ?_
  exact .pure h₃

end Rill.Grammar
