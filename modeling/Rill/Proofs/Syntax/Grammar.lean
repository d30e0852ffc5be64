-- SUMMARY: The grammar makes proper syntax trees.
import Rill.Proofs.Syntax.Yields

/-!
# The trees of the grammar

One lemma per definition of the grammar, from the brackets of an expression up to whole scripts: if the
parsers of its parts yield proper trees, so does the definition itself.
-/

namespace Rill.Grammar

open Rill.Parser

-- ---------------------------------------------------------------------------
-- Lists between brackets
-- ---------------------------------------------------------------------------

section Expressions

variable {nested : Parser Expr} {body : Context → Parser Block} {operand : Parser Expr}

theorem itemsUntil_proper (hn : Yields nested Expr.Proper) (close : Mark) (context : Context)
    (limit : Nat) : Yields (itemsUntil nested close context limit) ProperAll := by
  induction limit with
  | zero => exact fail_yields _
  | succ limit ih =>
    refine hn.bind fun item hitem => ?_
    refine skipNewlines_yields.step fun _ => ?_
    refine (acceptMark_yields _).step fun _ => .ite (fun _ => ?_) (fun _ => ?_)
    · refine skipNewlines_yields.step fun _ => kind_yields.step fun _ => .ite (fun _ => ?_) (fun _ => ?_)
      · exact (expectMark_yields _ _).step fun _ => .pure ⟨hitem, trivial⟩
      · exact ih.bind fun items hitems => .pure ⟨hitem, hitems⟩
    · exact (expectMark_yields _ _).step fun _ => .pure ⟨hitem, trivial⟩

theorem commaList_proper (limit : Nat) (hn : Yields nested Expr.Proper) (close : Mark)
    (context : Context) : Yields (commaList limit nested close context) ProperAll := by
  refine skipNewlines_yields.step fun _ => ?_
  refine (acceptMark_yields _).step fun _ => .ite (fun _ => .pure trivial) (fun _ => ?_)
  exact itemsUntil_proper hn close context limit

theorem arrayRows_proper (hn : Yields nested Expr.Proper) (limit : Nat) (cols : Option Nat)
    (row : Nat) : Yields (arrayRows nested limit cols row) fun r => ProperAll r.1 := by
  induction limit generalizing cols row with
  | zero => exact fail_yields _
  | succ limit ih =>
    refine hn.bind fun item hitem => ?_
    refine skipNewlines_yields.step fun _ => ?_
    refine (acceptMark_yields _).step fun _ => .ite (fun _ => ?_) (fun _ => ?_)
    · refine skipNewlines_yields.step fun _ => ?_
      exact (ih cols (row + 1)).bind fun r hr => .pure ⟨hitem, hr⟩
    · refine kind_yields.step fun next => .ite (fun _ => ?_) (fun _ => .pure ⟨hitem, trivial⟩)
      refine refuse_yields fun _ => .ite (fun _ => ?_) (fun _ => .pure ⟨hitem, trivial⟩)
      refine advance_yields.step fun _ => skipNewlines_yields.step fun _ => ?_
      exact (ih (some (row + 1)) 0).bind fun r hr => .pure ⟨hitem, hr⟩

/-- Rows that end at the closing bracket have one length, which divides the number of their items; the
current row already has `row` of them. -/
theorem arrayRows_rectangle {limit : Nat} {cols : Option Nat} {row n : Nat} {items : List Expr}
    {c c' : Cursor} (h : arrayRows nested limit cols row c = .ok ((items, n), c'))
    (hc' : c'.token.kind = .mark .rBracket) :
    0 < n ∧ n ∣ row + items.length ∧ ∀ k ∈ cols, k = n := by
  induction limit generalizing cols row n items c c' with
  | zero => exact absurd h (by simp [arrayRows, fail])
  | succ limit ih =>
    obtain ⟨item, c₁, -, h⟩ := bind_ok h
    obtain ⟨-, c₂, -, h⟩ := bind_ok h
    obtain ⟨comma, c₃, -, h⟩ := bind_ok h
    cases comma with
    | true =>
      obtain ⟨-, c₄, -, h⟩ := bind_ok h
      obtain ⟨⟨rest, n'⟩, c₅, hrest, h⟩ := bind_ok h
      obtain ⟨hr, rfl⟩ := pure_ok h
      obtain ⟨rfl, rfl⟩ := Prod.mk.inj hr
      obtain ⟨hpos, hdvd, hcols⟩ := ih hrest hc'
      refine ⟨hpos, ?_, hcols⟩
      rwa [List.length_cons, Nat.add_comm rest.length, ← Nat.add_assoc]
    | false =>
      obtain ⟨next, c₄, hnext, h⟩ := bind_ok h
      simp only [kind, Except.ok.injEq, Prod.mk.injEq] at hnext
      obtain ⟨rfl, rfl⟩ := hnext
      split at h
      · next hend =>
        obtain ⟨hcols, h⟩ := refuse_ok h
        have hsame : ∀ k ∈ cols, k = row + 1 := by
          intro k hk
          rw [Option.mem_def] at hk
          simpa [hk] using hcols
        split at h
        · obtain ⟨-, c₅, -, h⟩ := bind_ok h
          obtain ⟨-, c₆, -, h⟩ := bind_ok h
          obtain ⟨⟨rest, n'⟩, c₇, hrest, h⟩ := bind_ok h
          obtain ⟨hr, rfl⟩ := pure_ok h
          obtain ⟨rfl, rfl⟩ := Prod.mk.inj hr
          obtain ⟨hpos, hdvd, hlast⟩ := ih hrest hc'
          obtain rfl : row + 1 = n' := hlast _ rfl
          refine ⟨hpos, ?_, hsame⟩
          rw [Nat.zero_add] at hdvd
          rw [List.length_cons, Nat.add_comm rest.length, ← Nat.add_assoc]
          exact (Nat.dvd_add_right (Nat.dvd_refl _)).mpr hdvd
        · obtain ⟨hr, rfl⟩ := pure_ok h
          obtain ⟨rfl, rfl⟩ := Prod.mk.inj hr
          exact ⟨Nat.succ_pos row, Nat.dvd_refl _, hsame⟩
      · next hend =>
        obtain ⟨-, rfl⟩ := pure_ok h
        exact absurd (by simp [hc']) hend

theorem arrayLiteral_proper (limit : Nat) (hn : Yields nested Expr.Proper) (start : Nat × Nat) :
    Yields (arrayLiteral limit nested start) Expr.Proper := by
  intro c a c' hc h
  obtain ⟨_, c₁, hlines, h⟩ := bind_ok h
  obtain ⟨-, hc₁⟩ := skipNewlines_yields _ _ _ hc hlines
  obtain ⟨empty, c₂, hclose, h⟩ := bind_ok h
  obtain ⟨-, hc₂⟩ := acceptMark_yields _ _ _ _ hc₁ hclose
  cases empty with
  | true =>
    refine Yields.step (siteFrom_yields start) (fun site => .pure ?_) c₂ a c' hc₂ h
    exact ⟨rfl, trivial⟩
  | false =>
    obtain ⟨⟨items, cols⟩, c₃, hrows, h⟩ := bind_ok h
    obtain ⟨hitems, hc₃⟩ := arrayRows_proper hn limit none 0 _ _ _ hc₂ hrows
    obtain ⟨_, c₄, hexpect, h⟩ := bind_ok h
    obtain ⟨-, hc₄⟩ := expectMark_yields _ _ _ _ _ hc₃ hexpect
    obtain ⟨hpos, hdvd, -⟩ := arrayRows_rectangle hrows (expect_ok hexpect)
    refine Yields.step (siteFrom_yields start) (fun site => .pure ?_) c₄ a c' hc₄ h
    rw [Nat.zero_add] at hdvd
    refine ⟨?_, hitems⟩
    rw [if_neg (Nat.pos_iff_ne_zero.mp hpos)]
    exact Nat.div_mul_cancel hdvd

theorem tableEntries_proper (hn : Yields nested Expr.Proper) (limit : Nat) :
    Yields (tableEntries nested limit) ProperPairs := by
  induction limit with
  | zero => exact fail_yields _
  | succ limit ih =>
    refine skipNewlines_yields.step fun _ => ?_
    refine (acceptMark_yields _).step fun _ => .ite (fun _ => ?_) (fun _ => ?_)
    · refine skipNewlines_yields.step fun _ => kind_yields.step fun _ => .ite (fun _ => ?_) (fun _ => ?_)
      · exact (expectMark_yields _ _).step fun _ => .pure trivial
      · refine hn.bind fun key hkey => (expectMark_yields _ _).step fun _ => ?_
        refine hn.bind fun value hvalue => ih.bind fun entries hentries => .pure ?_
        exact ⟨hkey, hvalue, hentries⟩
    · exact (expectMark_yields _ _).step fun _ => .pure trivial

theorem braceLiteral_proper (limit : Nat) (hn : Yields nested Expr.Proper) (start : Nat × Nat) :
    Yields (braceLiteral limit nested start) Expr.Proper := by
  refine skipNewlines_yields.step fun _ => ?_
  refine (acceptMark_yields _).step fun _ => .ite (fun _ => ?_) (fun _ => ?_)
  · exact (siteFrom_yields start).step fun _ => .pure trivial
  refine hn.bind fun first hfirst => ?_
  refine (acceptMark_yields _).step fun _ => .ite (fun _ => ?_) (fun _ => ?_)
  · refine hn.bind fun value hvalue => (tableEntries_proper hn limit).bind fun entries hentries => ?_
    exact (siteFrom_yields start).step fun _ => .pure ⟨hfirst, hvalue, hentries⟩
  · refine skipNewlines_yields.step fun _ => ?_
    refine (acceptMark_yields _).step fun _ => .ite (fun _ => ?_) (fun _ => ?_)
    · refine (commaList_proper limit hn _ _).bind fun items hitems => ?_
      exact (siteFrom_yields start).step fun _ => .pure ⟨hfirst, hitems⟩
    · refine (expectMark_yields _ _).step fun _ => (siteFrom_yields start).step fun _ => ?_
      exact .pure ⟨hfirst, trivial⟩

/-- An expression that stands only after a keyword or a mark. -/
theorem optional_yields {β : Type} {f : Option Expr → Parser β} {Q : β → Prop} {present : Bool}
    (hn : Yields nested Expr.Proper) (hf : ∀ e, ProperOptionExpr e → Yields (f e) Q) :
    Yields (if present = true then some <$> nested >>= f else pure none >>= f) Q :=
  .join (fun _ => hn.map fun _ he => he) (fun _ => .pure trivial) hf

-- ---------------------------------------------------------------------------
-- Function literals
-- ---------------------------------------------------------------------------

theorem paramsAfter_proper (hn : Yields nested Expr.Proper) (limit : Nat) (names : List String) :
    Yields (paramsAfter nested limit names) ProperParams := by
  induction limit generalizing names with
  | zero => exact fail_yields _
  | succ limit ih =>
    refine here_yields.step fun start => (acceptKw_yields _).step fun byRef => ?_
    refine (ident_yields _).step fun name => refuse_yields fun _ => ?_
    refine (acceptKw_yields _).step fun typed => ?_
    refine optional_yields hn fun type htype => skipNewlines_yields.step fun _ => ?_
    have hparam (rest : List Param) (hrest : ProperParams rest) :
        ProperParams (⟨start.1, name, byRef, type⟩ :: rest) := by
      cases type with
      | none => exact hrest
      | some e => exact ⟨htype, hrest⟩
    refine (acceptMark_yields _).step fun _ => .ite (fun _ => ?_) (fun _ => .pure (hparam [] trivial))
    exact skipNewlines_yields.step fun _ => (ih _).bind fun rest hrest => .pure (hparam rest hrest)

theorem parameters_proper (limit : Nat) (hn : Yields nested Expr.Proper) :
    Yields (parameters limit nested) ProperParams := by
  refine skipNewlines_yields.step fun _ => ?_
  refine (acceptMark_yields _).step fun _ => .ite (fun _ => .pure trivial) (fun _ => ?_)
  refine (paramsAfter_proper hn limit []).bind fun params hparams => refuse_yields fun _ => ?_
  exact (expectMark_yields _ _).step fun _ => .pure hparams

-- ---------------------------------------------------------------------------
-- Primaries and postfix steps
-- ---------------------------------------------------------------------------

theorem primary_proper (limit : Nat) (hn : Yields nested Expr.Proper) :
    Yields (primary limit nested) Expr.Proper := by
  refine here_yields.step fun start => kind_yields.bind fun k hk => ?_
  have hsite {e : Site → Expr} (he : ∀ site, (e site).Proper) :
      Yields (do advance; return e (← siteFrom start)) Expr.Proper :=
    advance_yields.step fun _ => (siteFrom_yields start).step fun site => .pure (he site)
  split
  · next name => exact hsite fun _ => hk name rfl
  · exact hsite fun _ => trivial
  · exact .ite (fun _ => hsite fun _ => trivial) (fun _ => fail_yields _)
  · exact hsite fun _ => trivial
  · exact hsite fun _ => trivial
  · exact hsite fun _ => trivial
  · exact hsite fun _ => trivial
  · exact hsite fun _ => trivial
  · refine advance_yields.step fun _ => (commaList_proper limit hn _ _).bind fun items hitems => ?_
    exact (siteFrom_yields start).step fun _ => .pure hitems
  · refine advance_yields.step fun _ => (expectMark_yields _ _).step fun _ => ?_
    exact arrayLiteral_proper limit hn start
  · exact advance_yields.step fun _ => braceLiteral_proper limit hn start
  · refine advance_yields.step fun _ => skipNewlines_yields.step fun _ => hn.bind fun inner hinner => ?_
    refine skipNewlines_yields.step fun _ => (expectMark_yields _ _).step fun _ => ?_
    exact .pure hinner
  · exact expected_yields _ _

theorem operandHead_proper (limit : Nat) (hn : Yields nested Expr.Proper)
    (hb : ∀ context, Yields (body context) Block.Proper) :
    Yields (operandHead limit nested body) Expr.Proper := by
  refine here_yields.step fun start => ?_
  refine (acceptKw_yields _).step fun _ => .ite (fun _ => ?_) (fun _ => ?_)
  · refine hn.bind fun target htarget => ?_
    exact (siteFrom_yields start).step fun _ => .pure htarget
  refine (acceptKw_yields _).step fun _ => .ite (fun _ => ?_) (fun _ => primary_proper limit hn)
  refine (expectMark_yields _ _).step fun _ => ?_
  refine (parameters_proper limit hn).bind fun params hparams => (hb _).bind fun block hblock => ?_
  exact (siteFrom_yields start).step fun _ => .pure ⟨hparams, hblock⟩

theorem postfixSteps_proper (hn : Yields nested Expr.Proper) (start : Nat × Nat) (limit : Nat)
    {e : Expr} (he : e.Proper) : Yields (postfixSteps nested start limit e) Expr.Proper := by
  induction limit generalizing e with
  | zero => exact fail_yields _
  | succ limit ih =>
    refine (acceptMark_yields _).step fun _ => .ite (fun _ => ?_) (fun _ => ?_)
    · refine (ident_yields _).step fun name => (siteFrom_yields start).step fun site => ?_
      exact ih he
    refine (acceptMark_yields _).step fun _ => .ite (fun _ => ?_) (fun _ => ?_)
    · refine (commaList_proper _ hn _ _).bind fun indices hindices => refuse_yields fun _ => ?_
      exact (siteFrom_yields start).step fun site => ih ⟨he, hindices⟩
    refine (acceptMark_yields _).step fun _ => .ite (fun _ => ?_) (fun _ => .pure he)
    refine (commaList_proper _ hn _ _).bind fun args hargs => ?_
    exact (siteFrom_yields start).step fun site => ih ⟨he, hargs⟩

theorem postfixExpr_proper (limit : Nat) (hn : Yields nested Expr.Proper)
    (hb : ∀ context, Yields (body context) Block.Proper) :
    Yields (postfixExpr limit nested body) Expr.Proper :=
  here_yields.step fun start => (operandHead_proper limit hn hb).bind fun _ hhead =>
    postfixSteps_proper hn start limit hhead

-- ---------------------------------------------------------------------------
-- Operators
-- ---------------------------------------------------------------------------

theorem chainLeft_proper (op? : TokenKind → Option BinaryOp) (ho : Yields operand Expr.Proper)
    (start : Nat × Nat) (limit : Nat) {left : Expr} (hleft : left.Proper) :
    Yields (chainLeft op? operand start limit left) Expr.Proper := by
  induction limit generalizing left with
  | zero => exact fail_yields _
  | succ limit ih =>
    refine kind_yields.step fun k => ?_
    split
    · exact .pure hleft
    · refine advance_yields.step fun _ => ho.bind fun right hright => ?_
      exact (siteFrom_yields start).step fun _ => ih ⟨hleft, hright⟩

theorem power_proper (limit : Nat) (ho : Yields operand Expr.Proper) :
    Yields (power limit operand) Expr.Proper :=
  here_yields.step fun start => ho.bind fun _ hleft => chainLeft_proper _ ho start limit hleft

theorem negated_proper (site : Site) {e : Expr} (he : e.Proper) : (negated site e).Proper := by
  unfold negated
  split
  · trivial
  · trivial
  · exact he

theorem signed_proper (ho : Yields operand Expr.Proper) : Yields (signed operand) Expr.Proper := by
  refine here_yields.step fun start => ?_
  refine (acceptMark_yields _).step fun _ => .ite (fun _ => ?_) (fun _ => ho)
  refine kind_yields.step fun _ => .ite (fun _ => ?_) (fun _ => ?_)
  · refine advance_yields.step fun _ => kind_yields.step fun _ => refuse_yields fun _ => ?_
    exact (siteFrom_yields start).step fun _ => .pure trivial
  · refine ho.bind fun e he => (siteFrom_yields start).step fun site => ?_
    exact .pure (negated_proper site he)

theorem product_proper (limit : Nat) (ho : Yields operand Expr.Proper) :
    Yields (product limit operand) Expr.Proper :=
  here_yields.step fun start => ho.bind fun _ hleft => chainLeft_proper _ ho start limit hleft

theorem concatParts_proper (ho : Yields operand Expr.Proper) (limit : Nat) :
    Yields (concatParts operand limit) ProperAll := by
  induction limit with
  | zero => exact fail_yields _
  | succ limit ih =>
    refine skipNewlines_yields.step fun _ => ho.bind fun part hpart => ?_
    refine (acceptMark_yields _).step fun _ => .ite (fun _ => ?_) (fun _ => .pure ⟨hpart, trivial⟩)
    exact ih.bind fun parts hparts => .pure ⟨hpart, hparts⟩

theorem sum_proper (limit : Nat) (ho : Yields operand Expr.Proper) :
    Yields (sum limit operand) Expr.Proper := by
  refine here_yields.step fun start => ho.bind fun left hleft => ?_
  refine (acceptMark_yields _).step fun _ => .ite (fun _ => ?_) (fun _ => ?_)
  · refine (concatParts_proper ho limit).bind fun parts hparts => ?_
    exact (siteFrom_yields start).step fun _ => .pure ⟨hleft, hparts⟩
  · exact chainLeft_proper _ ho start limit hleft

theorem comparison_proper (ho : Yields operand Expr.Proper) : Yields (comparison operand) Expr.Proper := by
  refine here_yields.step fun start => ho.bind fun left hleft => kind_yields.step fun k => ?_
  split
  · exact .pure hleft
  · refine advance_yields.step fun _ => ho.bind fun right hright => kind_yields.step fun _ => ?_
    refine refuse_yields fun _ => (siteFrom_yields start).step fun _ => ?_
    exact .pure ⟨hleft, hright⟩

theorem negation_proper (ho : Yields operand Expr.Proper) (limit : Nat) :
    Yields (negation operand limit) Expr.Proper := by
  induction limit with
  | zero => exact fail_yields _
  | succ limit ih =>
    refine here_yields.step fun start => ?_
    refine (acceptKw_yields _).step fun _ => .ite (fun _ => ?_) (fun _ => ho)
    refine ih.bind fun e he => ?_
    exact (siteFrom_yields start).step fun _ => .pure he

theorem chainRight_proper (word : Keyword) (op : LogicalOp) (ho : Yields operand Expr.Proper)
    (limit : Nat) : Yields (chainRight word op operand limit) Expr.Proper := by
  induction limit with
  | zero => exact fail_yields _
  | succ limit ih =>
    refine here_yields.step fun start => ho.bind fun left hleft => ?_
    refine (acceptKw_yields _).step fun _ => .ite (fun _ => ?_) (fun _ => .pure hleft)
    refine skipNewlines_yields.step fun _ => ih.bind fun right hright => ?_
    exact (siteFrom_yields start).step fun _ => .pure ⟨hleft, hright⟩

theorem conditional_proper (hn : Yields nested Expr.Proper) (ho : Yields operand Expr.Proper) :
    Yields (conditional nested operand) Expr.Proper := by
  refine here_yields.step fun start => ho.bind fun whenTrue htrue => ?_
  refine (acceptKw_yields _).step fun _ => .ite (fun _ => ?_) (fun _ => .pure htrue)
  refine hn.bind fun cond hcond => (expectKw_yields _ _).step fun _ => ?_
  refine hn.bind fun whenFalse hfalse => (siteFrom_yields start).step fun _ => ?_
  exact .pure ⟨hcond, htrue, hfalse⟩

theorem expressionWith_proper (limit : Nat) (hn : Yields nested Expr.Proper)
    (hb : ∀ context, Yields (body context) Block.Proper) :
    Yields (expressionWith limit nested body) Expr.Proper := by
  have hpowers := power_proper limit (postfixExpr_proper limit hn hb)
  have hsums := sum_proper limit (product_proper limit (signed_proper hpowers))
  have hnegations := negation_proper (comparison_proper hsums) limit
  have hconjunctions := chainRight_proper .andKw .conj hnegations limit
  exact conditional_proper hn (chainRight_proper .orKw .disj hconjunctions limit)

end Expressions

-- ---------------------------------------------------------------------------
-- Blocks
-- ---------------------------------------------------------------------------

section Statements

variable {expr : Parser Expr} {statement : Parser Stmt}

theorem atStatementEnd_yields : Yields atStatementEnd fun _ => True := by
  intro c a c' hc h
  simp only [atStatementEnd, Except.ok.injEq, Prod.mk.injEq] at h
  exact ⟨trivial, h.2 ▸ hc⟩

theorem statementEnd_yields : Yields statementEnd fun _ => True := by
  refine kind_yields.step fun k => .ite (fun _ => skipSeparators_yields) (fun _ => ?_)
  exact .ite (fun _ => expected_yields _ _) (fun _ => .pure trivial)

theorem stmtsUntil_proper (hs : Yields statement Stmt.Proper) (closer : Keyword) (others : List Keyword)
    (context : Context) (limit : Nat) :
    Yields (stmtsUntil statement closer others context limit) ProperStmts := by
  induction limit with
  | zero => exact fail_yields _
  | succ limit ih =>
    refine kind_yields.step fun k => .ite (fun _ => .pure trivial) (fun _ => ?_)
    refine .ite (fun _ => expected_yields _ _) (fun _ => ?_)
    refine hs.bind fun s hstmt => statementEnd_yields.step fun _ => ?_
    exact ih.bind fun rest hrest => .pure ⟨hstmt, hrest⟩

theorem blockUntil_proper (limit : Nat) (hs : Yields statement Stmt.Proper) (closer : Keyword)
    (others : List Keyword) (context : Context) :
    Yields (blockUntil limit statement closer others context) Block.Proper :=
  here_yields.step fun _ => skipSeparators_yields.step fun _ =>
    (stmtsUntil_proper hs closer others context limit).bind fun _ hstmts => .pure hstmts

theorem block_proper (limit : Nat) (hs : Yields statement Stmt.Proper) (context : Context) :
    Yields (block limit statement context) Block.Proper :=
  (blockUntil_proper limit hs _ _ _).bind fun _ hbody =>
    (expectKw_yields _ _).step fun _ => .pure hbody

-- ---------------------------------------------------------------------------
-- Statements after their keyword
-- ---------------------------------------------------------------------------

theorem printArgs_proper (he : Yields expr Expr.Proper) (limit : Nat) :
    Yields (printArgs expr limit) fun r => ProperAll r.2 := by
  induction limit with
  | zero => exact fail_yields _
  | succ limit ih =>
    refine (acceptMark_yields _).step fun _ => .ite (fun _ => ?_) (fun _ => .pure trivial)
    refine atStatementEnd_yields.step fun _ => .ite (fun _ => .pure trivial) (fun _ => ?_)
    exact he.bind fun arg harg => ih.bind fun r hr => .pure ⟨harg, hr⟩

theorem namesAfter_yields (limit : Nat) : Yields (namesAfter limit) fun _ => True := by
  induction limit with
  | zero => exact fail_yields _
  | succ limit ih =>
    refine (acceptMark_yields _).step fun _ => .ite (fun _ => ?_) (fun _ => .pure trivial)
    exact (ident_yields _).step fun _ => ih.step fun _ => .pure trivial

theorem valuesAfter_proper (he : Yields expr Expr.Proper) (limit : Nat) :
    Yields (valuesAfter expr limit) ProperAll := by
  induction limit with
  | zero => exact fail_yields _
  | succ limit ih =>
    refine (acceptMark_yields _).step fun _ => .ite (fun _ => ?_) (fun _ => .pure trivial)
    exact he.bind fun value hvalue => ih.bind fun values hvalues => .pure ⟨hvalue, hvalues⟩

theorem declaration_proper (limit : Nat) (he : Yields expr Expr.Proper) :
    Yields (declaration limit expr) fun r => ProperAll r.2 := by
  refine (ident_yields _).step fun _ => (namesAfter_yields limit).step fun _ => ?_
  refine (acceptMark_yields _).step fun _ => .ite (fun _ => ?_) (fun _ => .pure trivial)
  refine he.bind fun value hvalue => (valuesAfter_proper he limit).bind fun values hvalues => ?_
  exact refuse_yields fun _ => .pure ⟨hvalue, hvalues⟩

theorem elsifBranches_proper {branch : Parser Block} (he : Yields expr Expr.Proper)
    (hb : Yields branch Block.Proper) (limit : Nat) :
    Yields (elsifBranches expr branch limit) ProperArms := by
  induction limit with
  | zero => exact fail_yields _
  | succ limit ih =>
    refine (acceptKw_yields _).step fun _ => .ite (fun _ => ?_) (fun _ => .pure trivial)
    refine he.bind fun cond hcond => (expectKw_yields _ _).step fun _ => hb.bind fun body hbody => ?_
    exact ih.bind fun rest hrest => .pure ⟨hcond, hbody, hrest⟩

theorem ifBranches_proper (limit : Nat) (he : Yields expr Expr.Proper)
    (hs : Yields statement Stmt.Proper) :
    Yields (ifBranches limit expr statement) fun r => ProperArms r.1 ∧ ProperOption r.2 := by
  have hbranch : Yields (branchBlock limit statement) Block.Proper := blockUntil_proper limit hs _ _ _
  refine he.bind fun cond hcond => (expectKw_yields _ _).step fun _ => hbranch.bind fun body hbody => ?_
  refine (elsifBranches_proper he hbranch limit).bind fun others hothers => ?_
  refine (acceptKw_yields _).step fun last => ?_
  refine .join (P := ProperOption) (fun _ => (blockUntil_proper limit hs _ _ _).map fun _ h => h)
    (fun _ => .pure trivial) fun otherwise hotherwise => ?_
  exact (expectKw_yields _ _).step fun _ => .pure ⟨⟨hcond, hbody, hothers⟩, hotherwise⟩

theorem direction_yields : Yields direction fun _ => True := by
  refine (acceptKw_yields _).step fun _ => .ite (fun _ => .pure trivial) (fun _ => ?_)
  refine (acceptKw_yields _).step fun _ => .ite (fun _ => .pure trivial) (fun _ => ?_)
  exact expected_yields _ _

theorem forLoop_proper (limit : Nat) (he : Yields expr Expr.Proper) (hs : Yields statement Stmt.Proper)
    (start : Nat × Nat) : Yields (forLoop limit expr statement start) Stmt.Proper := by
  refine (ident_yields _).step fun counter => (expectMark_yields _ _).step fun _ => ?_
  refine he.bind fun first hfirst => direction_yields.step fun descending => ?_
  refine he.bind fun last hlast => (acceptKw_yields _).step fun stepped => ?_
  refine optional_yields he fun step hstep => (expectKw_yields _ _).step fun _ => ?_
  refine (block_proper limit hs _).bind fun body hbody => (siteFrom_yields start).step fun _ => ?_
  exact .pure ⟨hfirst, hlast, hstep, hbody⟩

theorem withoutRef_proper {e : Expr} (he : e.Proper) : (withoutRef e).Proper := by
  unfold withoutRef
  split <;> exact he

theorem foreachVariables_yields : Yields foreachVariables fun _ => True := by
  refine (acceptKw_yields _).step fun _ => (ident_yields _).step fun _ => ?_
  refine (acceptMark_yields _).step fun _ => .ite (fun _ => ?_) (fun _ => .pure trivial)
  refine refuse_yields fun _ => (acceptKw_yields _).step fun _ => (ident_yields _).step fun _ => ?_
  exact .pure trivial

theorem foreachLoop_proper (limit : Nat) (he : Yields expr Expr.Proper)
    (hs : Yields statement Stmt.Proper) (start : Nat × Nat) :
    Yields (foreachLoop limit expr statement start) Stmt.Proper := by
  refine foreachVariables_yields.step fun names => (expectKw_yields _ _).step fun _ => ?_
  refine he.bind fun collection hcollection => (expectKw_yields _ _).step fun _ => ?_
  refine (block_proper limit hs _).bind fun body hbody => (siteFrom_yields start).step fun _ => ?_
  exact .pure ⟨withoutRef_proper hcollection, hbody⟩

theorem functionDeclaration_proper (limit : Nat) (he : Yields expr Expr.Proper)
    (hs : Yields statement Stmt.Proper) (start : Nat × Nat) (isLocal : Bool) :
    Yields (functionDeclaration limit expr statement start isLocal) Stmt.Proper := by
  refine (ident_yields _).bind fun name hname => (expectMark_yields _ _).step fun _ => ?_
  refine (parameters_proper limit he).bind fun params hparams => ?_
  refine (block_proper limit hs _).bind fun body hbody => (siteFrom_yields start).step fun _ => ?_
  exact .pure ⟨hname, hparams, hbody⟩

theorem simpleStatement_proper (he : Yields expr Expr.Proper) (start : Nat × Nat) :
    Yields (simpleStatement expr start) Stmt.Proper := by
  refine he.bind fun target htarget => kind_yields.step fun k => ?_
  split
  · exact (siteFrom_yields start).step fun _ => .pure htarget
  · refine refuse_yields fun _ => advance_yields.step fun _ => he.bind fun value hvalue => ?_
    exact (siteFrom_yields start).step fun _ => .pure ⟨htarget, hvalue⟩

-- ---------------------------------------------------------------------------
-- One statement
-- ---------------------------------------------------------------------------

theorem keywordStatement_proper (limit : Nat) (he : Yields expr Expr.Proper)
    (hs : Yields statement Stmt.Proper) (start : Nat × Nat) (w : Keyword) :
    Yields (keywordStatement limit expr statement start w) Stmt.Proper := by
  have hsite {s : Site → Stmt} (hp : ∀ site, (s site).Proper) :
      Yields (do return s (← siteFrom start)) Stmt.Proper :=
    (siteFrom_yields start).step fun site => .pure (hp site)
  unfold keywordStatement
  split
  · refine atStatementEnd_yields.step fun _ => .ite (fun _ => hsite fun _ => trivial) (fun _ => ?_)
    exact he.bind fun arg harg => (printArgs_proper he limit).bind fun r hr => hsite fun _ => ⟨harg, hr⟩
  · refine skipNewlines_yields.step fun _ => (acceptKw_yields _).step fun _ =>
      .ite (fun _ => ?_) (fun _ => ?_)
    · exact functionDeclaration_proper limit he hs start true
    · exact (declaration_proper limit he).bind fun r hr => hsite fun _ => hr
  · exact (ifBranches_proper limit he hs).bind fun r hr => hsite fun _ => hr
  · refine he.bind fun cond hcond => (expectKw_yields _ _).step fun _ => ?_
    exact (block_proper limit hs _).bind fun body hbody => hsite fun _ => ⟨hcond, hbody⟩
  · refine (blockUntil_proper limit hs _ _ _).bind fun body hbody => (expectKw_yields _ _).step fun _ => ?_
    exact he.bind fun cond hcond => hsite fun _ => ⟨hbody, hcond⟩
  · exact forLoop_proper limit he hs start
  · exact foreachLoop_proper limit he hs start
  · exact functionDeclaration_proper limit he hs start false
  · refine atStatementEnd_yields.step fun _ => .ite (fun _ => hsite fun _ => trivial) (fun _ => ?_)
    exact he.bind fun value hvalue => hsite fun _ => hvalue
  · exact hsite fun _ => trivial
  · exact hsite fun _ => trivial
  · exact hsite fun _ => trivial
  · refine he.bind fun cond hcond => (acceptMark_yields _).step fun present => ?_
    exact optional_yields he fun message hmessage => hsite fun _ => ⟨hcond, hmessage⟩
  · exact he.bind fun value hvalue => hsite fun _ => hvalue
  · exact (block_proper limit hs _).bind fun body hbody => hsite fun _ => hbody
  · refine (accept_yields _).step fun _ => .ite (fun _ => ?_) (fun _ => ?_)
    · exact (block_proper limit hs _).bind fun body hbody => hsite fun _ => hbody
    · exact hs.bind fun s hstmt => hsite fun _ => ⟨hstmt, trivial⟩
  · exact simpleStatement_proper he start

theorem statementWith_proper (limit : Nat) (he : Yields expr Expr.Proper)
    (hs : Yields statement Stmt.Proper) : Yields (statementWith limit expr statement) Stmt.Proper := by
  refine here_yields.step fun start => kind_yields.step fun k => ?_
  split
  · next w =>
    refine .ite (fun _ => ?_) (fun _ => simpleStatement_proper he start)
    exact advance_yields.step fun _ => keywordStatement_proper limit he hs start w
  · exact simpleStatement_proper he start

-- ---------------------------------------------------------------------------
-- Recursion
-- ---------------------------------------------------------------------------

theorem nested_proper (depth : Nat) :
    Yields (expressionUpTo depth) Expr.Proper ∧ Yields (statementUpTo depth) Stmt.Proper := by
  induction depth with
  | zero => exact ⟨fail_yields _, fail_yields _⟩
  | succ depth ih =>
    obtain ⟨hexpr, hstmt⟩ := ih
    have hbody (context : Context) :
        Yields (block (depth + 1) (statementUpTo depth) context) Block.Proper :=
      block_proper (depth + 1) hstmt context
    have hwhole := expressionWith_proper (depth + 1) hexpr hbody
    exact ⟨hwhole, statementWith_proper (depth + 1) hwhole hstmt⟩

-- ---------------------------------------------------------------------------
-- Scripts
-- ---------------------------------------------------------------------------

theorem debugOption_yields (limit : Nat) (setting : Option Bool) :
    Yields (debugOption limit setting) fun _ => True := by
  induction limit generalizing setting with
  | zero => exact fail_yields _
  | succ limit ih =>
    have hnext (value : Bool) :
        Yields (do skipSeparators; debugOption limit (some value)) fun _ => True :=
      skipSeparators_yields.step fun _ => ih _
    have hpure {value : Bool} : Yields (pure value) fun _ => True := .pure trivial
    refine (acceptKw_yields _).step fun _ => .ite (fun _ => ?_) (fun _ => .pure trivial)
    refine (acceptKw_yields _).step fun _ => .ite (fun _ => ?_) (fun _ => ?_)
    · exact kind_yields.step fun _ => fail_bind_yields
    refine (acceptMark_yields _).step fun _ => .ite (fun _ => ?_) (fun _ => hpure.step hnext)
    refine (acceptKw_yields _).step fun _ => .ite (fun _ => hpure.step hnext) (fun _ => ?_)
    exact (acceptKw_yields _).step fun _ =>
      .ite (fun _ => hpure.step hnext) (fun _ => fail_bind_yields)

theorem topLevel_proper (hs : Yields statement Stmt.Proper) (limit : Nat) :
    Yields (topLevel statement limit) ProperStmts := by
  induction limit with
  | zero => exact fail_yields _
  | succ limit ih =>
    refine kind_yields.step fun _ => .ite (fun _ => .pure trivial) (fun _ => ?_)
    refine hs.bind fun s hstmt => statementEnd_yields.step fun _ => kind_yields.step fun k => ?_
    have hrest : Yields (do return s :: (← topLevel statement limit)) ProperStmts :=
      ih.bind fun rest hrest => .pure ⟨hstmt, hrest⟩
    refine .ite (fun _ => ?_) (fun _ => hrest)
    exact Yields.bind (P := fun _ => True) (expected_yields _ _) fun _ _ => hrest

end Statements

theorem script_proper (limit : Nat) : Yields (script limit) fun s => s.body.Proper :=
  here_yields.step fun _ => skipSeparators_yields.step fun _ =>
    (debugOption_yields limit none).step fun _ =>
    (topLevel_proper (nested_proper limit).2 limit).bind fun _ hstmts => .pure hstmts

end Rill.Grammar

namespace Rill

/-- A script that comes from a text is proper. -/
theorem parse_proper {source : String} {s : Script} (h : parse source = .ok s) : s.body.Proper := by
  simp only [parse, bind, Except.bind] at h
  split at h
  · simp only [reduceCtorEq] at h
  · next c hstart =>
    split at h
    · simp only [reduceCtorEq] at h
    · next r hscript =>
      simp only [pure, Except.pure, Except.ok.injEq] at h
      exact h ▸ (Grammar.script_proper _ c _ _ (Cursor.start_named hstart) hscript).1

end Rill
