-- SUMMARY: Every definition of the grammar is put together from the moves of the cursor.
import Rill.Proofs.Syntax.Lookahead

/-!
# The grammar as moves

One lemma per definition of the grammar: with parsers of one shape for its parts and with limits that do
not shrink, it has one shape. The limits of loops and recursion are dealt with by `Alike.rounds`.
-/

namespace Rill.Grammar

open Rill.Parser

-- ---------------------------------------------------------------------------
-- Basic moves
-- ---------------------------------------------------------------------------

theorem accept_alike (k : TokenKind) : Alike (accept k) (accept k) :=
  .bind .kind fun _ => .ite (.bind .advance fun _ => .pure _) (.pure _)

theorem acceptKw_alike (w : Keyword) : Alike (acceptKw w) (acceptKw w) := accept_alike _

theorem acceptMark_alike (m : Mark) : Alike (acceptMark m) (acceptMark m) := accept_alike _

theorem expect_alike (k : TokenKind) (context : Context) : Alike (expect k context) (expect k context) :=
  .bind (accept_alike k) fun _ => .ite (.expected _ _) (.pure _)

theorem expectKw_alike (w : Keyword) (context : Context) : Alike (expectKw w context) (expectKw w context) :=
  expect_alike _ _

theorem expectMark_alike (m : Mark) (context : Context) :
    Alike (expectMark m context) (expectMark m context) :=
  expect_alike _ _

theorem ident_alike (context : Context) : Alike (ident context) (ident context) := by
  refine .bind .kind fun k => ?_
  cases k with
  | ident name => exact .bind .advance fun _ => .pure _
  | _ => exact .expected _ _

theorem skipSeparators_alike : Alike skipSeparators skipSeparators := .skip _

theorem skipNewlines_alike : Alike skipNewlines skipNewlines := .skip _

-- ---------------------------------------------------------------------------
-- Lists between brackets
-- ---------------------------------------------------------------------------

section Expressions

variable {n m : Nat} {nested nested' operand operand' : Parser Expr} {body body' : Context → Parser Block}

theorem itemsUntil_alike (hn : Alike nested nested') (close : Mark) (context : Context) (hle : n ≤ m) :
    Alike (itemsUntil nested close context n) (itemsUntil nested' close context m) := by
  refine Alike.rounds (F := fun nested n (_ : Unit) => itemsUntil nested close context n)
    (fun _ _ h => h.right) (fun _ _ => rfl) (fun nested nested' n m hn _ ih _ => ?_) hn hle ()
  refine .bind hn fun item => .bind skipNewlines_alike fun _ => .bind (acceptMark_alike _) fun _ => .ite ?_ ?_
  · refine .bind skipNewlines_alike fun _ => .bind .kind fun _ => .ite ?_ ?_
    · exact .bind (expectMark_alike _ _) fun _ => .pure _
    · exact .bind (ih ()) fun items => .pure _
  · exact .bind (expectMark_alike _ _) fun _ => .pure _

theorem commaList_alike (hn : Alike nested nested') (close : Mark) (context : Context) (hle : n ≤ m) :
    Alike (commaList n nested close context) (commaList m nested' close context) := by
  refine .bind skipNewlines_alike fun _ => .bind (acceptMark_alike _) fun _ => .ite (.pure _) ?_
  exact itemsUntil_alike hn close context hle

theorem arrayRows_alike (hn : Alike nested nested') (cols : Option Nat) (row : Nat) (hle : n ≤ m) :
    Alike (arrayRows nested n cols row) (arrayRows nested' m cols row) := by
  refine Alike.rounds (F := fun nested n (i : Option Nat × Nat) => arrayRows nested n i.1 i.2)
    (fun _ _ h => h.right) (fun _ _ => rfl) (fun nested nested' n m hn _ ih i => ?_) hn hle (cols, row)
  refine .bind hn fun item => .bind skipNewlines_alike fun _ => .bind (acceptMark_alike _) fun _ => .ite ?_ ?_
  · exact .bind skipNewlines_alike fun _ => .bind (ih (i.1, i.2 + 1)) fun r => .pure _
  · refine .bind .kind fun _ => .ite (.refuse (.ite ?_ (.pure _))) (.pure _)
    refine .bind .advance fun _ => .bind skipNewlines_alike fun _ => ?_
    exact .bind (ih (some (i.2 + 1), 0)) fun r => .pure _

theorem arrayLiteral_alike (hn : Alike nested nested') (start : Nat × Nat) (hle : n ≤ m) :
    Alike (arrayLiteral n nested start) (arrayLiteral m nested' start) := by
  refine .bind skipNewlines_alike fun _ => .bind (acceptMark_alike _) fun _ => .ite ?_ ?_
  · exact .bind (.siteFrom _) fun _ => .pure _
  · refine .bind (arrayRows_alike hn _ _ hle) fun r => .bind (expectMark_alike _ _) fun _ => ?_
    exact .bind (.siteFrom _) fun _ => .pure _

theorem tableEntries_alike (hn : Alike nested nested') (hle : n ≤ m) :
    Alike (tableEntries nested n) (tableEntries nested' m) := by
  refine Alike.rounds (F := fun nested n (_ : Unit) => tableEntries nested n)
    (fun _ _ h => h.right) (fun _ _ => rfl) (fun nested nested' n m hn _ ih _ => ?_) hn hle ()
  refine .bind skipNewlines_alike fun _ => .bind (acceptMark_alike _) fun _ => .ite ?_ ?_
  · refine .bind skipNewlines_alike fun _ => .bind .kind fun _ => .ite ?_ ?_
    · exact .bind (expectMark_alike _ _) fun _ => .pure _
    · refine .bind hn fun key => .bind (expectMark_alike _ _) fun _ => .bind hn fun value => ?_
      exact .bind (ih ()) fun entries => .pure _
  · exact .bind (expectMark_alike _ _) fun _ => .pure _

theorem braceLiteral_alike (hn : Alike nested nested') (start : Nat × Nat) (hle : n ≤ m) :
    Alike (braceLiteral n nested start) (braceLiteral m nested' start) := by
  refine .bind skipNewlines_alike fun _ => .bind (acceptMark_alike _) fun _ => .ite ?_ ?_
  · exact .bind (.siteFrom _) fun _ => .pure _
  refine .bind hn fun first => .bind (acceptMark_alike _) fun _ => .ite ?_ ?_
  · refine .bind hn fun value => .bind (tableEntries_alike hn hle) fun entries => ?_
    exact .bind (.siteFrom _) fun _ => .pure _
  · refine .bind skipNewlines_alike fun _ => .bind (acceptMark_alike _) fun _ => .ite ?_ ?_
    · exact .bind (commaList_alike hn _ _ hle) fun items => .bind (.siteFrom _) fun _ => .pure _
    · exact .bind (expectMark_alike _ _) fun _ => .bind (.siteFrom _) fun _ => .pure _

/-- An expression that stands only after a keyword or a mark. -/
theorem optional_alike {β : Type} {f g : Option Expr → Parser β} {present : Bool} (hn : Alike nested nested')
    (hf : ∀ e, Alike (f e) (g e)) :
    Alike (if present = true then some <$> nested >>= f else pure none >>= f)
      (if present = true then some <$> nested' >>= g else pure none >>= g) :=
  .ite (.bind (.map hn) hf) (.bind (.pure _) hf)

-- ---------------------------------------------------------------------------
-- Function literals
-- ---------------------------------------------------------------------------

theorem paramsAfter_alike (hn : Alike nested nested') (names : List String) (hle : n ≤ m) :
    Alike (paramsAfter nested n names) (paramsAfter nested' m names) := by
  refine Alike.rounds (F := fun nested n names => paramsAfter nested n names)
    (fun _ _ h => h.right) (fun _ _ => rfl) (fun nested nested' n m hn _ ih names => ?_) hn hle names
  refine .bind .here fun start => .bind (acceptKw_alike _) fun byRef => .bind (ident_alike _) fun name => ?_
  refine .refuse (.bind (acceptKw_alike _) fun typed => optional_alike hn fun type => ?_)
  refine .bind skipNewlines_alike fun _ => .bind (acceptMark_alike _) fun _ => .ite ?_ (.pure _)
  exact .bind skipNewlines_alike fun _ => .bind (ih _) fun params => .pure _

theorem parameters_alike (hn : Alike nested nested') (hle : n ≤ m) :
    Alike (parameters n nested) (parameters m nested') := by
  refine .bind skipNewlines_alike fun _ => .bind (acceptMark_alike _) fun _ => .ite (.pure _) ?_
  refine .bind (paramsAfter_alike hn _ hle) fun params => .refuse ?_
  exact .bind (expectMark_alike _ _) fun _ => .pure _

-- ---------------------------------------------------------------------------
-- Primaries and postfix steps
-- ---------------------------------------------------------------------------

theorem primary_alike (hn : Alike nested nested') (hle : n ≤ m) :
    Alike (primary n nested) (primary m nested') := by
  refine .bind .here fun start => .bind .kind fun k => ?_
  have hatom {e : Site → Expr} : Alike (do advance; return e (← siteFrom start))
      (do advance; return e (← siteFrom start)) :=
    .bind .advance fun _ => .bind (.siteFrom _) fun _ => .pure _
  cases k with
  | ident name => exact hatom
  | str text => exact hatom
  | int v => exact .ite hatom (.fail _)
  | float x => exact hatom
  | keyword w => cases w <;> first | exact hatom | exact .expected _ _
  | mark mark =>
    cases mark
    case lBracket =>
      refine .bind .advance fun _ => .bind (commaList_alike hn _ _ hle) fun items => ?_
      exact .bind (.siteFrom _) fun _ => .pure _
    case atSign =>
      exact .bind .advance fun _ => .bind (expectMark_alike _ _) fun _ => arrayLiteral_alike hn start hle
    case lBrace => exact .bind .advance fun _ => braceLiteral_alike hn start hle
    case lParen =>
      refine .bind .advance fun _ => .bind skipNewlines_alike fun _ => .bind hn fun inner => ?_
      exact .bind skipNewlines_alike fun _ => .bind (expectMark_alike _ _) fun _ => .pure _
    all_goals exact .expected _ _
  | eol => exact .expected _ _
  | eof => exact .expected _ _

theorem operandHead_alike (hn : Alike nested nested') (hb : ∀ context, Alike (body context) (body' context))
    (hle : n ≤ m) : Alike (operandHead n nested body) (operandHead m nested' body') := by
  refine .bind .here fun start => .bind (acceptKw_alike _) fun _ => .ite ?_ ?_
  · exact .bind hn fun target => .bind (.siteFrom _) fun _ => .pure _
  refine .bind (acceptKw_alike _) fun _ => .ite ?_ (primary_alike hn hle)
  refine .bind (expectMark_alike _ _) fun _ => .bind (parameters_alike hn hle) fun params => ?_
  exact .bind (hb _) fun block => .bind (.siteFrom _) fun _ => .pure _

theorem postfixSteps_alike (hn : Alike nested nested') (start : Nat × Nat) (e : Expr) (hle : n ≤ m) :
    Alike (postfixSteps nested start n e) (postfixSteps nested' start m e) := by
  refine Alike.rounds (F := fun nested n e => postfixSteps nested start n e)
    (fun _ _ h => h.right) (fun _ _ => rfl) (fun nested nested' n m hn hle ih e => ?_) hn hle e
  refine .bind (acceptMark_alike _) fun _ => .ite ?_ (.bind (acceptMark_alike _) fun _ => .ite ?_ ?_)
  · exact .bind (ident_alike _) fun name => .bind (.siteFrom _) fun _ => ih _
  · refine .bind (commaList_alike hn _ _ hle) fun indices => .refuse ?_
    exact .bind (.siteFrom _) fun _ => ih _
  refine .bind (acceptMark_alike _) fun _ => .ite ?_ (.pure _)
  exact .bind (commaList_alike hn _ _ hle) fun args => .bind (.siteFrom _) fun _ => ih _

theorem postfixExpr_alike (hn : Alike nested nested') (hb : ∀ context, Alike (body context) (body' context))
    (hle : n ≤ m) : Alike (postfixExpr n nested body) (postfixExpr m nested' body') :=
  .bind .here fun start => .bind (operandHead_alike hn hb hle) fun head =>
    postfixSteps_alike hn start head hle

-- ---------------------------------------------------------------------------
-- Operators
-- ---------------------------------------------------------------------------

theorem chainLeft_alike (op? : TokenKind → Option BinaryOp) (ho : Alike operand operand') (start : Nat × Nat)
    (left : Expr) (hle : n ≤ m) :
    Alike (chainLeft op? operand start n left) (chainLeft op? operand' start m left) := by
  refine Alike.rounds (F := fun operand n left => chainLeft op? operand start n left)
    (fun _ _ h => h.right) (fun _ _ => rfl) (fun operand operand' n m ho _ ih left => ?_) ho hle left
  refine .bind .kind fun k => ?_
  cases op? k with
  | none => exact .pure _
  | some op => exact .bind .advance fun _ => .bind ho fun right => .bind (.siteFrom _) fun _ => ih _

theorem power_alike (ho : Alike operand operand') (hle : n ≤ m) :
    Alike (power n operand) (power m operand') :=
  .bind .here fun start => .bind ho fun left => chainLeft_alike _ ho start left hle

theorem signed_alike (ho : Alike operand operand') : Alike (signed operand) (signed operand') := by
  refine .bind .here fun start => .bind (acceptMark_alike _) fun _ => .ite ?_ ho
  refine .bind .kind fun _ => .ite ?_ (.bind ho fun e => .bind (.siteFrom _) fun _ => .pure _)
  refine .bind .advance fun _ => .bind .kind fun _ => .refuse ?_
  exact .bind (.siteFrom _) fun _ => .pure _

theorem product_alike (ho : Alike operand operand') (hle : n ≤ m) :
    Alike (product n operand) (product m operand') :=
  .bind .here fun start => .bind ho fun left => chainLeft_alike _ ho start left hle

theorem concatParts_alike (ho : Alike operand operand') (hle : n ≤ m) :
    Alike (concatParts operand n) (concatParts operand' m) := by
  refine Alike.rounds (F := fun operand n (_ : Unit) => concatParts operand n)
    (fun _ _ h => h.right) (fun _ _ => rfl) (fun operand operand' n m ho _ ih _ => ?_) ho hle ()
  refine .bind skipNewlines_alike fun _ => .bind ho fun part => .bind (acceptMark_alike _) fun _ => ?_
  exact .ite (.bind (ih ()) fun parts => .pure _) (.pure _)

theorem sum_alike (ho : Alike operand operand') (hle : n ≤ m) : Alike (sum n operand) (sum m operand') := by
  refine .bind .here fun start => .bind ho fun left => .bind (acceptMark_alike _) fun _ => .ite ?_ ?_
  · exact .bind (concatParts_alike ho hle) fun parts => .bind (.siteFrom _) fun _ => .pure _
  · exact chainLeft_alike _ ho start left hle

theorem comparison_alike (ho : Alike operand operand') : Alike (comparison operand) (comparison operand') := by
  refine .bind .here fun start => .bind ho fun left => .bind .kind fun k => ?_
  cases comparisonOp? k with
  | none => exact .pure _
  | some op =>
    refine .bind .advance fun _ => .bind ho fun right => .bind .kind fun _ => .refuse ?_
    exact .bind (.siteFrom _) fun _ => .pure _

theorem negation_alike (ho : Alike operand operand') (hle : n ≤ m) :
    Alike (negation operand n) (negation operand' m) := by
  refine Alike.rounds (F := fun operand n (_ : Unit) => negation operand n)
    (fun _ _ h => h.right) (fun _ _ => rfl) (fun operand operand' n m ho _ ih _ => ?_) ho hle ()
  refine .bind .here fun start => .bind (acceptKw_alike _) fun _ => .ite ?_ ho
  exact .bind (ih ()) fun e => .bind (.siteFrom _) fun _ => .pure _

theorem chainRight_alike (word : Keyword) (op : LogicalOp) (ho : Alike operand operand') (hle : n ≤ m) :
    Alike (chainRight word op operand n) (chainRight word op operand' m) := by
  refine Alike.rounds (F := fun operand n (_ : Unit) => chainRight word op operand n)
    (fun _ _ h => h.right) (fun _ _ => rfl) (fun operand operand' n m ho _ ih _ => ?_) ho hle ()
  refine .bind .here fun start => .bind ho fun left => .bind (acceptKw_alike _) fun _ => .ite ?_ (.pure _)
  exact .bind skipNewlines_alike fun _ => .bind (ih ()) fun right => .bind (.siteFrom _) fun _ => .pure _

theorem conditional_alike (hn : Alike nested nested') (ho : Alike operand operand') :
    Alike (conditional nested operand) (conditional nested' operand') := by
  refine .bind .here fun start => .bind ho fun whenTrue => .bind (acceptKw_alike _) fun _ => ?_
  refine .ite (.bind hn fun cond => .bind (expectKw_alike _ _) fun _ => ?_) (.pure _)
  exact .bind hn fun whenFalse => .bind (.siteFrom _) fun _ => .pure _

theorem expressionWith_alike (hn : Alike nested nested')
    (hb : ∀ context, Alike (body context) (body' context)) (hle : n ≤ m) :
    Alike (expressionWith n nested body) (expressionWith m nested' body') := by
  have hpowers := power_alike (postfixExpr_alike hn hb hle) hle
  have hsums := sum_alike (product_alike (signed_alike hpowers) hle) hle
  have hnegations := negation_alike (comparison_alike hsums) hle
  have hconjunctions := chainRight_alike .andKw .conj hnegations hle
  exact conditional_alike hn (chainRight_alike .orKw .disj hconjunctions hle)

end Expressions

-- ---------------------------------------------------------------------------
-- Blocks
-- ---------------------------------------------------------------------------

section Statements

variable {n m : Nat} {expr expr' : Parser Expr} {statement statement' : Parser Stmt}

theorem statementEnd_alike : Alike statementEnd statementEnd :=
  .bind .kind fun _ => .ite skipSeparators_alike (.ite (.expected _ _) (.pure _))

theorem stmtsUntil_alike (hs : Alike statement statement') (closer : Keyword) (others : List Keyword)
    (context : Context) (hle : n ≤ m) :
    Alike (stmtsUntil statement closer others context n) (stmtsUntil statement' closer others context m) := by
  refine Alike.rounds (F := fun statement n (_ : Unit) => stmtsUntil statement closer others context n)
    (fun _ _ h => h.right) (fun _ _ => rfl) (fun statement statement' n m hs _ ih _ => ?_) hs hle ()
  refine .bind .kind fun _ => .ite (.pure _) (.ite (.expected _ _) ?_)
  exact .bind hs fun stmt => .bind statementEnd_alike fun _ => .bind (ih ()) fun stmts => .pure _

theorem blockUntil_alike (hs : Alike statement statement') (closer : Keyword) (others : List Keyword)
    (context : Context) (hle : n ≤ m) :
    Alike (blockUntil n statement closer others context) (blockUntil m statement' closer others context) :=
  .bind .here fun _ => .bind skipSeparators_alike fun _ =>
    .bind (stmtsUntil_alike hs closer others context hle) fun _ => .pure _

theorem block_alike (hs : Alike statement statement') (context : Context) (hle : n ≤ m) :
    Alike (block n statement context) (block m statement' context) :=
  .bind (blockUntil_alike hs _ _ _ hle) fun _ => .bind (expectKw_alike _ _) fun _ => .pure _

-- ---------------------------------------------------------------------------
-- Statements after their keyword
-- ---------------------------------------------------------------------------

theorem printArgs_alike (he : Alike expr expr') (hle : n ≤ m) :
    Alike (printArgs expr n) (printArgs expr' m) := by
  refine Alike.rounds (F := fun expr n (_ : Unit) => printArgs expr n)
    (fun _ _ h => h.right) (fun _ _ => rfl) (fun expr expr' n m he _ ih _ => ?_) he hle ()
  refine .bind (acceptMark_alike _) fun _ => .ite (.bind .atStatementEnd fun _ => .ite (.pure _) ?_) (.pure _)
  exact .bind he fun arg => .bind (ih ()) fun r => .pure _

theorem namesAfter_alike (hle : n ≤ m) : Alike (namesAfter n) (namesAfter m) := by
  refine Alike.rounds (R := fun _ _ : Unit => True) (F := fun _ n (_ : Unit) => namesAfter n)
    (fun _ _ _ => trivial) (fun _ _ => rfl) (fun _ _ n m _ _ ih _ => ?_) (x := ()) (y := ()) trivial hle ()
  refine .bind (acceptMark_alike _) fun _ => .ite (.bind (ident_alike _) fun name => ?_) (.pure _)
  exact .bind (ih ()) fun names => .pure _

theorem valuesAfter_alike (he : Alike expr expr') (hle : n ≤ m) :
    Alike (valuesAfter expr n) (valuesAfter expr' m) := by
  refine Alike.rounds (F := fun expr n (_ : Unit) => valuesAfter expr n)
    (fun _ _ h => h.right) (fun _ _ => rfl) (fun expr expr' n m he _ ih _ => ?_) he hle ()
  refine .bind (acceptMark_alike _) fun _ => .ite (.bind he fun value => ?_) (.pure _)
  exact .bind (ih ()) fun values => .pure _

theorem declaration_alike (he : Alike expr expr') (hle : n ≤ m) :
    Alike (declaration n expr) (declaration m expr') := by
  refine .bind (ident_alike _) fun first => .bind (namesAfter_alike hle) fun names => ?_
  refine .bind (acceptMark_alike _) fun _ => .ite (.bind he fun value => ?_) (.pure _)
  exact .bind (valuesAfter_alike he hle) fun values => .refuse (.pure _)

theorem elsifBranches_alike {branch branch' : Parser Block} (he : Alike expr expr')
    (hb : Alike branch branch') (hle : n ≤ m) :
    Alike (elsifBranches expr branch n) (elsifBranches expr' branch' m) := by
  refine Alike.rounds (R := fun x y => Alike x.1 y.1 ∧ Alike x.2 y.2)
    (F := fun (x : Parser Expr × Parser Block) n (_ : Unit) => elsifBranches x.1 x.2 n)
    (fun _ _ h => ⟨h.1.right, h.2.right⟩) (fun _ _ => rfl) (fun x y n m h _ ih _ => ?_)
    (x := (expr, branch)) (y := (expr', branch')) ⟨he, hb⟩ hle ()
  refine .bind (acceptKw_alike _) fun _ => .ite (.bind h.1 fun cond => ?_) (.pure _)
  refine .bind (expectKw_alike _ _) fun _ => .bind h.2 fun body => .bind (ih ()) fun others => .pure _

theorem ifBranches_alike (he : Alike expr expr') (hs : Alike statement statement') (hle : n ≤ m) :
    Alike (ifBranches n expr statement) (ifBranches m expr' statement') := by
  have hbranch : Alike (branchBlock n statement) (branchBlock m statement') := blockUntil_alike hs _ _ _ hle
  refine .bind he fun cond => .bind (expectKw_alike _ _) fun _ => .bind hbranch fun body => ?_
  refine .bind (elsifBranches_alike he hbranch hle) fun others => .bind (acceptKw_alike _) fun _ => .ite ?_ ?_
  · refine .bind (.map (blockUntil_alike hs _ _ _ hle)) fun otherwise => ?_
    exact .bind (expectKw_alike _ _) fun _ => .pure _
  · exact .bind (.pure _) fun otherwise => .bind (expectKw_alike _ _) fun _ => .pure _

theorem direction_alike : Alike direction direction :=
  .bind (acceptKw_alike _) fun _ => .ite (.pure _)
    (.bind (acceptKw_alike _) fun _ => .ite (.pure _) (.expected _ _))

theorem forLoop_alike (he : Alike expr expr') (hs : Alike statement statement') (start : Nat × Nat)
    (hle : n ≤ m) : Alike (forLoop n expr statement start) (forLoop m expr' statement' start) := by
  refine .bind (ident_alike _) fun counter => .bind (expectMark_alike _ _) fun _ => ?_
  refine .bind he fun first => .bind direction_alike fun descending => .bind he fun last => ?_
  refine .bind (acceptKw_alike _) fun stepped => optional_alike he fun step => ?_
  refine .bind (expectKw_alike _ _) fun _ => .bind (block_alike hs _ hle) fun body => ?_
  exact .bind (.siteFrom _) fun _ => .pure _

theorem foreachVariables_alike : Alike foreachVariables foreachVariables := by
  refine .bind (acceptKw_alike _) fun _ => .bind (ident_alike _) fun first => ?_
  refine .bind (acceptMark_alike _) fun _ => .ite (.refuse ?_) (.pure _)
  exact .bind (acceptKw_alike _) fun _ => .bind (ident_alike _) fun value => .pure _

theorem foreachLoop_alike (he : Alike expr expr') (hs : Alike statement statement') (start : Nat × Nat)
    (hle : n ≤ m) : Alike (foreachLoop n expr statement start) (foreachLoop m expr' statement' start) := by
  refine .bind foreachVariables_alike fun names => .bind (expectKw_alike _ _) fun _ => .bind he fun collection => ?_
  refine .bind (expectKw_alike _ _) fun _ => .bind (block_alike hs _ hle) fun body => ?_
  exact .bind (.siteFrom _) fun _ => .pure _

theorem functionDeclaration_alike (he : Alike expr expr') (hs : Alike statement statement')
    (start : Nat × Nat) (isLocal : Bool) (hle : n ≤ m) :
    Alike (functionDeclaration n expr statement start isLocal)
      (functionDeclaration m expr' statement' start isLocal) := by
  refine .bind (ident_alike _) fun name => .bind (expectMark_alike _ _) fun _ => ?_
  refine .bind (parameters_alike he hle) fun params => .bind (block_alike hs _ hle) fun body => ?_
  exact .bind (.siteFrom _) fun _ => .pure _

theorem simpleStatement_alike (he : Alike expr expr') (start : Nat × Nat) :
    Alike (simpleStatement expr start) (simpleStatement expr' start) := by
  refine .bind he fun target => .bind .kind fun k => ?_
  cases assignOp? k with
  | none => exact .bind (.siteFrom _) fun _ => .pure _
  | some op =>
    refine .refuse (.bind .advance fun _ => .bind he fun value => ?_)
    exact .bind (.siteFrom _) fun _ => .pure _

-- ---------------------------------------------------------------------------
-- One statement
-- ---------------------------------------------------------------------------

theorem keywordStatement_alike (he : Alike expr expr') (hs : Alike statement statement') (start : Nat × Nat)
    (w : Keyword) (hle : n ≤ m) :
    Alike (keywordStatement n expr statement start w) (keywordStatement m expr' statement' start w) := by
  have hsite {stmt : Site → Stmt} :
      Alike (do return stmt (← siteFrom start)) (do return stmt (← siteFrom start)) :=
    .bind (.siteFrom _) fun _ => .pure _
  have hblock (context : Context) : Alike (block n statement context) (block m statement' context) :=
    block_alike hs context hle
  cases w
  case printKw =>
    refine .bind .atStatementEnd fun _ => .ite hsite (.bind he fun arg => ?_)
    exact .bind (printArgs_alike he hle) fun r => hsite
  case localKw =>
    refine .bind skipNewlines_alike fun _ => .bind (acceptKw_alike _) fun _ => .ite ?_ ?_
    · exact functionDeclaration_alike he hs start true hle
    · exact .bind (declaration_alike he hle) fun r => hsite
  case ifKw => exact .bind (ifBranches_alike he hs hle) fun r => hsite
  case whileKw =>
    exact .bind he fun cond => .bind (expectKw_alike _ _) fun _ => .bind (hblock _) fun body => hsite
  case repeatKw =>
    refine .bind (blockUntil_alike hs _ _ _ hle) fun body => .bind (expectKw_alike _ _) fun _ => ?_
    exact .bind he fun cond => hsite
  case forKw => exact forLoop_alike he hs start hle
  case foreachKw => exact foreachLoop_alike he hs start hle
  case functionKw => exact functionDeclaration_alike he hs start false hle
  case returnKw => exact .bind .atStatementEnd fun _ => .ite hsite (.bind he fun value => hsite)
  case breakKw => exact hsite
  case continueKw => exact hsite
  case passKw => exact hsite
  case assertKw =>
    exact .bind he fun cond => .bind (acceptMark_alike _) fun _ => optional_alike he fun message => hsite
  case throwKw => exact .bind he fun value => hsite
  case doKw => exact .bind (hblock _) fun body => hsite
  case debugKw =>
    exact .bind (accept_alike _) fun _ => .ite (.bind (hblock _) fun body => hsite) (.bind hs fun s => hsite)
  all_goals exact simpleStatement_alike he start

theorem statementWith_alike (he : Alike expr expr') (hs : Alike statement statement') (hle : n ≤ m) :
    Alike (statementWith n expr statement) (statementWith m expr' statement') := by
  refine .bind .here fun start => .bind .kind fun k => ?_
  cases k with
  | keyword w =>
    refine .ite (.bind .advance fun _ => ?_) (simpleStatement_alike he start)
    exact keywordStatement_alike he hs start w hle
  | _ => exact simpleStatement_alike he start

-- ---------------------------------------------------------------------------
-- Recursion
-- ---------------------------------------------------------------------------

/-- One level of nesting more. -/
theorem nested_alike_succ (he : Alike (expressionUpTo n) (expressionUpTo m))
    (hs : Alike (statementUpTo n) (statementUpTo m)) (hle : n ≤ m) :
    Alike (expressionUpTo (n + 1)) (expressionUpTo (m + 1)) ∧
      Alike (statementUpTo (n + 1)) (statementUpTo (m + 1)) := by
  have hle := Nat.succ_le_succ hle
  have hwhole := expressionWith_alike he (fun context => block_alike hs context hle) hle
  exact ⟨hwhole, statementWith_alike hwhole hs hle⟩

theorem nested_alike (hle : n ≤ m) :
    Alike (expressionUpTo n) (expressionUpTo m) ∧ Alike (statementUpTo n) (statementUpTo m) := by
  have hself (m : Nat) :
      Alike (expressionUpTo m) (expressionUpTo m) ∧ Alike (statementUpTo m) (statementUpTo m) := by
    induction m with
    | zero => exact ⟨.fail _, .fail _⟩
    | succ m ih => exact nested_alike_succ ih.1 ih.2 (Nat.le_refl m)
  induction n generalizing m with
  | zero => exact ⟨.exhausted (hself m).1, .exhausted (hself m).2⟩
  | succ n ih =>
    cases m with
    | zero => exact absurd hle (Nat.not_succ_le_zero n)
    | succ m =>
      have hle := Nat.le_of_succ_le_succ hle
      exact nested_alike_succ (ih hle).1 (ih hle).2 hle

-- ---------------------------------------------------------------------------
-- Scripts
-- ---------------------------------------------------------------------------

theorem debugOption_alike (setting : Option Bool) (hle : n ≤ m) :
    Alike (debugOption n setting) (debugOption m setting) := by
  refine Alike.rounds (R := fun _ _ : Unit => True) (F := fun _ n setting => debugOption n setting)
    (fun _ _ _ => trivial) (fun _ _ => rfl) (fun _ _ n m _ _ ih setting => ?_) (x := ()) (y := ()) trivial
    hle setting
  have hnext (value : Bool) : Alike (do skipSeparators; debugOption n (some value))
      (do skipSeparators; debugOption m (some value)) :=
    .bind skipSeparators_alike fun _ => ih _
  refine .bind (acceptKw_alike _) fun _ => .ite (.bind (acceptKw_alike _) fun _ =>
    .ite (.bind .kind fun _ => .bind (.fail _) fun _ => ?_) ?_) (.pure _)
  all_goals
    refine .bind (acceptMark_alike _) fun _ => .ite (.bind (acceptKw_alike _) fun _ => .ite ?_ ?_) ?_
    · exact .bind (.pure _) hnext
    · exact .bind (acceptKw_alike _) fun _ => .ite (.bind (.pure _) hnext) (.bind (.fail _) hnext)
    · exact .bind (.pure _) hnext

theorem topLevel_alike (hs : Alike statement statement') (hle : n ≤ m) :
    Alike (topLevel statement n) (topLevel statement' m) := by
  refine Alike.rounds (F := fun statement n (_ : Unit) => topLevel statement n)
    (fun _ _ h => h.right) (fun _ _ => rfl) (fun statement statement' n m hs _ ih _ => ?_) hs hle ()
  refine .bind .kind fun _ => .ite (.pure _) (.bind hs fun stmt => .bind statementEnd_alike fun _ => ?_)
  have hrest : Alike (do return stmt :: (← topLevel statement n)) (do return stmt :: (← topLevel statement' m)) :=
    .bind (ih ()) fun stmts => .pure _
  exact .bind .kind fun _ => .ite (.bind (.expected _ _) fun _ => hrest) hrest

end Statements

theorem script_alike {n m : Nat} (hle : n ≤ m) : Alike (script n) (script m) :=
  .bind .here fun _ => .bind skipSeparators_alike fun _ => .bind (debugOption_alike none hle) fun _ =>
    .bind (topLevel_alike (nested_alike hle).2 hle) fun _ => .pure _

end Rill.Grammar
