-- SUMMARY: Compilation places every node of the syntax tree.
import Rill.Proofs.Layout.Pieces

/-!
# Compilation places the syntax tree

Whatever the compiler accepts, the code that it emits for a node is code for that node in the finished
routine. The proof follows the recursion of the compiler, one case for each kind of node.
-/

namespace Rill.Compile

open Layout

-- ---------------------------------------------------------------------------
-- Expressions and statements
-- ---------------------------------------------------------------------------

mutual

theorem expression_spans {debug : Bool} {d d' : Draft} {Γ : Env} {use : Use} {e : Expr}
    (h : Good debug d Γ) (hp : e.Proper) (hd : expression use e d = .ok ((), d')) :
    Spans debug d d' Γ fun r out _ => Places anywhere debug r out Γ use e := by
  cases e with
  | null site =>
    simp only [expression] at hd
    refine Spans.atLine h hd fun h hd => ?_
    obtain rfl := emit'_ok.mp hd
    exact Spans.emitted h .pushNull
  | nan site =>
    simp only [expression] at hd
    refine Spans.atLine h hd fun h hd => ?_
    obtain rfl := emit'_ok.mp hd
    exact Spans.emitted h .pushNan
  | bool site b =>
    simp only [expression] at hd
    refine Spans.atLine h hd fun h hd => ?_
    obtain rfl := emit'_ok.mp hd
    exact Spans.emitted h (.pushBool b)
  | int site n =>
    simp only [expression] at hd
    exact Spans.atLine h hd pushInteger_spans
  | float site x =>
    simp only [expression] at hd
    refine Spans.atLine h hd fun h hd => ?_
    simp only [bind_ok, emit'_ok] at hd
    obtain ⟨k, d₁, hk, rfl⟩ := hd
    exact (Spans.emittedWith (floatConstant_region h hk)).imp fun _ _ _ hr => ⟨⟨k, hr.1⟩, hr.2⟩
  | str site s =>
    simp only [expression] at hd
    refine Spans.atLine h hd fun h hd => ?_
    simp only [bind_ok, emit'_ok] at hd
    obtain ⟨k, d₁, hk, rfl⟩ := hd
    exact (Spans.emittedWith (stringConstant_region h hk)).imp fun _ _ _ hr => ⟨⟨k, hr.1⟩, hr.2⟩
  | ident site name =>
    simp only [expression] at hd
    refine Spans.atLine h hd fun h hd => ?_
    simp only [bind_ok, emit'_ok] at hd
    obtain ⟨slot, d₁, hslot, rfl⟩ := hd
    exact (Spans.emittedWith (resolve_region h hp hslot)).imp fun _ _ _ hr => ⟨⟨slot, hr.1⟩, hr.2⟩
  | unary site op operand =>
    simp only [expression] at hd
    refine Spans.atLine h hd fun h hd => ?_
    simp only [bind_ok, emit'_ok] at hd
    obtain ⟨_, d₁, hoperand, rfl⟩ := hd
    have hoperand := expression_spans (e := operand) h hp hoperand
    exact Spans.seq hoperand (.emitted hoperand.good _)
  | binary site op left right =>
    simp only [expression] at hd
    refine Spans.atLine h hd fun h hd => ?_
    simp only [bind_ok, emit'_ok] at hd
    obtain ⟨_, d₁, hleft, _, d₂, hright, rfl⟩ := hd
    have hleft := expression_spans h hp.1 hleft
    have hright := expression_spans hleft.good hp.2 hright
    refine (Spans.seq hleft (Spans.seq hright (.emitted hright.good _))).imp fun r out _ hr => ?_
    obtain ⟨k, hk, l, hl, hop⟩ := hr
    exact ⟨k, l, hk, hl, hop⟩
  | logical site op left right =>
    simp only [expression] at hd
    refine Spans.atLine h hd fun h hd => ?_
    simp only [bind_ok, emit_ok, patchHere_ok] at hd
    obtain ⟨_, d₁, hleft, _, _, ⟨rfl, rfl⟩, _, d₂, hright, rfl⟩ := hd
    have hleft := expression_spans h hp.1 hleft
    have hright := expression_spans (hleft.good.emitted _) hp.2 hright
    have hjump := Region.jumpOver hleft.good hright
    refine (Region.seq hleft hjump).imp fun r out _ hr => ⟨d₁.size, hr.1, ?_⟩
    rw [Draft.size_pointed]
    rw [Draft.size_emitted] at hr
    exact hr.2
  | concat site parts =>
    simp only [expression] at hd
    refine Spans.atLine h hd fun h hd => ?_
    simp only [bind_ok, emit'_ok] at hd
    obtain ⟨_, d₁, hparts, rfl⟩ := hd
    have hparts := expressions_spans h hp hparts
    exact Spans.seq hparts (.emitted hparts.good _)
  | conditional site cond whenTrue whenFalse =>
    simp only [expression] at hd
    refine Spans.atLine h hd fun h hd => ?_
    simp only [bind_ok, emit_ok, patchHere_ok] at hd
    obtain ⟨_, d₁, hcond, _, _, ⟨rfl, rfl⟩, _, d₂, htrue, _, _, ⟨rfl, rfl⟩, _, _, rfl, _, d₃, hfalse,
        rfl⟩ := hd
    have hcond := expression_spans h hp.1 hcond
    have htrue := expression_spans (hcond.good.emitted _) hp.2.1 htrue
    have hjump := Region.jumpOver hcond.good (Region.seq htrue (.hole htrue.good (.jump .always 0)))
    have hfalse := expression_spans hjump.good hp.2.2 hfalse
    have hop : d₃.builder.code.ops[d₂.size]? = some (.jump .always 0) := by
      have hlt := htrue.grows.size
      rw [Draft.size_emitted] at hlt
      rw [hfalse.grows.ops d₂.size (by simp), Draft.ops_pointed, if_neg (by omega), Draft.ops_emitted_size]
    have hall := Region.fill (Region.seq hcond (Region.seq hjump hfalse)) List.not_mem_nil hop
    refine hall.imp fun r out _ hr => ⟨d₁.size, d₂.size, ?_⟩
    simp only [Draft.size_emitted, Draft.size_pointed] at hr ⊢
    obtain ⟨⟨hcond, ⟨hotherwise, htrue, -⟩, hfalse⟩, hexit⟩ := hr
    exact ⟨hcond, hotherwise, htrue, hexit, hfalse⟩
  | field site object name =>
    simp only [expression] at hd
    refine Spans.atLine h hd fun h hd => ?_
    simp only [bind_ok, emit'_ok] at hd
    obtain ⟨_, d₁, hobject, n, d₂, hname, rfl⟩ := hd
    have hobject := expression_spans (e := object) h hp hobject
    refine (Spans.seq hobject (.emittedWith (stringConstant_region hobject.good hname))).imp
      fun r out _ hr => ?_
    obtain ⟨k, hk, ⟨hop, htext⟩, hj⟩ := hr
    exact ⟨k, n, hk, hop, htext, hj⟩
  | index site object indices =>
    simp only [expression] at hd
    refine Spans.atLine h hd fun h hd => ?_
    simp only [bind_ok, emit'_ok] at hd
    obtain ⟨_, d₁, hobject, _, d₂, hindices, rfl⟩ := hd
    have hobject := expression_spans h hp.1 hobject
    have hindices := expressions_spans hobject.good hp.2 hindices
    refine (Spans.seq hobject (Spans.seq hindices (.emitted hindices.good _))).imp fun r out _ hr => ?_
    obtain ⟨k, hk, l, hl, hop⟩ := hr
    exact ⟨k, l, hk, hl, hop⟩
  | call site callee args =>
    simp only [expression] at hd
    refine Spans.atLine h hd fun h hd => ?_
    simp only [bind_ok, emit'_ok] at hd
    obtain ⟨_, d₁, hcallee, _, _, rfl, _, d₂, hargs, rfl⟩ := hd
    have hcallee := expression_spans h hp.1 hcallee
    exact Spans.call hcallee (arguments_spans (hcallee.good.emitted _) hp.2 hargs)
  | ref site target =>
    simp only [expression] at hd
    exact Spans.atLine h hd fun h hd => reference_spans h hp hd
  | list site items =>
    simp only [expression] at hd
    refine Spans.atLine h hd fun h hd => ?_
    simp only [bind_ok, emit'_ok] at hd
    obtain ⟨_, d₁, hitems, rfl⟩ := hd
    have hitems := expressions_spans h hp hitems
    exact Spans.seq hitems (.emitted hitems.good _)
  | array site rows cols items =>
    simp only [expression] at hd
    refine Spans.atLine h hd fun h hd => ?_
    simp only [bind_ok, emit'_ok] at hd
    obtain ⟨_, d₁, hitems, rfl⟩ := hd
    have hitems := expressions_spans h hp.2 hitems
    exact Spans.seq hitems (.emitted hitems.good _)
  | table site entries =>
    simp only [expression] at hd
    refine Spans.atLine h hd fun h hd => ?_
    simp only [bind_ok, emit'_ok] at hd
    obtain ⟨_, d₁, hentries, rfl⟩ := hd
    have hentries := pairs_spans h hp hentries
    exact Spans.seq hentries (.emitted hentries.good _)
  | set site items =>
    simp only [expression] at hd
    refine Spans.atLine h hd fun h hd => ?_
    simp only [bind_ok, emit'_ok] at hd
    obtain ⟨_, d₁, hitems, rfl⟩ := hd
    have hitems := expressions_spans h hp hitems
    exact Spans.seq hitems (.emitted hitems.good _)
  | function site fn =>
    simp only [expression] at hd
    exact Spans.atLine h hd fun h hd => closure_spans h hp hd

theorem reference_spans {debug : Bool} {d d' : Draft} {Γ : Env} {e : Expr}
    (h : Good debug d Γ) (hp : e.Proper) (hd : reference e d = .ok ((), d')) :
    Spans debug d d' Γ fun r out _ => PlacesReference anywhere debug r out Γ e := by
  cases e with
  | ident site name =>
    simp only [reference, bind_ok, emit'_ok] at hd
    obtain ⟨slot, d₁, hslot, rfl⟩ := hd
    exact (Spans.emittedWith (resolve_region h hp hslot)).imp fun _ _ _ hr => ⟨⟨slot, hr.1⟩, hr.2⟩
  | field site object name =>
    simp only [reference, bind_ok, emit'_ok] at hd
    obtain ⟨_, d₁, hobject, n, d₂, hname, rfl⟩ := hd
    have hobject := expression_spans (e := object) h hp hobject
    refine (Spans.seq hobject (.emittedWith (stringConstant_region hobject.good hname))).imp
      fun r out _ hr => ?_
    obtain ⟨k, hk, ⟨hop, htext⟩, hj⟩ := hr
    exact ⟨k, n, hk, hop, htext, hj⟩
  | index site object indices =>
    simp only [reference, bind_ok, emit'_ok] at hd
    obtain ⟨_, d₁, hobject, _, d₂, hindices, rfl⟩ := hd
    have hobject := expression_spans h hp.1 hobject
    have hindices := expressions_spans hobject.good hp.2 hindices
    refine (Spans.seq hobject (Spans.seq hindices (.emitted hindices.good _))).imp fun r out _ hr => ?_
    obtain ⟨k, hk, l, hl, hop⟩ := hr
    exact ⟨k, l, hk, hl, hop⟩
  | call site callee args =>
    simp only [reference, bind_ok, emit'_ok] at hd
    obtain ⟨_, d₁, hcallee, _, _, rfl, _, d₂, hargs, rfl⟩ := hd
    have hcallee := expression_spans h hp.1 hcallee
    exact Spans.call hcallee (arguments_spans (hcallee.good.emitted _) hp.2 hargs)
  | _ => simp only [reference, fail_ok] at hd

theorem expressions_spans {debug : Bool} {d d' : Draft} {Γ : Env} {es : List Expr}
    (h : Good debug d Γ) (hp : ProperAll es) (hd : expressions es d = .ok ((), d')) :
    Spans debug d d' Γ fun r out _ => PlacesAll anywhere debug r out Γ es := by
  cases es with
  | nil =>
    obtain ⟨-, rfl⟩ := pure_ok.mp hd
    exact (Region.refl h).imp fun _ _ _ _ => rfl
  | cons e rest =>
    simp only [expressions, bind_ok] at hd
    obtain ⟨_, d₁, he, hrest⟩ := hd
    have he := expression_spans h hp.1 he
    exact Spans.seq he (expressions_spans he.good hp.2 hrest)

theorem arguments_spans {debug : Bool} {d d' : Draft} {Γ : Env} {position : Nat} {es : List Expr}
    (h : Good debug d Γ) (hp : ProperAll es) (hd : arguments position es d = .ok ((), d')) :
    Spans debug d d' Γ fun r out _ => PlacesArguments anywhere debug r out Γ position es := by
  cases es with
  | nil =>
    obtain ⟨-, rfl⟩ := pure_ok.mp hd
    exact (Region.refl h).imp fun _ _ _ _ => rfl
  | cons e rest =>
    simp only [arguments, bind_ok] at hd
    obtain ⟨_, d₁, he, hrest⟩ := hd
    have he := expression_spans h hp.1 he
    exact Spans.seq he (arguments_spans he.good hp.2 hrest)

theorem pairs_spans {debug : Bool} {d d' : Draft} {Γ : Env} {es : List (Expr × Expr)}
    (h : Good debug d Γ) (hp : ProperPairs es) (hd : pairs es d = .ok ((), d')) :
    Spans debug d d' Γ fun r out _ => PlacesPairs anywhere debug r out Γ es := by
  match es with
  | [] =>
    obtain ⟨-, rfl⟩ := pure_ok.mp hd
    exact (Region.refl h).imp fun _ _ _ _ => rfl
  | (key, value) :: rest =>
    simp only [pairs, bind_ok] at hd
    obtain ⟨_, d₁, hkey, _, d₂, hvalue, hrest⟩ := hd
    have hkey := expression_spans h hp.1 hkey
    have hvalue := expression_spans hkey.good hp.2.1 hvalue
    refine (Spans.seq hkey (Spans.seq hvalue (pairs_spans hvalue.good hp.2.2 hrest))).imp
      fun r out _ hr => ?_
    obtain ⟨k, hk, l, hl, hrest⟩ := hr
    exact ⟨k, l, hk, hl, hrest⟩

theorem closure_spans {debug : Bool} {d d' : Draft} {Γ : Env} {name : String} {fn : Lambda}
    (h : Good debug d Γ) (hp : fn.Proper) (hd : closure name fn d = .ok ((), d')) :
    Spans debug d d' Γ fun r out _ => PlacesClosure anywhere debug r out Γ name fn := by
  match fn with
  | ⟨line, params, ⟨bodyLine, stmts⟩⟩ =>
    simp only [closure] at hd
    split at hd
    · simp only [bind_ok, fail_ok, false_and, exists_false] at hd
    · next hmax =>
      simp only [bind_ok, emit'_ok] at hd
      obtain ⟨child, d₁, hroutine, index, d₂, hchild, _, d₃, hclasses, rfl⟩ := hd
      have hroutine : routine name line (functionBody bodyLine params stmts) d = .ok (child, d₁) := hroutine
      obtain ⟨hsize, hroutine⟩ := routine_region h (fun hc hd => statements_spans hc hp.2 hd) hroutine
      obtain ⟨rfl, rfl⟩ := addChild_ok hchild
      have hclasses := parameterClasses_spans (hroutine.good.withChild child) hp.1 hclasses
      refine (Region.seq hroutine (Spans.closure hclasses)).imp fun r out _ hr => ?_
      obtain ⟨hbody, hentry, k, hk, hop⟩ := hr
      obtain ⟨end_, hstmts, htaken, hreserve, hnull, hresult, hcode⟩ := hbody.body
      rw [hsize] at hk
      exact ⟨_, child, k, end_, hentry, hbody.name, hbody.paramCount, hbody.refFlags, by omega,
        hbody.captures, hstmts, htaken, hreserve, hnull, hresult, hcode, hbody.uses, hk, hop⟩

theorem parameterClasses_spans {debug : Bool} {d d' : Draft} {Γ : Env} {params : List Param}
    (h : Good debug d Γ) (hp : ProperParams params) (hd : parameterClasses params d = .ok ((), d')) :
    Spans debug d d' Γ fun r out _ => PlacesClasses anywhere debug r out Γ params := by
  match params with
  | [] =>
    obtain ⟨-, rfl⟩ := pure_ok.mp hd
    exact (Region.refl h).imp fun _ _ _ _ => rfl
  | ⟨_, _, _, some e⟩ :: rest =>
    simp only [parameterClasses, bind_ok] at hd
    obtain ⟨_, d₁, he, hrest⟩ := hd
    have he := expression_spans h hp.1 he
    exact Spans.seq he (parameterClasses_spans he.good hp.2 hrest)
  | ⟨_, _, _, none⟩ :: rest =>
    simp only [parameterClasses, bind_ok, emit'_ok] at hd
    obtain ⟨_, _, rfl, hrest⟩ := hd
    have hnull := Spans.emitted h .pushNull
    refine (Spans.seq hnull (parameterClasses_spans hnull.good (show ProperParams rest from hp)
      hrest)).imp fun r out _ hr => ?_
    obtain ⟨_, ⟨hop, rfl⟩, hrest⟩ := hr
    exact ⟨hop, hrest⟩

theorem store_spans {debug : Bool} {d d' : Draft} {Γ : Env} {e : Expr}
    (h : Good debug d Γ) (hp : e.Proper) (hd : store e d = .ok ((), d')) :
    Spans debug d d' Γ fun r out _ => PlacesStore anywhere debug r out Γ e := by
  cases e with
  | ident site name =>
    simp only [store, bind_ok, emit'_ok] at hd
    obtain ⟨slot, d₁, hslot, rfl⟩ := hd
    exact (Spans.emittedWith (resolve_region h hp hslot)).imp fun _ _ _ hr => ⟨⟨slot, hr.1⟩, hr.2⟩
  | index site object indices =>
    simp only [store, bind_ok, emit'_ok] at hd
    obtain ⟨_, d₁, hobject, _, d₂, hindices, rfl⟩ := hd
    have hobject := expression_spans h hp.1 hobject
    have hindices := expressions_spans hobject.good hp.2 hindices
    refine (Spans.seq hobject (Spans.seq hindices (.emitted hindices.good _))).imp fun r out _ hr => ?_
    obtain ⟨k, hk, l, hl, hop⟩ := hr
    exact ⟨k, l, hk, hl, hop⟩
  | field site object name =>
    simp only [store, bind_ok, emit'_ok] at hd
    obtain ⟨_, d₁, hobject, n, d₂, hname, rfl⟩ := hd
    have hobject := expression_spans (e := object) h hp hobject
    refine (Spans.seq hobject (.emittedWith (stringConstant_region hobject.good hname))).imp
      fun r out _ hr => ?_
    obtain ⟨k, hk, ⟨hop, htext⟩, hj⟩ := hr
    exact ⟨k, n, hk, hop, htext, hj⟩
  | _ => simp only [store, fail_ok] at hd

theorem statements_spans {debug : Bool} {d d' : Draft} {Γ : Env} {stmts : List Stmt}
    (h : Good debug d Γ) (hp : ProperStmts stmts) (hd : statements stmts d = .ok ((), d')) :
    Spans debug d d' (envAfterAll debug Γ stmts)
      fun r out loop => PlacesAllStmts anywhere debug r out Γ loop stmts := by
  cases stmts with
  | nil =>
    obtain ⟨-, rfl⟩ := pure_ok.mp hd
    exact (Region.refl h).imp fun _ _ _ _ => rfl
  | cons s rest =>
    simp only [statements, bind_ok] at hd
    obtain ⟨_, d₁, hs, hrest⟩ := hd
    have hs := statement_spans h hp.1 hs
    exact (Spans.seq hs (statements_spans hs.good hp.2 hrest)).imp fun _ _ _ hr => ⟨trivial, hr⟩

theorem block_spans {debug : Bool} {d d' : Draft} {Γ : Env} {b : Block}
    (h : Good debug d Γ) (hp : b.Proper) (hd : block b d = .ok ((), d')) :
    Spans debug d d' (envAfterBlock debug Γ b)
      fun r out loop => PlacesBlock anywhere debug r out Γ loop b := by
  match b with
  | ⟨_, stmts⟩ =>
    simp only [block, inScope_ok] at hd
    obtain ⟨d₁, hstmts, rfl⟩ := hd
    have hscope := Region.scope h (statements_spans h.opened hp hstmts)
    refine hscope.imp fun r out loop hr => ?_
    rw [Draft.size_closed]
    exact hr

theorem statement_spans {debug : Bool} {d d' : Draft} {Γ : Env} {s : Stmt}
    (h : Good debug d Γ) (hp : s.Proper) (hd : statement s d = .ok ((), d')) :
    Spans debug d d' (envAfter debug Γ s) fun r out loop => PlacesStmt anywhere debug r out Γ loop s := by
  cases s with
  | expr site value =>
    simp only [statement, bind_ok, setLine_ok, emit'_ok] at hd
    obtain ⟨_, _, rfl, _, d₁, hvalue, rfl⟩ := hd
    have hvalue := expression_spans (h.withLine _) hp hvalue
    exact Spans.afterLine _ (Spans.seq hvalue (.emitted hvalue.good _))
  | assign site op target value =>
    cases op with
    | none =>
      simp only [statement, bind_ok, setLine_ok] at hd
      obtain ⟨_, _, rfl, _, d₁, hvalue, hstore⟩ := hd
      have hvalue := expression_spans (h.withLine _) hp.2 hvalue
      exact Spans.afterLine _ (Spans.seq hvalue (store_spans hvalue.good hp.1 hstore))
    | some op =>
      simp only [statement, bind_ok, setLine_ok, emit'_ok] at hd
      obtain ⟨_, _, rfl, _, d₁, htarget, _, d₂, hvalue, _, _, rfl, hstore⟩ := hd
      have htarget := expression_spans (h.withLine _) hp.1 htarget
      have hvalue := expression_spans htarget.good hp.2 hvalue
      have hop := Spans.emitted hvalue.good (compoundInstruction op)
      have hstore := store_spans hop.good hp.1 hstore
      refine Spans.afterLine _ ((Spans.seq htarget (Spans.seq hvalue (Spans.seq hop hstore))).imp
        fun r out loop hr => ?_)
      obtain ⟨k, hk, l, hl, _, ⟨hop, rfl⟩, hstore⟩ := hr
      exact ⟨k, l, hk, hl, hop, hstore⟩
  | declare site names values =>
    simp only [statement, bind_ok, setLine_ok] at hd
    obtain ⟨_, _, rfl, hd⟩ := hd
    refine Spans.afterLine site.line ?_
    split at hd
    · next hempty =>
      refine (declareNull_region (h.withLine _) hd).imp fun r out loop hr => ?_
      simp only [PlacesStmt, if_pos hempty]
      exact hr
    · next hsome =>
      split at hd
      · simp only [fail_ok] at hd
      · next hlength =>
        simp only [bind_ok] at hd
        obtain ⟨_, d₁, hvalues, slots, d₂, hadd, hdefine⟩ := hd
        have hvalues := expressions_spans (h.withLine _) hp hvalues
        obtain ⟨rfl, hsize, hadd⟩ := addLocals_region hvalues.good hadd
        have hdefine := defineSlots_region hadd.good hdefine
        refine (Region.seq hvalues (Region.seq hadd hdefine)).imp fun r out loop hr => ?_
        obtain ⟨hvalues, -, hdefine⟩ := hr
        simp only [PlacesStmt, if_neg hsome]
        rw [hsize] at hdefine
        exact ⟨by simpa using hlength, d₁.size, hvalues, hdefine⟩
  | function site isLocal name fn =>
    simp only [statement, bind_ok, setLine_ok, get_ok] at hd
    obtain ⟨_, _, rfl, _, _, ⟨rfl, rfl⟩, hd⟩ := hd
    have h := h.withLine site.line
    refine Spans.afterLine site.line ?_
    simp only [h.depth] at hd
    split at hd
    · next hlocal =>
      simp only [bind_ok, emit'_ok] at hd
      obtain ⟨slot, d₁, hslot, _, d₂, hclosure, rfl⟩ := hd
      rw [envAfter, if_pos hlocal]
      rcases functionSlot_region h hslot with ⟨i, hin, rfl, rfl⟩ | ⟨hin, rfl, hsize, hnew⟩
      · have hclosure := closure_spans h hp.2 hclosure
        simp only [hin, Option.isSome_some, if_true]
        refine (Spans.seq hclosure (.emitted hclosure.good _)).imp fun r out loop hr => ?_
        simp only [PlacesStmt, if_pos hlocal, hin]
        exact hr
      · have hclosure := closure_spans hnew.good hp.2 hclosure
        simp only [hin, Option.isSome_none, Bool.false_eq_true, if_false]
        refine (Region.seq hnew (Spans.seq hclosure (.emitted hclosure.good _))).imp fun r out loop hr => ?_
        simp only [PlacesStmt, if_pos hlocal, hin]
        obtain ⟨⟨hnull, hdefine⟩, k, hk, hop⟩ := hr
        rw [hsize] at hk
        exact ⟨hnull, hdefine, k, hk, hop⟩
    · next hglobal =>
      simp only [bind_ok, emit'_ok] at hd
      obtain ⟨_, d₁, hclosure, n, d₂, hname, rfl⟩ := hd
      have hclosure := closure_spans h hp.2 hclosure
      rw [envAfter, if_neg hglobal]
      refine (Spans.seq hclosure (.emittedWith (stringConstant_region hclosure.good hname))).imp
        fun r out loop hr => ?_
      simp only [PlacesStmt, if_neg hglobal]
      obtain ⟨k, hk, ⟨hop, htext⟩, hj⟩ := hr
      exact ⟨k, n, hk, hop, htext, hj⟩
  | print site newline args =>
    simp only [statement, bind_ok, setLine_ok, emit'_ok] at hd
    obtain ⟨_, _, rfl, _, d₁, hargs, rfl⟩ := hd
    have hargs := expressions_spans (h.withLine _) hp hargs
    exact Spans.afterLine _ (Spans.seq hargs (.emitted hargs.good _))
  | branch site arms otherwise =>
    cases otherwise with
    | none =>
      simp only [statement, bind_ok, setLine_ok] at hd
      obtain ⟨_, _, rfl, exits, d₁, harms, hd⟩ := hd
      obtain ⟨hnodup, hjumps, harms⟩ := branches_region (h.withLine site.line) hp.1 harms
      obtain ⟨hsize, hall⟩ := Region.patchAll harms hnodup hjumps hd
      refine Spans.afterLine site.line (hall.imp fun r out loop hr => ?_)
      rw [hsize]
      exact ⟨d₁.size, hr.1 _ hr.2, rfl⟩
    | some otherwise =>
      simp only [statement, bind_ok, setLine_ok] at hd
      obtain ⟨_, _, rfl, exits, d₁, harms, _, d₂, hotherwise, hd⟩ := hd
      obtain ⟨hnodup, hjumps, harms⟩ := branches_region (h.withLine site.line) hp.1 harms
      have hotherwise := block_spans harms.good hp.2 hotherwise
      have hjumps' : ∀ p ∈ exits, d₂.builder.code.ops[p]? = some (.jump .always 0) := fun p hp => by
        rw [hotherwise.grows.ops p (harms.free p hp).2.1, hjumps p hp]
      have hboth := Region.seq harms hotherwise
      rw [List.append_nil] at hboth
      obtain ⟨hsize, hall⟩ := Region.patchAll hboth hnodup hjumps' hd
      refine Spans.afterLine site.line (hall.imp fun r out loop hr => ?_)
      rw [hsize]
      exact ⟨d₁.size, hr.1.1 _ hr.2, hr.1.2⟩
  | whileLoop site cond body =>
    simp only [statement, bind_ok, setLine_ok, here_ok, emit_ok, emit'_ok, enterLoop_ok, patchHere_ok,
      exitLoop_ok] at hd
    obtain ⟨_, _, rfl, _, _, ⟨rfl, rfl⟩, _, d₁, hcond, _, _, ⟨rfl, rfl⟩, _, _, rfl, _, d₂, hbody, _, _, rfl,
      _, _, rfl, rfl⟩ := hd
    have hcond := expression_spans (h.withLine _) hp.1 hcond
    have hbody := block_spans (hcond.good.emitted _).entered hp.2 hbody
    have hback := Spans.emitted hbody.good (.jump .always d.size)
    have hloop := Region.guardedLoop hcond.good (Spans.seq hbody hback) d.size
    refine Spans.afterLine _ ((Region.seq hcond hloop).imp fun r out loop hr => ?_)
    obtain ⟨hcond, hexit, l, hl, hback, hj⟩ := hr
    simp only [Draft.size_exited, Draft.size_pointed, Draft.size_entered, Draft.size_emitted]
      at hexit hl hj ⊢
    exact ⟨d₁.size, l, hcond, hexit, hl, hback, hj⟩
  | repeatLoop site body cond =>
    obtain ⟨_, stmts⟩ := body
    simp only [statement, bind_ok, setLine_ok, here_ok, emit'_ok, enterLoop_ok, openScope_ok, closeScope_ok,
      exitLoop_ok] at hd
    obtain ⟨_, _, rfl, _, _, ⟨rfl, rfl⟩, _, _, rfl, _, _, rfl, _, d₁, hstmts, _, _, ⟨rfl, rfl⟩, _, d₂,
      hcond, _, _, rfl, _, _, rfl, rfl⟩ := hd
    have hg := (h.withLine site.line).entered
    have hstmts := statements_spans hg.opened hp.1 hstmts
    have hcond := expression_spans hstmts.good hp.2 hcond
    have hscope := Region.scope hg (Region.seq hstmts hcond)
    have hback := Region.emitted hscope.good (.jump .ifFalse d.size)
    have hloop := Region.loop (h.withLine site.line) (Region.seq hscope hback) d₁.size
    refine Spans.afterLine _ (hloop.imp fun r out loop hr => ?_)
    obtain ⟨⟨hstmts, hcond⟩, hback⟩ := hr
    simp only [Draft.size_exited, Draft.size_emitted, Draft.size_closed] at hstmts hcond hback ⊢
    exact ⟨d₁.size, d₂.size, hstmts, hcond, hback, rfl⟩
  | forLoop site counter descending first last step body =>
    simp only [statement_forLoop, bind_ok, setLine_ok, inScope_ok] at hd
    obtain ⟨_, _, rfl, d₉, ⟨_, d₁, hfirst, _, d₂, hcounter, _, d₃, hlast, _, d₄, hlimit, hd⟩, rfl⟩ := hd
    have hg := h.withLine site.line
    have hfirst := expression_spans hg.opened hp.1 hfirst
    obtain ⟨rfl, hsize₂, hcounter⟩ := defineLocal_region hfirst.good hcounter
    have hlast := expression_spans hcounter.good hp.2.1 hlast
    obtain ⟨rfl, hsize₄, hlimit⟩ := defineLocal_region hlast.good hlimit
    cases step with
    | none =>
      simp only [bind_ok, pure_ok] at hd
      obtain ⟨_, _, ⟨rfl, rfl⟩, hrounds⟩ := hd
      have hrounds := counterRounds_spans hlimit.good (fun hc hd => block_spans hc hp.2.2.2 hd) hrounds
      have hscope := Region.scope hg (Region.seq hfirst (Region.seq hcounter (Region.seq hlast
        (Region.seq hlimit hrounds))))
      refine Spans.afterLine site.line (hscope.imp fun r out loop hr => ?_)
      obtain ⟨hfirst, hcounter, hlast, hlimit, n, o, hread, hrest⟩ := hr
      rw [Draft.size_closed]
      rw [hsize₂] at hlast
      exact ⟨d₁.size, d₃.size, d₄.size, n, o, hfirst, hcounter, hlast, hlimit, hsize₄, hread, hrest⟩
    | some step =>
      simp only [bind_ok] at hd
      obtain ⟨_, d₆, hstep, stepSlot, d₅, hmap, hrounds⟩ := hd
      have hstep := expression_spans hlimit.good hp.2.2.1 hstep
      obtain ⟨_, rfl, hlocal⟩ := map_ok hmap
      obtain ⟨rfl, hsize₅, hdefine⟩ := defineLocal_region hstep.good hlocal
      have hrounds := counterRounds_spans hdefine.good (fun hc hd => block_spans hc hp.2.2.2 hd) hrounds
      have hscope := Region.scope hg (Region.seq hfirst (Region.seq hcounter (Region.seq hlast
        (Region.seq hlimit (Region.seq hstep (Region.seq hdefine hrounds))))))
      refine Spans.afterLine site.line (hscope.imp fun r out loop hr => ?_)
      obtain ⟨hfirst, hcounter, hlast, hlimit, hstep, hdefine, n, o, hread, hrest⟩ := hr
      rw [Draft.size_closed]
      rw [hsize₂] at hlast
      rw [hsize₄] at hstep
      exact ⟨d₁.size, d₃.size, d₅.size, n, o, hfirst, hcounter, hlast, hlimit,
        ⟨d₆.size, hstep, hdefine, hsize₅⟩, hread, hrest⟩
  | foreachLoop site key value byRef collection body =>
    obtain ⟨_, stmts⟩ := body
    simp only [statement_foreachLoop, bind_ok, setLine_ok, inScope_ok, emit'_ok] at hd
    obtain ⟨_, _, rfl, d₃, ⟨_, d₁, hcoll, _, _, rfl, _, d₂, hiter, hrounds⟩, rfl⟩ := hd
    have hg := h.withLine site.line
    have hcoll := expression_spans hg.opened hp.1 hcoll
    have hiterate := Region.emitted hcoll.good (.iterate byRef)
    obtain ⟨rfl, hsize₂, hiter⟩ := defineLocal_region hiterate.good hiter
    have hrounds := iteratorRounds_spans hiter.good (fun hc => roundBody_spans hc fun hc hd =>
        statements_spans hc hp.2 hd) hrounds
    have hall := Region.scope hg (Region.seq hcoll (Region.seq hiterate (Region.seq hiter hrounds)))
    refine Spans.afterLine site.line (hall.imp fun r out loop hr => ?_)
    obtain ⟨hcoll, hiterate, hiter, m, hread, hnext, hexit, ⟨l, hkey, hbody⟩, hback, hj⟩ := hr
    rw [Draft.size_emitted] at hsize₂ hiter
    rw [Draft.size_closed]
    rw [hsize₂] at hread hnext hexit hkey hbody hback
    exact ⟨d₁.size, l, m, hcoll, hiterate, hiter, hread, hnext, hexit, hkey, hbody.1, hbody.2.1,
      hbody.2.2.1, hbody.2.2.2, hback, hj⟩
  | result site value =>
    cases value with
    | some e =>
      simp only [statement, bind_ok, setLine_ok, emit'_ok] at hd
      obtain ⟨_, _, rfl, _, d₁, he, rfl⟩ := hd
      have he := expression_spans (h.withLine _) hp he
      exact Spans.afterLine _ (Spans.seq he (.emitted he.good _))
    | none =>
      simp only [statement, bind_ok, setLine_ok, emit'_ok] at hd
      obtain ⟨_, _, rfl, _, _, rfl, rfl⟩ := hd
      have hnull := Spans.emitted (h.withLine site.line) .pushNull
      refine Spans.afterLine _ ((Spans.seq hnull (.emitted hnull.good _)).imp fun r out loop hr => ?_)
      obtain ⟨_, ⟨hnull, rfl⟩, hresult, hj⟩ := hr
      exact ⟨hnull, hresult, hj⟩
  | leave site =>
    simp only [statement, bind_ok, setLine_ok] at hd
    obtain ⟨_, _, rfl, hjump⟩ := hd
    exact Spans.afterLine _ (leave_spans (h.withLine _) hjump)
  | next site =>
    simp only [statement, bind_ok, setLine_ok] at hd
    obtain ⟨_, _, rfl, hjump⟩ := hd
    exact Spans.afterLine _ (next_spans (h.withLine _) hjump)
  | pass site =>
    simp only [statement, setLine_ok] at hd
    obtain rfl := hd
    exact Spans.afterLine _ ((Region.refl (h.withLine _)).imp fun _ _ _ _ => rfl)
  | assert site cond message =>
    cases message with
    | some message =>
      simp only [statement, bind_ok, setLine_ok, emit'_ok] at hd
      obtain ⟨_, _, rfl, _, d₁, hcond, _, d₂, hmessage, rfl⟩ := hd
      have hcond := expression_spans (h.withLine _) hp.1 hcond
      have hmessage := expression_spans hcond.good hp.2 hmessage
      refine Spans.afterLine _ ((Spans.seq hcond (Spans.seq hmessage (.emitted hmessage.good _))).imp
        fun r out loop hr => ?_)
      obtain ⟨k, hk, l, hl, hop⟩ := hr
      exact ⟨k, l, hk, hl, hop⟩
    | none =>
      simp only [statement, bind_ok, setLine_ok, emit'_ok] at hd
      obtain ⟨_, _, rfl, _, d₁, hcond, rfl⟩ := hd
      have hcond := expression_spans (h.withLine _) hp.1 hcond
      exact Spans.afterLine _ (Spans.seq hcond (.emitted hcond.good _))
  | throw site value =>
    simp only [statement, bind_ok, setLine_ok, emit'_ok] at hd
    obtain ⟨_, _, rfl, _, d₁, hvalue, rfl⟩ := hd
    have hvalue := expression_spans (h.withLine _) hp hvalue
    exact Spans.afterLine _ (Spans.seq hvalue (.emitted hvalue.good _))
  | debug site body =>
    simp only [statement, bind_ok, setLine_ok, get_ok] at hd
    obtain ⟨_, _, rfl, _, _, ⟨rfl, rfl⟩, hd⟩ := hd
    have h := h.withLine site.line
    refine Spans.afterLine site.line ?_
    split at hd
    · next hdebug =>
      obtain rfl : debug = true := h.debug.symm.trans hdebug
      exact block_spans h hp hd
    · next hdebug =>
      obtain rfl : debug = false := h.debug.symm.trans (by simpa using hdebug)
      obtain ⟨-, rfl⟩ := pure_ok.mp hd
      exact (Region.refl h).imp fun _ _ _ _ => rfl
  | block site body =>
    simp only [statement, bind_ok, setLine_ok] at hd
    obtain ⟨_, _, rfl, hbody⟩ := hd
    exact Spans.afterLine _ (block_spans (h.withLine _) hp hbody)

theorem branches_region {debug : Bool} {d d' : Draft} {Γ : Env} {arms : List (Expr × Block)}
    {exits : List Nat} (h : Good debug d Γ) (hp : ProperArms arms)
    (hd : branches arms d = .ok (exits, d')) :
    exits.Nodup ∧ (∀ p ∈ exits, d'.builder.code.ops[p]? = some (.jump .always 0)) ∧
      Region debug d d' (envAfterArms debug Γ arms) exits fun r out loop =>
        ∀ exit, (∀ p ∈ exits, r.Has p (.jump .always exit)) →
          PlacesArms anywhere debug r out Γ loop exit arms d.size d'.size := by
  match arms with
  | [] =>
    obtain ⟨rfl, rfl⟩ := pure_ok.mp hd
    exact ⟨List.nodup_nil, by simp, (Region.refl h).imp fun _ _ _ _ _ _ => rfl⟩
  | (cond, body) :: rest =>
    simp only [branches, bind_ok, setLine_ok, emit_ok, patchHere_ok, pure_ok] at hd
    obtain ⟨_, _, rfl, _, d₁, hcond, _, _, ⟨rfl, rfl⟩, _, d₂, hbody, _, _, ⟨rfl, rfl⟩, _, _, rfl, exits, d₃,
      hrest, rfl, rfl⟩ := hd
    have hcond := expression_spans (h.withLine cond.site.line) hp.1 hcond
    have hbody := block_spans (hcond.good.emitted _) hp.2.1 hbody
    have harm := Region.jumpOver hcond.good (Region.seq hbody (.hole hbody.good (.jump .always 0)))
    obtain ⟨hnodup, hjumps, hrest⟩ := branches_region harm.good hp.2.2 hrest
    have hlt := hbody.grows.size
    rw [Draft.size_emitted] at hlt
    have hall := Region.withLines (Region.seq hcond (Region.seq harm hrest)) d.line d₃.line
    refine ⟨List.nodup_cons.mpr ⟨fun hmem => ?_, hnodup⟩, fun p hp => ?_,
      hall.imp fun r out loop hr exit hexits => ?_⟩
    · have := (hrest.free _ hmem).1
      simp only [Draft.size_pointed, Draft.size_emitted] at this
      omega
    · rcases List.mem_cons.mp hp with rfl | hp
      · rw [hrest.grows.ops d₂.size (by simp), Draft.ops_pointed, if_neg (by omega), Draft.ops_emitted_size]
      · exact hjumps p hp
    · obtain ⟨hcond, ⟨hotherwise, hbody, -⟩, hrest⟩ := hr
      have hrest := hrest exit fun p hp => hexits p (List.mem_cons_of_mem _ hp)
      have hexit := hexits d₂.size List.mem_cons_self
      simp only [Draft.size_pointed, Draft.size_emitted] at hotherwise hbody hrest
      exact ⟨d₁.size, d₂.size, hcond, hotherwise, hbody, hexit, hrest⟩

end

-- ---------------------------------------------------------------------------
-- Scripts
-- ---------------------------------------------------------------------------

end Rill.Compile

namespace Rill.Layout

open Compile

/-- The draft with which the compilation of a script begins. -/
def startOf (s : Script) (file : String) (debug : Bool) : Draft :=
  { file    := file
    debug   := s.debug.getD debug
    line    := s.body.line
    builder := { name := "<main>" } }

theorem startOf_good (s : Script) (file : String) (debug : Bool) :
    Good (s.debug.getD debug) (startOf s file debug).opened { depth := 1 } := by
  refine ⟨rfl, rfl, rfl, rfl, Nat.one_pos, ?_, ?_, ?_, ?_, rfl⟩ <;> simp [startOf, Draft.opened]

theorem compile_ok {s : Script} {file : String} {debug : Bool} {r : Routine}
    (h : compile s file debug = .ok r) :
    ∃ d, Compile.script s.body (startOf s file debug) = .ok ((), d) ∧ d.builder.finish file = r := by
  simp only [compile] at h
  split at h
  · next draft hdraft =>
    cases h
    exact ⟨draft, hdraft, rfl⟩
  · cases h

/-- What `compile` returns is code for the script. -/
theorem compile_places {s : Script} {file : String} {debug : Bool} {r : Routine}
    (hp : s.body.Proper) (h : compile s file debug = .ok r) :
    PlacesScript anywhere (s.debug.getD debug) r s.body.stmts := by
  obtain ⟨setting, ⟨line, stmts⟩⟩ := s
  obtain ⟨d, hscript, rfl⟩ := compile_ok h
  have hopened := startOf_good ⟨setting, ⟨line, stmts⟩⟩ file debug
  unfold Compile.script at hscript
  simp only [bind_ok, openScope_ok, emit'_ok] at hscript
  obtain ⟨_, _, rfl, _, _, rfl, _, d₁, hstmts, _, _, rfl, rfl⟩ := hscript
  have hstmts := statements_spans (hopened.emitted (.reserve 0)) hp hstmts
  have hnull := Region.emitted hstmts.good .pushNull
  have hresult := Region.emitted hnull.good .result
  have hall := Region.seq hstmts (Region.seq hnull hresult)
  have hout : FitsOuter ((d₁.emitted .pushNull).emitted .result).enclosing [] := by
    have hnil : SharesAll [] ((d₁.emitted .pushNull).emitted .result).enclosing := hall.grows.enclosing
    rw [List.forall₂_nil_left_iff.mp hnil]
    exact .nil
  have hfit : Compile.Fits ((d₁.emitted .pushNull).emitted .result)
      (((d₁.emitted .pushNull).emitted .result).builder.finish file) [] none 1 [] :=
    Compile.Fits.finish rfl hall.grows.loops hout
  obtain ⟨hplaces, hnull, hresult⟩ := hall.places _ _ _ hfit
  rw [Draft.size_emitted] at hresult
  have hcaptures := hall.good.captures
  rw [List.forall₂_nil_right_iff.mp hout] at hcaptures
  refine ⟨d₁.size, hcaptures, hplaces, ?_, finish_reserve ?_, hnull, hresult, ?_, ?_⟩
  · rw [← hall.good.taken]
    simp [Builder.finish, Routine.frameSize]
  · exact Nat.lt_of_lt_of_le Nat.one_pos hall.grows.size
  · simp only [Builder.finish, Code.size, Code.patch, Array.size_setIfInBounds]
    exact ((d₁.emitted .pushNull).size_emitted .result).trans (by rw [Draft.size_emitted])
  · exact hall.covers.finish rfl rfl _ _

end Rill.Layout
