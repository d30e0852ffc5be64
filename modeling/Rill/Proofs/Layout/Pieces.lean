-- SUMMARY: Steps of the compiler between a node and its subnodes: emitted operands, jumps, rounds of loops.
import Rill.Proofs.Layout.Closure

/-!
# Pieces of nodes

What the compiler emits around the code of subnodes. A loop that keeps hidden variables is compiled as their
definition and the rounds, so that one lemma covers the rounds of every such loop.
-/

namespace Rill.Compile

open Layout

section Steps

variable {debug : Bool} {d d₁ d' : Draft} {Γ Γ' : Env} {P : Routine → Outer → Loop → Nat → Nat → Prop}

/-- What is compiled at another line is compiled. -/
theorem Spans.atLine {line : Nat} {body : Compiler Unit} (h : Good debug d Γ)
    (hd : atLine line body d = .ok ((), d'))
    (hbody : ∀ {d₀ d₁ : Draft}, Good debug d₀ Γ → body d₀ = .ok ((), d₁) → Spans debug d₀ d₁ Γ' P) :
    Spans debug d d' Γ' P := by
  obtain ⟨d₁, hbody', rfl⟩ := atLine_ok hd
  exact (hbody (h.withLine line) hbody').withLines d.line d.line

/-- What is compiled after a change of line is compiled. -/
theorem Spans.afterLine (line : Nat) (hbody : Spans debug (d.onLine line) d' Γ' P) :
    Spans debug d d' Γ' P :=
  Region.withLines hbody d.line d'.line

/-- An instruction whose operand was looked up before it is emitted. -/
theorem Spans.emittedWith {Q : Routine → Outer → Loop → Prop} {op : Instruction}
    (hs : d₁.size = d.size ∧ Region debug d d₁ Γ [] Q) :
    Spans debug d (d₁.emitted op) Γ fun r out loop i j => (r.Has i op ∧ Q r out loop) ∧ j = i + 1 := by
  obtain ⟨hsize, hr⟩ := hs
  refine (hr.seq (.emitted hr.good op)).imp fun r out loop h => ⟨⟨hsize ▸ h.2, h.1⟩, ?_⟩
  rw [Draft.size_emitted, hsize]

theorem pushInteger_spans {n : Int64} (h : Good debug d Γ) (hd : pushInteger n d = .ok ((), d')) :
    Spans debug d d' Γ fun r _ _ i j => PlacesInt r n i ∧ j = i + 1 := by
  unfold pushInteger at hd
  split at hd
  · next hsmall =>
    obtain rfl := emit'_ok.mp hd
    refine (Spans.emitted h _).imp fun r _ _ hr => ⟨?_, hr.2⟩
    rw [PlacesInt, if_pos hsmall]
    exact hr.1
  · next hlarge =>
    simp only [bind_ok, emit'_ok] at hd
    obtain ⟨k, d₁, hk, rfl⟩ := hd
    refine (Spans.emittedWith (integerConstant_region h hk)).imp fun r _ _ hr => ⟨?_, hr.2⟩
    rw [PlacesInt, if_neg hlarge]
    exact ⟨k, hr.1⟩

/-- A call, made of its callee and its arguments. -/
theorem Spans.call {d₂ : Draft} {callee : Expr} {args : List Expr} {keepRef : Bool}
    (hcallee : Spans debug d d₁ Γ fun r out _ => Places anywhere debug r out Γ .value callee)
    (hargs : Spans debug (d₁.emitted .precall) d₂ Γ fun r out _ =>
      PlacesArguments anywhere debug r out Γ 0 args) :
    Spans debug d (d₂.emitted (.call args.length keepRef)) Γ fun r out _ i j =>
      ∃ k l, Places anywhere debug r out Γ .value callee i k ∧ r.Has k .precall ∧
        PlacesArguments anywhere debug r out Γ 0 args (k + 1) l ∧
        r.Has l (.call args.length keepRef) ∧ j = l + 1 := by
  refine (Spans.seq hcallee (Spans.seq (.emitted hcallee.good _) (Spans.seq hargs
    (.emitted hargs.good _)))).imp fun r out _ hr => ?_
  obtain ⟨k, hk, _, ⟨hpre, rfl⟩, l, hl, hop⟩ := hr
  exact ⟨k, l, hk, hpre, hl, hop⟩

/-- The draft with one more child. -/
def Draft.withChild (d : Draft) (child : Routine) : Draft :=
  { d with builder := { d.builder with children := d.builder.children.push child } }

theorem addChild_ok {child : Routine} {index : Nat} (hd : addChild child d = .ok (index, d')) :
    index = d.builder.children.size ∧ d' = d.withChild child := by
  unfold addChild at hd
  simp only [bind_ok, get_ok, modifyBuilder_ok, pure_ok] at hd
  obtain ⟨_, _, ⟨rfl, rfl⟩, _, _, rfl, rfl, rfl⟩ := hd
  exact ⟨rfl, rfl⟩

theorem Good.withChild (h : Good debug d Γ) (child : Routine) : Good debug (d.withChild child) Γ :=
  ⟨h.debug, h.names, h.taken, h.depth, h.inScope, h.declared, h.ordered, h.counted, h.waiting, h.captures⟩

/-- The code that makes a child a function, with a piece of code before it. -/
theorem Spans.closure {child : Routine} {params : Nat} {P : Routine → Outer → Loop → Nat → Nat → Prop}
    (h : Spans debug (d.withChild child) d₁ Γ P) :
    Spans debug d (d₁.emitted (.closure d.builder.children.size params)) Γ fun r out loop i j =>
      r.children[d.builder.children.size]? = some child ∧
        ∃ k, P r out loop i k ∧ r.Has k (.closure d.builder.children.size params) ∧ j = k + 1 := by
  have hemit := Spans.emitted h.good (.closure d.builder.children.size params)
  have hboth := Spans.seq h hemit
  have hgrows : Grows d (d.withChild child) :=
    { Grows.refl d with
      kept := { Builder.Kept.refl d.builder with
        children := by simp only [Draft.withChild, Array.toList_push, List.prefix_append] } }
  refine ⟨hboth.good, hgrows.trans hboth.grows, fun k hlo hhi => ?_, by simp, fun r out loop hf => ?_⟩
  · rcases Nat.eq_or_lt_of_le hlo with rfl | hlt
    · exact ⟨d₁.size, params, h.grows.size, d₁.ops_emitted_size _⟩
    · have hsize : (d.withChild child).builder.children.size = d.builder.children.size + 1 :=
        Array.size_push ..
      exact hboth.covers k (hsize ▸ hlt) hhi
  · refine ⟨?_, hboth.places r out loop hf⟩
    have hwithin := hf.within.of_kept hboth.grows.kept
    exact prefix_getElem? hwithin.children Array.getElem?_push_size

/-- All jumps to the end of a region are pointed there. -/
theorem Region.patchAll {hs : List Nat} {Q : Routine → Outer → Loop → Prop}
    (h : Region debug d d₁ Γ hs Q) (hnodup : hs.Nodup)
    (hops : ∀ p ∈ hs, d₁.builder.code.ops[p]? = some (.jump .always 0))
    (hd : hs.forM patchHere d₁ = .ok ((), d')) :
    d'.size = d₁.size ∧
      Region debug d d' Γ [] fun r out loop =>
        Q r out loop ∧ ∀ p ∈ hs, r.Has p (.jump .always d₁.size) := by
  have hrun : ∀ {d₁ : Draft}, hs.forM patchHere d₁ = .ok ((), d') →
      d'.size = d₁.size ∧ hs.foldl (fun d p => d.pointed p d.size) d₁ = d' := by
    clear hops hd h hnodup
    induction hs with
    | nil =>
      intro d₁ hd
      obtain ⟨-, rfl⟩ := pure_ok.mp hd
      exact ⟨rfl, rfl⟩
    | cons p hs ih =>
      intro d₁ hd
      simp only [List.forM, bind_ok, patchHere_ok] at hd
      obtain ⟨_, _, rfl, hrest⟩ := hd
      simpa using ih hrest
  exact ⟨(hrun hd).1, h.fillAll hnodup hops (hrun hd).2⟩

/-- A jump out of the innermost loop. -/
theorem loopJump_ok {word : String} {enter : Nat → LoopJumps → LoopJumps}
    (hd : loopJump word enter d = .ok ((), d')) :
    ∃ jumps rest, d.builder.loops = jumps :: rest ∧ d' = d.jumped (enter d.size jumps) rest := by
  unfold loopJump at hd
  simp only [bind_ok, emit_ok, get_ok] at hd
  obtain ⟨_, _, ⟨rfl, rfl⟩, _, _, ⟨rfl, rfl⟩, hd⟩ := hd
  have hloops : (d.emitted (.jump .always 0)).builder.loops = d.builder.loops := rfl
  rw [hloops] at hd
  cases hl : d.builder.loops with
  | nil => simp only [hl, fail_ok] at hd
  | cons jumps rest =>
    simp only [hl, modifyBuilder_ok] at hd
    exact ⟨jumps, rest, rfl, hd.symm⟩

theorem leave_spans (h : Good debug d Γ)
    (hd : loopJump "break" (fun jump jumps => { jumps with leaves := jump :: jumps.leaves }) d =
      .ok ((), d')) :
    Spans debug d d' Γ fun r _ loop i j =>
      (∃ ends, loop = some ends ∧ r.Has i (.jump .always ends.1)) ∧ j = i + 1 := by
  obtain ⟨jumps, rest, hloops, rfl⟩ := loopJump_ok hd
  exact (Region.leave h hloops).imp fun _ _ _ hr => ⟨hr, d.size_emitted _⟩

theorem next_spans (h : Good debug d Γ)
    (hd : loopJump "continue" (fun jump jumps => { jumps with nexts := jump :: jumps.nexts }) d =
      .ok ((), d')) :
    Spans debug d d' Γ fun r _ loop i j =>
      (∃ ends, loop = some ends ∧ r.Has i (.jump .always ends.2)) ∧ j = i + 1 := by
  obtain ⟨jumps, rest, hloops, rfl⟩ := loopJump_ok hd
  exact (Region.next h hloops).imp fun _ _ _ hr => ⟨hr, d.size_emitted _⟩

-- ---------------------------------------------------------------------------
-- Loops
-- ---------------------------------------------------------------------------

/-- The rounds of a loop with a counter, once its hidden variables have their slots. -/
def counterRounds (line slot limit : Nat) (stepSlot : Option Nat) (descending : Bool) (body : Block) :
    Compiler Unit := do
  let top ← here
  emit' (.read (.frame slot) .value)
  emit' (.read (.frame limit) .value)
  emit' (.binary (if descending then .lt else .gt))
  let exit ← emit (.jump .ifTrue 0)
  enterLoop
  block body
  setLine line
  let next ← here
  match stepSlot with
  | some stepSlot =>
    emit' (.read (.frame slot) .value)
    emit' (.read (.frame stepSlot) .value)
    emit' (.binary (if descending then .sub else .add))
    emit' (.write (.frame slot))
  | none => emit' (.count slot (!descending))
  emit' (.jump .always top)
  patchHere exit
  exitLoop next

/-- The draft in which a counter has been compared with its limit. -/
def Draft.compared (d : Draft) (slot limit : Nat) (descending : Bool) : Draft :=
  ((d.emitted (.read (.frame slot) .value)).emitted (.read (.frame limit) .value)).emitted
    (.binary (if descending then .lt else .gt))

/-- The draft in which a counter has been moved on. -/
def Draft.stepped (d : Draft) (slot : Nat) (stepSlot : Option Nat) (descending : Bool) : Draft :=
  match stepSlot with
  | some step =>
    (((d.emitted (.read (.frame slot) .value)).emitted (.read (.frame step) .value)).emitted
      (.binary (if descending then .sub else .add))).emitted (.write (.frame slot))
  | none => d.emitted (.count slot (!descending))

theorem stepped_spans (h : Good debug d Γ) (slot : Nat) (stepSlot : Option Nat) (descending : Bool) :
    Spans debug d (d.stepped slot stepSlot descending) Γ
      fun r _ _ => PlacesStep r slot stepSlot descending := by
  cases stepSlot with
  | none => exact Spans.emitted h _
  | some step =>
    have hread := Spans.emitted h (.read (.frame slot) .value)
    have hstep := Spans.emitted hread.good (.read (.frame step) .value)
    have hop := Spans.emitted hstep.good (.binary (if descending then .sub else .add))
    have hwrite := Spans.emitted hop.good (.write (.frame slot))
    refine (Spans.seq hread (Spans.seq hstep (Spans.seq hop hwrite))).imp fun r out loop hr => ?_
    obtain ⟨_, ⟨hread, rfl⟩, _, ⟨hstep, rfl⟩, _, ⟨hop, rfl⟩, hwrite, hj⟩ := hr
    exact ⟨hread, hstep, hop, hwrite, hj⟩

theorem counterRounds_spans {line slot limit : Nat} {stepSlot : Option Nat} {descending : Bool}
    {body : Block}
    (h : Good debug d Γ)
    (hbody : ∀ {c c' : Draft}, Good debug c Γ → block body c = .ok ((), c') →
      Spans debug c c' (envAfterBlock debug Γ body) fun r out loop =>
        PlacesBlock anywhere debug r out Γ loop body)
    (hd : counterRounds line slot limit stepSlot descending body d = .ok ((), d')) :
    Spans debug d d' (envAfterBlock debug Γ body) fun r out _ m j => ∃ n o,
      r.Has m (.read (.frame slot) .value) ∧ r.Has (m + 1) (.read (.frame limit) .value) ∧
      r.Has (m + 2) (.binary (if descending then .lt else .gt)) ∧ r.Has (m + 3) (.jump .ifTrue j) ∧
      PlacesBlock anywhere debug r out Γ (some (j, n)) body (m + 4) n ∧
      PlacesStep r slot stepSlot descending n o ∧ r.Has o (.jump .always m) ∧ j = o + 1 := by
  have hread := Spans.emitted h (.read (.frame slot) .value)
  have hlimit := Spans.emitted hread.good (.read (.frame limit) .value)
  have htest := Spans.emitted hlimit.good (.binary (if descending then .lt else .gt))
  -- all steps but the body and the end of the loop succeed by computation
  have hrun : (block body ((d.compared slot limit descending).emitted (.jump .ifTrue 0)).entered >>= fun
      p =>
      exitLoop p.2.size ((((p.2.onLine line).stepped slot stepSlot descending).emitted
          (.jump .always d.size)).pointed
        (d.compared slot limit descending).size
        (((p.2.onLine line).stepped slot stepSlot descending).emitted (.jump .always d.size)).size))
      = .ok ((), d') := by
    cases stepSlot <;> exact hd
  cases hblock : block body ((d.compared slot limit descending).emitted (.jump .ifTrue 0)).entered with
  | error e =>
    rw [hblock] at hrun
    cases hrun
  | ok p =>
  obtain ⟨_, d₁⟩ := p
  rw [hblock] at hrun
  obtain rfl := exitLoop_ok.mp hrun
  have hbody := Region.thenLine line (hbody (htest.good.emitted _).entered hblock)
  have hstep := stepped_spans hbody.good slot stepSlot descending
  have hback := Spans.emitted hstep.good (.jump .always d.size)
  have hloop := Region.guardedLoop htest.good (Region.seq hbody (Region.seq hstep hback)) d₁.size
  refine (Region.seq (Spans.seq hread (Spans.seq hlimit htest)) hloop).imp fun r out loop hr => ?_
  obtain ⟨⟨_, ⟨hread, rfl⟩, _, ⟨hlimit, rfl⟩, htest, -⟩, hexit, hbody, hstep, hback, -⟩ := hr
  simp only [Draft.size_exited, Draft.size_pointed, Draft.size_entered, Draft.size_emitted] at hexit hbody ⊢
  exact ⟨_, _, hread, hlimit, htest, hexit, hbody, hstep, hback, rfl⟩

theorem fetch_region {iterator slot : Nat} {op : Instruction} {name : String} (h : Good debug d Γ)
    (hd : defineLocal name ((d.emitted (.read (.frame iterator) .value)).emitted op) = .ok (slot, d')) :
    d'.size = d.size + 3 ∧ Region debug d d' (Γ.declare name) [] fun r _ _ =>
      r.Has d.size (.read (.frame iterator) .value) ∧ r.Has (d.size + 1) op ∧
        r.Has (d.size + 2) (.define Γ.taken) := by
  have hread := Region.emitted h (.read (.frame iterator) .value)
  have hop := Region.emitted hread.good op
  obtain ⟨-, hsize, hdefine⟩ := defineLocal_region hop.good hd
  simp only [Draft.size_emitted] at hop hsize hdefine
  exact ⟨hsize, Region.seq hread (Region.seq hop hdefine)⟩

/-- One round of a loop over a collection: the entry is fetched and the body follows. -/
def roundBody (iterator : Nat) (key : Option String) (value : String) (stmts : List Stmt) :
    Compiler Unit := do
  match key with
  | some key =>
    emit' (.read (.frame iterator) .value)
    emit' .nextKey
    let _ ← defineLocal key
  | none => pure ()
  emit' (.read (.frame iterator) .value)
  emit' .nextValue
  let _ ← defineLocal value
  statements stmts

theorem roundBody_spans {iterator : Nat} {key : Option String} {value : String} {stmts : List Stmt}
    (h : Good debug d Γ)
    (hstmts : ∀ {Γ : Env} {c c' : Draft}, Good debug c Γ → statements stmts c = .ok ((), c') →
      Spans debug c c' (envAfterAll debug Γ stmts) fun r out loop =>
        PlacesAllStmts anywhere debug r out Γ loop stmts)
    (hd : roundBody iterator key value stmts d = .ok ((), d')) :
    Spans debug d d' (envAfterAll debug (Γ.declareAll (key.toList ++ [value])) stmts)
      fun r out loop i m => ∃ l, PlacesKey r iterator Γ.taken key i l ∧
        r.Has l (.read (.frame iterator) .value) ∧ r.Has (l + 1) .nextValue ∧
        r.Has (l + 2) (.define (Γ.taken + key.toList.length)) ∧
        PlacesAllStmts anywhere debug r out (Γ.declareAll (key.toList ++ [value])) loop stmts
          (l + 3) m := by
  cases key with
  | none =>
    simp only [roundBody, bind_ok, emit'_ok] at hd
    obtain ⟨_, _, rfl, _, _, rfl, _, d₁, hvalue, hbody⟩ := hd
    obtain ⟨hsize, hvalue⟩ := fetch_region h hvalue
    refine (Region.seq hvalue (hstmts hvalue.good hbody)).imp fun r out loop hr => ⟨d.size, rfl, ?_⟩
    obtain ⟨⟨hread, hnext, hdefine⟩, hbody⟩ := hr
    exact ⟨hread, hnext, hdefine, hsize ▸ hbody⟩
  | some key =>
    simp only [roundBody, bind_ok, emit'_ok] at hd
    obtain ⟨_, _, rfl, _, _, rfl, _, d₁, hkey, _, _, rfl, _, _, rfl, _, d₂, hvalue, hbody⟩ := hd
    obtain ⟨hsize₁, hkey⟩ := fetch_region h hkey
    obtain ⟨hsize₂, hvalue⟩ := fetch_region hkey.good hvalue
    refine (Region.seq hkey (Region.seq hvalue (hstmts hvalue.good hbody))).imp fun r out loop hr =>
      ⟨d₁.size, ?_⟩
    obtain ⟨⟨hread, hnext, hdefine⟩, ⟨hread', hnext', hdefine'⟩, hbody⟩ := hr
    exact ⟨⟨hread, hnext, hdefine, hsize₁⟩, hread', hnext', hdefine', hsize₂ ▸ hbody⟩

/-- The compiler step for the rounds of a loop over a collection, once its iterator has a slot. -/
def iteratorRounds (line iterator : Nat) (body : Compiler Unit) : Compiler Unit := do
  let top ← here
  emit' (.read (.frame iterator) .value)
  emit' .hasNext
  let exit ← emit (.jump .ifFalse 0)
  enterLoop
  inScope body
  setLine line
  emit' (.jump .always top)
  patchHere exit
  exitLoop top

/-- The rounds of a loop over a collection: as long as there is a next entry, the body runs. -/
theorem iteratorRounds_spans {line iterator : Nat} {body : Compiler Unit} (h : Good debug d Γ)
    (hbody : ∀ {c c' : Draft}, Good debug c Γ.enter → body c = .ok ((), c') → Spans debug c c' Γ' P)
    (hd : iteratorRounds line iterator body d = .ok ((), d')) :
    Spans debug d d' Γ'.leave fun r out _ i j => ∃ m,
      r.Has i (.read (.frame iterator) .value) ∧ r.Has (i + 1) .hasNext ∧ r.Has (i + 2) (.jump .ifFalse j) ∧
        P r out (some (j, i)) (i + 3) m ∧ r.Has m (.jump .always i) ∧ j = m + 1 := by
  simp only [iteratorRounds, bind_ok, setLine_ok, inScope_ok, here_ok, emit_ok, emit'_ok, enterLoop_ok,
    patchHere_ok, exitLoop_ok] at hd
  obtain ⟨_, _, ⟨rfl, rfl⟩, _, _, rfl, _, _, rfl, _, _, ⟨rfl, rfl⟩, _, _, rfl, _, _, ⟨d₁, hrun, rfl⟩, _,
    _, rfl, _, _, rfl, _, _, rfl, rfl⟩ := hd
  have hread := Region.emitted h (.read (.frame iterator) .value)
  have hnext := Region.emitted hread.good .hasNext
  have hround := (hnext.good.emitted (.jump .ifFalse 0)).entered
  have hbody := Region.thenLine line (Region.scope hround (hbody hround.opened hrun))
  have hback := Region.emitted hbody.good (.jump .always d.size)
  have hloop := Region.guardedLoop hnext.good (Region.seq hbody hback) d.size
  refine (Region.seq (Region.seq hread hnext) hloop).imp fun r out loop hr => ⟨d₁.size, ?_⟩
  obtain ⟨⟨hread, hnext⟩, hexit, hbody, hback⟩ := hr
  simp only [Draft.size_exited, Draft.size_pointed, Draft.size_emitted, Draft.size_onLine,
    Draft.size_closed, Draft.size_opened, Draft.size_entered] at hnext hexit hbody hback ⊢
  exact ⟨hread, hnext, hexit, hbody, hback, trivial⟩

end Steps

-- ---------------------------------------------------------------------------
-- Loops with hidden variables
-- ---------------------------------------------------------------------------

theorem statement_forLoop (site : Site) (counter : String) (descending : Bool) (first last : Expr)
    (step : Option Expr) (body : Block) :
    statement (.forLoop site counter descending first last step body) = (do
      setLine site.line
      inScope do
        expression .value first
        let slot ← defineLocal counter
        expression .value last
        let limit ← defineLocal "$end"
        let stepSlot ← match step with
          | some e => do
            expression .value e
            some <$> defineLocal "$step"
          | none => pure none
        counterRounds site.line slot limit stepSlot descending body) := by
  cases step <;> rfl

theorem statement_foreachLoop (site : Site) (key : Option String) (value : String) (byRef : Bool)
    (collection : Expr) (line : Nat) (stmts : List Stmt) :
    statement (.foreachLoop site key value byRef collection ⟨line, stmts⟩) = (do
      setLine site.line
      inScope do
        expression (if byRef && collection.isPlace then .unique else .value) collection
        emit' (.iterate byRef)
        let iterator ← defineLocal "$iter"
        iteratorRounds site.line iterator (roundBody iterator key value stmts)) := by
  cases key <;> rfl

end Rill.Compile
