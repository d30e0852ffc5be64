-- SUMMARY: Without debugging, scripts are compiled as if their debug statements were not there.
import Rill.Grammar.Statement
import Rill.Proofs.Debugging.Agreement
import Rill.Proofs.Layout.Compile

/-!
# Release

The compilation of every node of a syntax tree agrees with the compilation of the node without its debug
statements. For a debug statement that is the compilation of nothing: with debugging off, all it does is to
set the current line. So the routine of a script is the same but for lines, or the script is refused for the
same cause.
-/

namespace Rill.Compile

-- ---------------------------------------------------------------------------
-- Functions
-- ---------------------------------------------------------------------------

section Functions

variable {α : Type} {R : α → α → Prop}

/-- Parameters take their slots by name, and their reference flags by position. -/
theorem agree_addParameters (position : Nat) (params : List Param) :
    Agree Eq (addParameters position params) (addParameters position (withoutDebugParams params)) := by
  induction params generalizing position with
  | nil =>
    rw [withoutDebugParams]
    exact agree_pure _
  | cons param rest ih =>
    obtain ⟨line, name, byRef, type⟩ := param
    rw [withoutDebugParams]
    refine (agree_setLine _ _).seq ((agree_addLocal _).seq ?_)
    dsimp only
    split
    · refine .seq (agree_modifyBuilder ?_) (ih _)
      exact fun _ => rfl
    · exact ih _

/-- The routines of two functions whose bodies agree are the same but for lines. -/
theorem agree_routine {body body' : Compiler Unit} (hbody : Agree Eq body body') (name : String) (line : Nat) :
    Agree (fun r r' => r.unlined = r'.unlined) (routine name line body) (routine name line body') := by
  refine agree_get.andThen fun outer outer' h => .seq (agree_set ?_) (hbody.inScope.seq ?_)
  · refine (h.onLines line line).withBuilders rfl ?_
    rw [List.map_cons, List.map_cons, h.builder, h.enclosing]
  · refine agree_get.andThen fun inner inner' hinner => ?_
    have hroutine : (inner.builder.finish inner.file).unlined = (inner'.builder.finish inner'.file).unlined := by
      rw [Builder.finish_unlined, Builder.finish_unlined, hinner.builder, hinner.file]
    have henclosing := hinner.enclosing
    cases hparents : inner.enclosing with
    | nil =>
      cases hparents' : inner'.enclosing with
      | nil => exact fun _ _ h => ⟨hroutine, h⟩
      | cons parent' rest' => simp [hparents, hparents'] at henclosing
    | cons parent rest =>
      cases hparents' : inner'.enclosing with
      | nil => simp [hparents, hparents'] at henclosing
      | cons parent' rest' =>
        rw [hparents, hparents', List.map_cons, List.map_cons] at henclosing
        obtain ⟨hparent, hrest⟩ := List.cons.inj henclosing
        exact .seq (agree_set ((hinner.onLines outer.line outer'.line).withBuilders hparent hrest)) fun _ _ h => ⟨hroutine, h⟩

theorem unlined_child (b : Builder) (child : Routine) :
    Builder.unlined { b with children := b.children.push child } =
      { b.unlined with children := b.unlined.children.push child.unlined } := by
  simp [Builder.unlined]

theorem agree_addChild {child child' : Routine} (h : child.unlined = child'.unlined) :
    Agree Eq (addChild child) (addChild child') := by
  refine agree_get.andThen fun d d' hd => ?_
  have hsize : d.builder.children.size = d'.builder.children.size := by
    simpa [Builder.unlined] using congrArg (·.children.size) hd.builder
  rw [hsize]
  refine .seq (agree_modify fun e e' he => he.withBuilder ?_) (agree_pure _)
  rw [unlined_child, unlined_child, he.builder, h]

/-- Functions that agree are entered among the functions of the current routine alike. -/
theorem Agree.closure {body body' : Compiler Unit} {f f' : Nat → Compiler α} (hbody : Agree Eq body body')
    (name : String) (line : Nat) (hf : ∀ index, Agree R (f index) (f' index)) :
    Agree R (routine name line body >>= fun child => addChild child >>= f)
      (routine name line body' >>= fun child => addChild child >>= f') :=
  (agree_routine hbody name line).andThen fun _ _ h => (agree_addChild h).bind hf

end Functions

-- ---------------------------------------------------------------------------
-- Lists of statements
-- ---------------------------------------------------------------------------

theorem statements_one (s : Stmt) : statements [s] = statement s := by
  rw [statements, statements]
  exact bind_pure_unit

theorem statements_append (stmts stmts' : List Stmt) :
    statements (stmts ++ stmts') = (do statements stmts; statements stmts') := by
  induction stmts with
  | nil => rw [List.nil_append, statements, pure_bind]
  | cons s rest ih => rw [List.cons_append, statements, statements, ih, bind_assoc]

/-- With debugging off, a debug statement only sets the line. -/
theorem agree_debug (site : Site) (body : Block) : Agree Eq (statement (.debug site body)) (pure ()) := by
  intro d d' h
  have hstep : statement (.debug site body) d =
      (if d.debug then block body else pure ()) { d with line := site.line } := rfl
  rw [hstep, if_neg (by simp [h.off])]
  exact ⟨rfl, h.off, h.same⟩

-- ---------------------------------------------------------------------------
-- Expressions and statements
-- ---------------------------------------------------------------------------

mutual

theorem agree_expression (use : Use) (e : Expr) : Agree Eq (expression use e) (expression use e.withoutDebug) := by
  match e with
  | .null _ => exact .atLine _ _ (agree_emit' _)
  | .nan _ => exact .atLine _ _ (agree_emit' _)
  | .bool _ _ => exact .atLine _ _ (agree_emit' _)
  | .int _ n => exact .atLine _ _ (agree_pushInteger n)
  | .float _ x => exact .atLine _ _ ((agree_floatConstant x).bind fun _ => agree_emit' _)
  | .str _ s => exact .atLine _ _ ((agree_stringConstant s).bind fun _ => agree_emit' _)
  | .ident _ name => exact .atLine _ _ ((agree_resolve name).bind fun _ => agree_emit' _)
  | .unary _ _ operand => exact .atLine _ _ ((agree_expression _ operand).seq (agree_emit' _))
  | .binary _ _ left right =>
    exact .atLine _ _ ((agree_expression _ left).seq ((agree_expression _ right).seq (agree_emit' _)))
  | .logical _ _ left right =>
    exact .atLine _ _ ((agree_expression _ left).seq ((agree_emit _).bind fun _ =>
      (agree_expression _ right).seq (agree_patchHere _)))
  | .conditional _ cond whenTrue whenFalse =>
    exact .atLine _ _ ((agree_expression _ cond).seq ((agree_emit _).bind fun _ =>
      (agree_expression _ whenTrue).seq ((agree_emit _).bind fun _ => (agree_patchHere _).seq
        ((agree_expression _ whenFalse).seq (agree_patchHere _)))))
  | .field _ object name =>
    exact .atLine _ _ ((agree_expression _ object).seq
      ((agree_stringConstant name).bind fun _ => agree_emit' _))
  | .ref _ target => exact .atLine _ _ (agree_reference target)
  | .concat _ parts =>
    refine .atLine _ _ ((agree_expressions parts).seq ?_)
    rw [withoutDebugAll_length]
    exact agree_emit' _
  | .index _ object indices =>
    refine .atLine _ _ ((agree_expression _ object).seq ((agree_expressions indices).seq ?_))
    rw [withoutDebugAll_length]
    exact agree_emit' _
  | .call _ callee args =>
    refine .atLine _ _ ((agree_expression _ callee).seq ((agree_emit' _).seq
      ((agree_arguments 0 args).seq ?_)))
    rw [withoutDebugAll_length]
    exact agree_emit' _
  | .list _ items =>
    refine .atLine _ _ ((agree_expressions items).seq ?_)
    rw [withoutDebugAll_length]
    exact agree_emit' _
  | .array _ _ _ items => exact .atLine _ _ ((agree_expressions items).seq (agree_emit' _))
  | .table _ entries =>
    refine .atLine _ _ ((agree_pairs entries).seq ?_)
    rw [withoutDebugEntries_length]
    exact agree_emit' _
  | .set _ items =>
    refine .atLine _ _ ((agree_expressions items).seq ?_)
    rw [withoutDebugAll_length]
    exact agree_emit' _
  | .function _ fn => exact .atLine _ _ (agree_closure _ fn)

theorem agree_reference (e : Expr) : Agree Eq (reference e) (reference e.withoutDebug) := by
  match e with
  | .ident _ name => exact (agree_resolve name).bind fun _ => agree_emit' _
  | .field _ object name =>
    exact (agree_expression _ object).seq ((agree_stringConstant name).bind fun _ => agree_emit' _)
  | .index _ object indices =>
    refine (agree_expression _ object).seq ((agree_expressions indices).seq ?_)
    rw [withoutDebugAll_length]
    exact agree_emit' _
  | .call _ callee args =>
    refine (agree_expression _ callee).seq ((agree_emit' _).seq ((agree_arguments 0 args).seq ?_))
    rw [withoutDebugAll_length]
    exact agree_emit' _
  | .null .. | .nan .. | .bool .. | .int .. | .float .. | .str .. | .unary .. | .binary .. | .logical ..
  | .concat .. | .conditional .. | .ref .. | .list .. | .array .. | .table .. | .set .. | .function .. =>
    exact agree_fail _

theorem agree_expressions (es : List Expr) : Agree Eq (expressions es) (expressions (withoutDebugAll es)) := by
  match es with
  | [] => exact agree_pure _
  | e :: rest => exact (agree_expression _ e).seq (agree_expressions rest)

theorem agree_arguments (position : Nat) (es : List Expr) :
    Agree Eq (arguments position es) (arguments position (withoutDebugAll es)) := by
  match es with
  | [] => exact agree_pure _
  | e :: rest => exact (agree_expression _ e).seq (agree_arguments _ rest)

theorem agree_pairs (entries : List (Expr × Expr)) :
    Agree Eq (pairs entries) (pairs (withoutDebugEntries entries)) := by
  match entries with
  | [] => exact agree_pure _
  | (key, value) :: rest =>
    exact (agree_expression _ key).seq ((agree_expression _ value).seq (agree_pairs rest))

theorem agree_closure (name : String) (fn : Lambda) : Agree Eq (closure name fn) (closure name fn.withoutDebug) := by
  match fn with
  | ⟨line, params, ⟨bodyLine, stmts⟩⟩ =>
    have hcount : Agree Eq (modifyBuilder ({ · with paramCount := params.length }))
        (modifyBuilder ({ · with paramCount := params.length })) := agree_modifyBuilder fun _ => rfl
    have hbody : Agree Eq _ _ := (agree_emit' (.reserve 0)).seq ((agree_addParameters 0 params).seq (hcount.seq
      ((agree_setLine bodyLine bodyLine).seq ((agree_statements stmts).seq
        ((agree_emit' .pushNull).seq (agree_emit' .result))))))
    have hcreate := hbody.closure name line fun index =>
      (agree_parameterClasses params).seq (agree_emit' (.closure index params.length))
    simp only [Lambda.withoutDebug, Block.withoutDebug, closure, withoutDebugParams_length]
    split
    · exact (agree_fail _).seq hcreate
    · exact hcreate

theorem agree_parameterClasses (params : List Param) :
    Agree Eq (parameterClasses params) (parameterClasses (withoutDebugParams params)) := by
  match params with
  | [] => exact agree_pure _
  | ⟨_, _, _, some e⟩ :: rest => exact (agree_expression _ e).seq (agree_parameterClasses rest)
  | ⟨_, _, _, none⟩ :: rest => exact (agree_emit' _).seq (agree_parameterClasses rest)

theorem agree_store (e : Expr) : Agree Eq (store e) (store e.withoutDebug) := by
  match e with
  | .ident _ name => exact (agree_resolve name).bind fun _ => agree_emit' _
  | .index _ object indices =>
    refine (agree_expression _ object).seq ((agree_expressions indices).seq ?_)
    rw [withoutDebugAll_length]
    exact agree_emit' _
  | .field _ object name =>
    exact (agree_expression _ object).seq ((agree_stringConstant name).bind fun _ => agree_emit' _)
  | .null .. | .nan .. | .bool .. | .int .. | .float .. | .str .. | .unary .. | .binary .. | .logical ..
  | .concat .. | .conditional .. | .call .. | .ref .. | .list .. | .array .. | .table .. | .set ..
  | .function .. => exact agree_fail _

theorem agree_statements (stmts : List Stmt) :
    Agree Eq (statements stmts) (statements (withoutDebugStmts stmts)) := by
  match stmts with
  | [] => exact agree_pure _
  | s :: rest =>
    rw [withoutDebugStmts, statements_append]
    exact (agree_statement s).seq (agree_statements rest)

theorem agree_block (b : Block) : Agree Eq (block b) (block b.withoutDebug) := by
  match b with
  | ⟨_, stmts⟩ => exact (agree_statements stmts).inScope

theorem agree_statement (s : Stmt) : Agree Eq (statement s) (statements s.withoutDebug) := by
  match s with
  | .debug site body => exact agree_debug site body
  | .expr site value =>
    rw [Stmt.withoutDebug, statements_one]
    exact (agree_setLine _ _).seq ((agree_expression _ value).seq (agree_emit' _))
  | .assign site none target value =>
    rw [Stmt.withoutDebug, statements_one]
    exact (agree_setLine _ _).seq ((agree_expression _ value).seq (agree_store target))
  | .assign site (some op) target value =>
    rw [Stmt.withoutDebug, statements_one]
    exact (agree_setLine _ _).seq ((agree_expression _ target).seq ((agree_expression _ value).seq
      ((agree_emit' _).seq (agree_store target))))
  | .declare site names values =>
    rw [Stmt.withoutDebug, statements_one]
    refine (agree_setLine _ _).seq ?_
    rw [withoutDebugAll_isEmpty, withoutDebugAll_length]
    split
    · exact agree_declareNull names
    · split
      · exact agree_fail _
      · exact (agree_expressions values).seq ((agree_addLocals names).bind agree_defineSlots)
  | .function site isLocal name fn =>
    rw [Stmt.withoutDebug, statements_one]
    refine (agree_setLine _ _).seq (agree_get.andThen fun d d' h => ?_)
    rw [h.scopes]
    split
    · exact (agree_functionSlot name).bind fun _ => (agree_closure name fn).seq (agree_emit' _)
    · exact (agree_closure name fn).seq ((agree_stringConstant name).bind fun _ => agree_emit' _)
  | .print site newline args =>
    rw [Stmt.withoutDebug, statements_one]
    refine (agree_setLine _ _).seq ((agree_expressions args).seq ?_)
    rw [withoutDebugAll_length]
    exact agree_emit' _
  | .branch site arms none =>
    rw [Stmt.withoutDebug, statements_one]
    exact (agree_setLine _ _).seq ((agree_branches arms).bind agree_patchAll)
  | .branch site arms (some b) =>
    rw [Stmt.withoutDebug, statements_one]
    exact (agree_setLine _ _).seq ((agree_branches arms).bind fun exits =>
      (agree_block b).seq (agree_patchAll exits))
  | .whileLoop site cond body =>
    rw [Stmt.withoutDebug, statements_one]
    exact (agree_setLine _ _).seq (agree_here.bind fun _ => (agree_expression _ cond).seq
      ((agree_emit _).bind fun _ => agree_enterLoop.seq ((agree_block body).seq ((agree_emit' _).seq
        ((agree_patchHere _).seq (agree_exitLoop _))))))
  | .repeatLoop site ⟨_, stmts⟩ cond =>
    rw [Stmt.withoutDebug, statements_one]
    exact (agree_setLine _ _).seq (agree_here.bind fun _ => agree_enterLoop.seq (agree_openScope.seq
      ((agree_statements stmts).seq (agree_here.bind fun _ => (agree_expression _ cond).seq
        (agree_closeScope.seq ((agree_emit' _).seq (agree_exitLoop _)))))))
  | .forLoop site counter descending first last none body =>
    rw [Stmt.withoutDebug, statements_one]
    refine (agree_setLine _ _).seq (Agree.inScope ?_)
    refine (agree_expression _ first).seq ((agree_defineLocal _).bind fun _ => ?_)
    refine (agree_expression _ last).seq ((agree_defineLocal _).bind fun _ => ?_)
    simp only [pure_bind]
    refine agree_here.bind fun _ => (agree_emit' _).seq ((agree_emit' _).seq ((agree_emit' _).seq ?_))
    refine (agree_emit _).bind fun _ => agree_enterLoop.seq ((agree_block body).seq ?_)
    refine (agree_setLine _ _).seq (agree_here.bind fun _ => (agree_emit' _).seq ?_)
    exact (agree_emit' _).seq ((agree_patchHere _).seq (agree_exitLoop _))
  | .forLoop site counter descending first last (some step) body =>
    rw [Stmt.withoutDebug, statements_one]
    refine (agree_setLine _ _).seq (Agree.inScope ?_)
    refine (agree_expression _ first).seq ((agree_defineLocal _).bind fun _ => ?_)
    refine (agree_expression _ last).seq ((agree_defineLocal _).bind fun _ => ?_)
    refine (agree_expression _ step).seq ?_
    simp only [map_eq_pure_bind, bind_assoc, pure_bind]
    refine (agree_defineLocal _).bind fun _ => ?_
    refine agree_here.bind fun _ => (agree_emit' _).seq ((agree_emit' _).seq ((agree_emit' _).seq ?_))
    refine (agree_emit _).bind fun _ => agree_enterLoop.seq ((agree_block body).seq ?_)
    refine (agree_setLine _ _).seq (agree_here.bind fun _ => (agree_emit' _).seq ((agree_emit' _).seq ?_))
    refine (agree_emit' _).seq ((agree_emit' _).seq ?_)
    exact (agree_emit' _).seq ((agree_patchHere _).seq (agree_exitLoop _))
  | .foreachLoop site key value byRef collection ⟨_, stmts⟩ =>
    have hvalue (iterator : Nat) : Agree Eq (do
        emit' (.read (.frame iterator) .value)
        emit' .nextValue
        let _ ← defineLocal value
        statements stmts) (do
        emit' (.read (.frame iterator) .value)
        emit' .nextValue
        let _ ← defineLocal value
        statements (withoutDebugStmts stmts)) :=
      (agree_emit' _).seq ((agree_emit' _).seq ((agree_defineLocal _).seq (agree_statements stmts)))
    rw [Stmt.withoutDebug, statements_one, Block.withoutDebug]
    refine (agree_setLine _ _).seq (Agree.inScope ?_)
    rw [Expr.isPlace_withoutDebug]
    refine (agree_expression _ collection).seq ((agree_emit' _).seq ((agree_defineLocal _).bind
      fun iterator => agree_here.bind fun _ => (agree_emit' _).seq ((agree_emit' _).seq
        ((agree_emit _).bind fun _ => agree_enterLoop.seq (Agree.seq (Agree.inScope ?_)
          ((agree_setLine _ _).seq ((agree_emit' _).seq ((agree_patchHere _).seq (agree_exitLoop _)))))))))
    match key with
    | some key =>
      exact (agree_emit' _).seq ((agree_emit' _).seq ((agree_defineLocal _).seq (hvalue iterator)))
    | none => exact hvalue iterator
  | .result site (some e) =>
    rw [Stmt.withoutDebug, statements_one]
    exact (agree_setLine _ _).seq ((agree_expression _ e).seq (agree_emit' _))
  | .result site none =>
    rw [Stmt.withoutDebug, statements_one]
    exact (agree_setLine _ _).seq ((agree_emit' _).seq (agree_emit' _))
  | .leave site =>
    rw [Stmt.withoutDebug, statements_one]
    exact (agree_setLine _ _).seq (agree_loopJump _ _)
  | .next site =>
    rw [Stmt.withoutDebug, statements_one]
    exact (agree_setLine _ _).seq (agree_loopJump _ _)
  | .pass site =>
    rw [Stmt.withoutDebug, statements_one]
    exact agree_setLine _ _
  | .assert site cond (some message) =>
    rw [Stmt.withoutDebug, statements_one]
    exact (agree_setLine _ _).seq ((agree_expression _ cond).seq ((agree_expression _ message).seq
      (agree_emit' _)))
  | .assert site cond none =>
    rw [Stmt.withoutDebug, statements_one]
    exact (agree_setLine _ _).seq ((agree_expression _ cond).seq (agree_emit' _))
  | .throw site value =>
    rw [Stmt.withoutDebug, statements_one]
    exact (agree_setLine _ _).seq ((agree_expression _ value).seq (agree_emit' _))
  | .block site body =>
    rw [Stmt.withoutDebug, statements_one]
    exact (agree_setLine _ _).seq (agree_block body)

theorem agree_branches (arms : List (Expr × Block)) :
    Agree Eq (branches arms) (branches (withoutDebugArms arms)) := by
  match arms with
  | [] => exact agree_pure _
  | (cond, body) :: rest =>
    exact (agree_setLine _ _).seq ((agree_expression _ cond).seq ((agree_emit _).bind fun _ =>
      (agree_block body).seq ((agree_emit _).bind fun _ => (agree_patchHere _).seq
        ((agree_branches rest).bind fun _ => agree_pure _))))

end

theorem agree_script (body : Block) : Agree Eq (script body) (script body.withoutDebug) := by
  obtain ⟨line, stmts⟩ := body
  exact agree_openScope.seq ((agree_emit' _).seq ((agree_statements stmts).seq
    ((agree_emit' _).seq (agree_emit' _))))

end Rill.Compile

namespace Rill

open Compile Layout

/-- The routine of a script is the one that is drafted at its end. -/
theorem compile_eq (s : Script) (file : String) (debug : Bool) :
    compile s file debug = (script s.body (startOf s file debug)).map fun p => p.2.builder.finish file := by
  simp only [compile]
  split
  · next hscript => rw [startOf, hscript]; rfl
  · next hscript => rw [startOf, hscript]; rfl

/-- Compiling a script with debugging off and compiling it without its debug statements either both succeed,
with routines that are the same but for lines, or both fail with the same category and message. -/
theorem compile_withoutDebug (s : Script) (file : String) (debug : Bool) (hoff : s.debug.getD debug = false) :
    match compile s file debug, compile s.withoutDebug file debug with
    | .ok r, .ok r' => r.unlined = r'.unlined
    | .error e, .error e' => e.category = e'.category ∧ e.message = e'.message
    | _, _ => False := by
  have hstart : Twins (startOf s file debug) (startOf s.withoutDebug file debug) := ⟨hoff, rfl⟩
  have hscript : Compile.Alike Eq (script s.body (startOf s file debug))
      (script s.withoutDebug.body (startOf s.withoutDebug file debug)) := agree_script s.body _ _ hstart
  rw [compile_eq, compile_eq]
  generalize script s.body (startOf s file debug) = left at hscript ⊢
  generalize script s.withoutDebug.body (startOf s.withoutDebug file debug) = right at hscript ⊢
  cases left with
  | ok p =>
    cases right with
    | ok p' =>
      change (p.2.builder.finish file).unlined = (p'.2.builder.finish file).unlined
      rw [Builder.finish_unlined, Builder.finish_unlined, hscript.2.builder]
    | error e' => exact hscript
  | error e =>
    cases right with
    | ok p' => exact hscript
    | error e' => exact ⟨congrArg Fault.category hscript, congrArg Fault.message hscript⟩

/-- A function with debug statements that declare a local, leave a loop that is not there, and use a local of
the script. -/
def debugText : String :=
  "local n = 1\nlocal function f(a)\n debug\n  local n = a\n  break\n end\n debug a = [n, 2]\n return a\nend\n" ++
  "print f(2)"

/-- The script is not compiled for debugging; otherwise it is, as if it had no debug statements. -/
theorem compile_withoutDebug_broken :
    ∃ s r r' e, parse debugText = .ok s ∧ compile s "debug.rill" true = .error e ∧
      compile s "debug.rill" false = .ok r ∧ compile s.withoutDebug "debug.rill" false = .ok r' ∧
      r.unlined = r'.unlined := by
  have hrun : ((parse debugText).toOption.map fun s => s.debug.isNone &&
      (compile s "debug.rill" true).toOption.isNone && (compile s "debug.rill" false).toOption.isSome) =
        some true := by
    decide +kernel
  cases hparse : parse debugText with
  | error e => simp [hparse, Except.toOption] at hrun
  | ok s =>
    simp only [hparse, Except.toOption, Option.map_some, Option.some_inj, Bool.and_eq_true] at hrun
    obtain ⟨⟨hsetting, hdebug⟩, hrelease⟩ := hrun
    have hoff : s.debug.getD false = false := by simp [Option.isNone_iff_eq_none.mp hsetting]
    have hsame := compile_withoutDebug s "debug.rill" false hoff
    cases hon : compile s "debug.rill" true with
    | ok r => simp [hon] at hdebug
    | error e =>
      cases hcompile : compile s "debug.rill" false with
      | error e' => simp [hcompile] at hrelease
      | ok r =>
        cases herased : compile s.withoutDebug "debug.rill" false with
        | error e' =>
          rw [hcompile, herased] at hsame
          exact hsame.elim
        | ok r' =>
          rw [hcompile, herased] at hsame
          exact ⟨s, r, r', e, rfl, hon, hcompile, herased, hsame⟩

end Rill
