-- SUMMARY: Scripts without debug statements, code without lines, and compilations that do the same but for lines.
import Rill.Compile.Program

/-!
# Agreement

Two things can be taken away from a program. A script can lose its debug statements, wherever they stand: a
statement becomes a list of statements then, which is empty for a debug statement. And a routine can lose
the lines of its code, with the lines of the routines nested in it.

Two compilations *agree* if they go through the same states with debugging off, up to lines: started in such
states, both succeed with the same result and end in such states, or both fail for the same cause. Agreement
is preserved by sequencing, and every step of the compiler agrees with itself, since nothing that it decides
depends on a line.
-/

namespace Rill

-- ---------------------------------------------------------------------------
-- Debug statements
-- ---------------------------------------------------------------------------

mutual

/-- The expression without debug statements in the bodies of its functions. -/
def Expr.withoutDebug : Expr → Expr
  | .null site => .null site
  | .nan site => .nan site
  | .bool site b => .bool site b
  | .int site n => .int site n
  | .float site x => .float site x
  | .str site text => .str site text
  | .ident site name => .ident site name
  | .unary site op operand => .unary site op operand.withoutDebug
  | .binary site op left right => .binary site op left.withoutDebug right.withoutDebug
  | .logical site op left right => .logical site op left.withoutDebug right.withoutDebug
  | .concat site parts => .concat site (withoutDebugAll parts)
  | .conditional site cond whenTrue whenFalse =>
    .conditional site cond.withoutDebug whenTrue.withoutDebug whenFalse.withoutDebug
  | .field site object name => .field site object.withoutDebug name
  | .index site object indices => .index site object.withoutDebug (withoutDebugAll indices)
  | .call site callee args => .call site callee.withoutDebug (withoutDebugAll args)
  | .ref site target => .ref site target.withoutDebug
  | .list site items => .list site (withoutDebugAll items)
  | .array site rows cols items => .array site rows cols (withoutDebugAll items)
  | .table site entries => .table site (withoutDebugEntries entries)
  | .set site items => .set site (withoutDebugAll items)
  | .function site fn => .function site fn.withoutDebug

def withoutDebugAll : List Expr → List Expr
  | [] => []
  | e :: rest => e.withoutDebug :: withoutDebugAll rest

def withoutDebugEntries : List (Expr × Expr) → List (Expr × Expr)
  | [] => []
  | (key, value) :: rest => (key.withoutDebug, value.withoutDebug) :: withoutDebugEntries rest

def withoutDebugOption : Option Expr → Option Expr
  | none => none
  | some e => some e.withoutDebug

def Lambda.withoutDebug : Lambda → Lambda
  | ⟨line, params, body⟩ => ⟨line, withoutDebugParams params, body.withoutDebug⟩

def withoutDebugParams : List Param → List Param
  | [] => []
  | ⟨line, name, byRef, type⟩ :: rest =>
    ⟨line, name, byRef, withoutDebugOption type⟩ :: withoutDebugParams rest

def Block.withoutDebug : Block → Block
  | ⟨line, stmts⟩ => ⟨line, withoutDebugStmts stmts⟩

/-- What is left of a statement: nothing of a debug statement, and one statement of every other one. -/
def Stmt.withoutDebug : Stmt → List Stmt
  | .expr site value => [.expr site value.withoutDebug]
  | .assign site op target value => [.assign site op target.withoutDebug value.withoutDebug]
  | .declare site names values => [.declare site names (withoutDebugAll values)]
  | .function site isLocal name fn => [.function site isLocal name fn.withoutDebug]
  | .print site newline args => [.print site newline (withoutDebugAll args)]
  | .branch site arms otherwise => [.branch site (withoutDebugArms arms) (withoutDebugOtherwise otherwise)]
  | .whileLoop site cond body => [.whileLoop site cond.withoutDebug body.withoutDebug]
  | .repeatLoop site body cond => [.repeatLoop site body.withoutDebug cond.withoutDebug]
  | .forLoop site counter descending first last step body =>
    [.forLoop site counter descending first.withoutDebug last.withoutDebug (withoutDebugOption step)
      body.withoutDebug]
  | .foreachLoop site key value byRef collection body =>
    [.foreachLoop site key value byRef collection.withoutDebug body.withoutDebug]
  | .result site value => [.result site (withoutDebugOption value)]
  | .leave site => [.leave site]
  | .next site => [.next site]
  | .pass site => [.pass site]
  | .assert site cond message => [.assert site cond.withoutDebug (withoutDebugOption message)]
  | .throw site value => [.throw site value.withoutDebug]
  | .debug _ _ => []
  | .block site body => [.block site body.withoutDebug]

def withoutDebugStmts : List Stmt → List Stmt
  | [] => []
  | s :: rest => s.withoutDebug ++ withoutDebugStmts rest

def withoutDebugArms : List (Expr × Block) → List (Expr × Block)
  | [] => []
  | (cond, body) :: rest => (cond.withoutDebug, body.withoutDebug) :: withoutDebugArms rest

def withoutDebugOtherwise : Option Block → Option Block
  | none => none
  | some body => some body.withoutDebug

end

/-- The script without its debug statements, at every level. It keeps its own debug setting. -/
def Script.withoutDebug (s : Script) : Script := { s with body := s.body.withoutDebug }

@[simp]
theorem withoutDebugAll_length (es : List Expr) : (withoutDebugAll es).length = es.length := by
  induction es with
  | nil => rw [withoutDebugAll]
  | cons e rest ih => rw [withoutDebugAll, List.length_cons, List.length_cons, ih]

theorem withoutDebugAll_isEmpty (es : List Expr) : (withoutDebugAll es).isEmpty = es.isEmpty := by
  cases es <;> rw [withoutDebugAll] <;> rfl

@[simp]
theorem withoutDebugEntries_length (entries : List (Expr × Expr)) :
    (withoutDebugEntries entries).length = entries.length := by
  induction entries with
  | nil => rw [withoutDebugEntries]
  | cons entry rest ih =>
    obtain ⟨key, value⟩ := entry
    rw [withoutDebugEntries, List.length_cons, List.length_cons, ih]

@[simp]
theorem withoutDebugParams_length (params : List Param) : (withoutDebugParams params).length = params.length := by
  induction params with
  | nil => rw [withoutDebugParams]
  | cons param rest ih =>
    obtain ⟨line, name, byRef, type⟩ := param
    rw [withoutDebugParams, List.length_cons, List.length_cons, ih]

@[simp]
theorem Expr.isPlace_withoutDebug (e : Expr) : e.withoutDebug.isPlace = e.isPlace := by
  cases e <;> rw [withoutDebug] <;> rfl

-- ---------------------------------------------------------------------------
-- Lines
-- ---------------------------------------------------------------------------

/-- The instructions alone. -/
def Code.unlined (c : Code) : Code := { c with runs := #[] }

/-- The routine without the lines of its code and of the routines nested in it. -/
def Routine.unlined (r : Routine) : Routine :=
  { r with code := r.code.unlined, children := r.children.attach.map fun ⟨child, _⟩ => child.unlined }
termination_by sizeOf r
decreasing_by
  have := Array.sizeOf_lt_of_mem ‹_›
  cases r
  simp at this ⊢
  omega

theorem Routine.unlined_eq (r : Routine) :
    r.unlined = { r with code := r.code.unlined, children := r.children.map Routine.unlined } := by
  rw [unlined]
  simp

namespace Compile

/-- The routine under construction without its lines. -/
def Builder.unlined (b : Builder) : Builder :=
  { b with code := b.code.unlined, children := b.children.map Routine.unlined }

/-- The state of a compilation without lines: neither those of emitted instructions nor the current one. -/
def Draft.unlined (d : Draft) : Draft :=
  { d with line := 0, builder := d.builder.unlined, enclosing := d.enclosing.map Builder.unlined }

/-- What is finished has no other lines than what is under construction. -/
theorem Builder.finish_unlined (b : Builder) (file : String) :
    (b.finish file).unlined = b.unlined.finish file := by
  rw [Routine.unlined_eq]
  rfl

-- ---------------------------------------------------------------------------
-- States and outcomes
-- ---------------------------------------------------------------------------

/-- Debugging is off in both states, and only lines tell them apart. -/
structure Twins (d d' : Draft) : Prop where
  off : d.debug = false
  same : d.unlined = d'.unlined

namespace Twins

variable {d d' : Draft}

theorem builder (h : Twins d d') : d.builder.unlined = d'.builder.unlined := congrArg Draft.builder h.same

theorem enclosing (h : Twins d d') : d.enclosing.map Builder.unlined = d'.enclosing.map Builder.unlined :=
  congrArg Draft.enclosing h.same

theorem locals (h : Twins d d') : d.builder.locals = d'.builder.locals := congrArg (·.builder.locals) h.same

theorem scopes (h : Twins d d') : d.scopes = d'.scopes := congrArg (·.scopes) h.same

theorem file (h : Twins d d') : d.file = d'.file := congrArg (·.file) h.same

/-- The lines of the two states do not matter. -/
theorem onLines (h : Twins d d') (line line' : Nat) : Twins { d with line := line } { d' with line := line' } :=
  ⟨h.off, h.same⟩

theorem withBuilders (h : Twins d d') {b b' : Builder} (hb : b.unlined = b'.unlined) {bs bs' : List Builder}
    (hbs : bs.map Builder.unlined = bs'.map Builder.unlined) :
    Twins { d with builder := b, enclosing := bs } { d' with builder := b', enclosing := bs' } :=
  { off := h.off
    same := calc
      _ = { d.unlined with builder := b.unlined, enclosing := bs.map Builder.unlined } := rfl
      _ = { d'.unlined with builder := b.unlined, enclosing := bs.map Builder.unlined } :=
        congrArg (fun e : Draft => { e with builder := b.unlined, enclosing := bs.map Builder.unlined }) h.same
      _ = { d'.unlined with builder := b'.unlined, enclosing := bs'.map Builder.unlined } := by rw [hb, hbs] }

theorem withBuilder (h : Twins d d') {b b' : Builder} (hb : b.unlined = b'.unlined) :
    Twins { d with builder := b } { d' with builder := b' } :=
  h.withBuilders hb h.enclosing

end Twins

/-- Two steps have both succeeded, with results that are related, or both failed, for the same cause. -/
def Alike (Q : α → α → Prop) : Except Failure (α × Draft) → Except Failure (α × Draft) → Prop
  | .ok (a, d), .ok (a', d') => Q a a' ∧ Twins d d'
  | .error e, .error e' => e.fault = e'.fault
  | _, _ => False

/-- Two compilations do the same but for lines when debugging is off. -/
def Agree (Q : α → α → Prop) (x x' : Compiler α) : Prop :=
  ∀ d d', Twins d d' → Alike Q (x d) (x' d')

-- ---------------------------------------------------------------------------
-- Sequencing
-- ---------------------------------------------------------------------------

section Steps

variable {α β : Type} {Q : α → α → Prop} {R : β → β → Prop}

/-- What follows agrees for related results. -/
theorem Agree.andThen {x x' : Compiler α} {f f' : α → Compiler β} (hx : Agree Q x x')
    (hf : ∀ a a', Q a a' → Agree R (f a) (f' a')) : Agree R (x >>= f) (x' >>= f') := by
  intro d d' h
  have hxd := hx d d' h
  change Alike R (x d >>= fun p => f p.1 p.2) (x' d' >>= fun p => f' p.1 p.2)
  cases hstep : x d with
  | error e =>
    cases hstep' : x' d' with
    | error e' =>
      rw [hstep, hstep'] at hxd
      exact hxd
    | ok r =>
      rw [hstep, hstep'] at hxd
      exact hxd.elim
  | ok r =>
    cases hstep' : x' d' with
    | error e' =>
      rw [hstep, hstep'] at hxd
      exact hxd.elim
    | ok r' =>
      rw [hstep, hstep'] at hxd
      exact hf _ _ hxd.1 _ _ hxd.2

/-- What follows agrees for every result, and both steps have the same. -/
theorem Agree.bind {x x' : Compiler α} {f f' : α → Compiler β} (hx : Agree Eq x x')
    (hf : ∀ a, Agree R (f a) (f' a)) : Agree R (x >>= f) (x' >>= f') :=
  hx.andThen fun a _ h => h ▸ hf a

theorem Agree.seq {x x' : Compiler α} {y y' : Compiler β} (hx : Agree Eq x x') (hy : Agree R y y') :
    Agree R (x >>= fun _ => y) (x' >>= fun _ => y') :=
  hx.bind fun _ => hy

theorem agree_pure (a : α) : Agree Eq (pure a) (pure a) := fun _ _ h => ⟨rfl, h⟩

theorem agree_get : Agree Twins get get := fun _ _ h => ⟨h, h⟩

theorem agree_set {d d' : Draft} (h : Twins d d') : Agree Eq (set d : Compiler PUnit) (set d') :=
  fun _ _ _ => ⟨rfl, h⟩

theorem agree_fail (fault : Fault) : Agree Eq (fail fault : Compiler α) (fail fault) := fun _ _ _ => rfl

/-- Changes that keep states the same but for lines. -/
theorem agree_modify {f f' : Draft → Draft} (h : ∀ d d', Twins d d' → Twins (f d) (f' d')) :
    Agree Eq (modify f : Compiler PUnit) (modify f') :=
  fun d d' hd => ⟨rfl, h d d' hd⟩

theorem Agree.forM {xs : List α} {f : α → Compiler Unit} (h : ∀ x, Agree Eq (f x) (f x)) :
    Agree Eq (xs.forM f) (xs.forM f) := by
  induction xs with
  | nil => exact agree_pure _
  | cons x rest ih => exact (h x).seq ih

theorem Agree.mapM {γ : Type} {xs : List γ} {f : γ → Compiler α} (h : ∀ x, Agree Eq (f x) (f x)) :
    Agree Eq (xs.mapM f) (xs.mapM f) := by
  induction xs with
  | nil => exact agree_pure _
  | cons x rest ih =>
    rw [List.mapM_cons]
    exact (h x).bind fun _ => ih.bind fun _ => agree_pure _

-- ---------------------------------------------------------------------------
-- Lines and code
-- ---------------------------------------------------------------------------

theorem agree_setLine (line line' : Nat) : Agree Eq (setLine line) (setLine line') :=
  agree_modify fun _ _ h => h.onLines line line'

theorem Agree.atLine (line line' : Nat) {body body' : Compiler Unit} (hbody : Agree Eq body body') :
    Agree Eq (atLine line body) (atLine line' body') :=
  agree_get.andThen fun d d' _ => (agree_setLine line line').seq (hbody.seq (agree_setLine d.line d'.line))

/-- A change of the current routine that lines play no part in. -/
theorem agree_modifyBuilder {f : Builder → Builder} (h : ∀ b, (f b).unlined = f b.unlined) :
    Agree Eq (modifyBuilder f) (modifyBuilder f) := by
  refine agree_modify fun d d' hd => hd.withBuilder ?_
  rw [h, h, hd.builder]

theorem agree_emit (op : Instruction) : Agree Eq (emit op) (emit op) := by
  intro d d' h
  have hops : d.builder.code.ops = d'.builder.code.ops := congrArg (·.code.ops) h.builder
  refine ⟨congrArg Array.size hops, h.withBuilder ?_⟩
  exact congrArg (fun b : Builder => { b with code := { ops := b.code.ops.push op } }) h.builder

theorem agree_emit' (op : Instruction) : Agree Eq (emit' op) (emit' op) := (agree_emit op).seq (agree_pure _)

theorem agree_here : Agree Eq here here := fun _ _ h => ⟨congrArg (·.code.ops.size) h.builder, h⟩

theorem agree_patchHere (jump : Nat) : Agree Eq (patchHere jump) (patchHere jump) :=
  agree_modifyBuilder fun _ => rfl

theorem agree_patchAll (jumps : List Nat) : Agree Eq (jumps.forM patchHere) (jumps.forM patchHere) :=
  .forM agree_patchHere

-- ---------------------------------------------------------------------------
-- Constants
-- ---------------------------------------------------------------------------

theorem agree_integerConstant (n : Int64) : Agree Eq (integerConstant n) (integerConstant n) := by
  refine agree_get.andThen fun d d' h => ?_
  have hpool : d.builder.integers = d'.builder.integers := congrArg (·.integers) h.builder
  rw [hpool]
  refine .seq (agree_modifyBuilder ?_) (agree_pure _)
  exact fun _ => rfl

theorem agree_floatConstant (x : Float) : Agree Eq (floatConstant x) (floatConstant x) := by
  refine agree_get.andThen fun d d' h => ?_
  have hpool : d.builder.floats = d'.builder.floats := congrArg (·.floats) h.builder
  rw [hpool]
  refine .seq (agree_modifyBuilder ?_) (agree_pure _)
  exact fun _ => rfl

theorem agree_stringConstant (s : String) : Agree Eq (stringConstant s) (stringConstant s) := by
  refine agree_get.andThen fun d d' h => ?_
  have hpool : d.builder.strings = d'.builder.strings := congrArg (·.strings) h.builder
  rw [hpool]
  refine .seq (agree_modifyBuilder ?_) (agree_pure _)
  exact fun _ => rfl

theorem agree_pushInteger (n : Int64) : Agree Eq (pushInteger n) (pushInteger n) := by
  unfold pushInteger
  split
  · exact agree_emit' _
  · exact (agree_integerConstant n).bind fun _ => agree_emit' _

-- ---------------------------------------------------------------------------
-- Scopes and names
-- ---------------------------------------------------------------------------

theorem agree_openScope : Agree Eq openScope openScope := by
  refine agree_modify fun d d' h => ⟨h.off, ?_⟩
  exact congrArg (fun e : Draft =>
    { e with scopes := (e.scopeCount + 1) :: e.scopes, scopeCount := e.scopeCount + 1 }) h.same

theorem agree_closeScope : Agree Eq closeScope closeScope := by
  refine agree_modify fun d d' h => ?_
  rw [← h.scopes]
  cases hscopes : d.scopes with
  | nil => exact h
  | cons scope rest =>
    let hide (l : Local) : Local := if l.info.scope = scope then { l with active := false } else l
    refine ⟨h.off, ?_⟩
    exact congrArg (fun e : Draft =>
      { e with scopes := rest, builder := { e.builder with locals := e.builder.locals.map hide } }) h.same

theorem Agree.inScope {body body' : Compiler Unit} (hbody : Agree Eq body body') :
    Agree Eq (inScope body) (inScope body') :=
  agree_openScope.seq (hbody.seq agree_closeScope)

theorem Twins.localInScope {d d' : Draft} (h : Twins d d') (name : String) :
    d.localInScope name = d'.localInScope name :=
  congrArg (·.localInScope name) h.same

theorem agree_addLocal (name : String) : Agree Eq (addLocal name) (addLocal name) := by
  refine agree_get.andThen fun d d' h => ?_
  have hpush (info : LocalInfo) : Agree Eq
      (modifyBuilder fun b => { b with locals := b.locals.push ⟨info, true⟩ })
      (modifyBuilder fun b => { b with locals := b.locals.push ⟨info, true⟩ }) :=
    agree_modifyBuilder fun _ => rfl
  rw [h.localInScope, Draft.currentScope, Draft.currentScope, h.scopes, h.locals]
  split
  · exact (agree_fail _).seq ((hpush _).seq (agree_pure _))
  · exact (hpush _).seq (agree_pure _)

theorem agree_defineLocal (name : String) : Agree Eq (defineLocal name) (defineLocal name) :=
  (agree_addLocal name).bind fun _ => (agree_emit' _).seq (agree_pure _)

theorem agree_addLocals (names : List String) : Agree Eq (addLocals names) (addLocals names) :=
  .mapM agree_addLocal

theorem agree_defineSlots (slots : List Nat) : Agree Eq (defineSlots slots) (defineSlots slots) :=
  .forM fun slot => agree_emit' (.define slot)

theorem agree_declareNull (names : List String) : Agree Eq (declareNull names) (declareNull names) := by
  induction names with
  | nil => exact agree_pure _
  | cons name rest ih => exact (agree_emit' _).seq ((agree_defineLocal name).seq ih)

theorem agree_functionSlot (name : String) : Agree Eq (functionSlot name) (functionSlot name) := by
  refine agree_get.andThen fun d d' h => ?_
  rw [h.localInScope]
  split
  · exact agree_pure _
  · exact (agree_emit' _).seq (agree_defineLocal name)

theorem capture_unlined (b : Builder) (c : Capture) :
    b.unlined.capture c = ((b.capture c).1, (b.capture c).2.unlined) := by
  have hcaptures : b.unlined.captures = b.captures := rfl
  rw [Builder.capture, Builder.capture, hcaptures]
  cases b.captures.findIdx? (· == c) <;> rfl

/-- Where a name is captured does not depend on lines. -/
theorem captureThrough_unlined (name : String) (b : Builder) (bs : List Builder) :
    captureThrough name b.unlined (bs.map Builder.unlined) =
      (captureThrough name b bs).map fun (k, b, bs) => (k, b.unlined, bs.map Builder.unlined) := by
  induction bs generalizing b with
  | nil => rfl
  | cons parent rest ih =>
    have hfind : parent.unlined.findLocal name = parent.findLocal name := rfl
    rw [List.map_cons, captureThrough, captureThrough, hfind, ih]
    cases parent.findLocal name with
    | some slot => simp [capture_unlined]
    | none =>
      cases captureThrough name parent rest with
      | none => rfl
      | some found => simp [capture_unlined]

theorem agree_resolve (name : String) : Agree Eq (resolve name) (resolve name) := by
  refine agree_get.andThen fun d d' h => ?_
  have hthrough := captureThrough_unlined name d.builder d.enclosing
  rw [h.builder, h.enclosing, captureThrough_unlined] at hthrough
  rw [Builder.findLocal, h.locals, ← Builder.findLocal]
  cases d'.builder.findLocal name with
  | some slot => exact agree_pure _
  | none =>
    cases hd : captureThrough name d.builder d.enclosing with
    | none =>
      cases hd' : captureThrough name d'.builder d'.enclosing with
      | none => exact (agree_stringConstant name).bind fun _ => agree_pure _
      | some found => simp [hd, hd'] at hthrough
    | some found =>
      cases hd' : captureThrough name d'.builder d'.enclosing with
      | none => simp [hd, hd'] at hthrough
      | some found' =>
        obtain ⟨k, b, bs⟩ := found
        obtain ⟨k', b', bs'⟩ := found'
        obtain ⟨rfl, hb, hbs⟩ : k' = k ∧ b'.unlined = b.unlined ∧
            bs'.map Builder.unlined = bs.map Builder.unlined := by simpa [hd, hd'] using hthrough
        exact (agree_set (h.withBuilders hb.symm hbs.symm)).seq (agree_pure _)

-- ---------------------------------------------------------------------------
-- Loops
-- ---------------------------------------------------------------------------

theorem agree_enterLoop : Agree Eq enterLoop enterLoop := agree_modifyBuilder fun _ => rfl

/-- Pointing jumps to targets does not touch lines. -/
theorem foldl_patchJump_unlined (code : Code) (jumps : List Nat) (target : Code → Nat)
    (htarget : ∀ c, target c.unlined = target c) :
    (jumps.foldl (fun code jump => code.patchJump jump (target code)) code).unlined =
      jumps.foldl (fun code jump => code.patchJump jump (target code)) code.unlined := by
  induction jumps generalizing code with
  | nil => rfl
  | cons jump rest ih =>
    rw [List.foldl_cons, List.foldl_cons, ih, htarget]
    rfl

theorem agree_exitLoop (next : Nat) : Agree Eq (exitLoop next) (exitLoop next) := by
  refine agree_modifyBuilder fun b => ?_
  have hloops : b.unlined.loops = b.loops := rfl
  dsimp only
  rw [hloops]
  cases b.loops with
  | nil => rfl
  | cons jumps rest =>
    have hnexts := foldl_patchJump_unlined b.code jumps.nexts (fun _ => next) fun _ => rfl
    have hleaves := foldl_patchJump_unlined
      (jumps.nexts.foldl (fun code jump => code.patchJump jump next) b.code) jumps.leaves Code.size fun _ => rfl
    rw [hnexts] at hleaves
    exact congrArg (fun c : Code => { b.unlined with code := c, loops := rest }) hleaves

theorem agree_loopJump (word : String) (enter : Nat → LoopJumps → LoopJumps) :
    Agree Eq (loopJump word enter) (loopJump word enter) := by
  refine (agree_emit _).bind fun jump => agree_get.andThen fun d d' h => ?_
  have hloops : d.builder.loops = d'.builder.loops := congrArg (·.loops) h.builder
  rw [hloops]
  split
  · exact agree_fail _
  · exact agree_modifyBuilder fun _ => rfl

end Steps

end Compile

end Rill
