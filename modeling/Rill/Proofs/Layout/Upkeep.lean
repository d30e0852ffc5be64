-- SUMMARY: What is true of the routines under construction all through a compilation, and of the finished one.
import Rill.Proofs.Layout.Compile
import Rill.Proofs.Safety.Computations

/-!
# Lasting properties of builders

The compiler changes a routine under construction in a few ways only: it emits an instruction, points a jump
to its target, captures a variable, or takes in a finished function. What each of these leaves true of a
builder is true of the routine being built and of all routines around it, after every node of the syntax tree.
-/

namespace Rill.Compile

-- ---------------------------------------------------------------------------
-- Lasting properties
-- ---------------------------------------------------------------------------

/-- A new builder has the property, and no change of the compiler takes it away. What is declared and which jumps wait
does not matter to it. An integer is entered among the constants only if it is no small one. -/
class Upheld (P : Builder → Prop) : Prop where
  fresh (name : String) : P { name := name }
  same {b b' : Builder} (h : P b) (tables : b' = { b with
    locals := b'.locals, loops := b'.loops, paramCount := b'.paramCount, refFlags := b'.refFlags }) : P b'
  integer {b : Builder} (h : P b) (n : Int64) (wide : ¬(-32768 ≤ n ∧ n ≤ 32767)) :
    P { b with integers := (poolIndex (· == ·) b.integers n).2 }
  float {b : Builder} (h : P b) (x : Float) :
    P { b with floats := (poolIndex (fun a b => a.toBits == b.toBits) b.floats x).2 }
  string {b : Builder} (h : P b) (s : String) : P { b with strings := (poolIndex (· == ·) b.strings s).2 }
  emit {b : Builder} (h : P b) (op : Instruction) (line : Nat) : P { b with code := b.code.emit op line }
  patchJump {b : Builder} (h : P b) (jump target : Nat) : P { b with code := b.code.patchJump jump target }
  capture {b b' : Builder} {c : Capture} {k : Nat} (h : P b) (hc : b.capture c = (k, b')) : P b'
  child {b inner : Builder} (h : P b) (hinner : P inner) (file : String) :
    P { b with children := b.children.push (inner.finish file) }

/-- A property that is upheld and to which only the code, the captured variables and the finished functions matter. -/
class Lasting (P : Builder → Prop) : Prop where
  fresh (name : String) : P { name := name }
  same {b b' : Builder} (h : P b) (code : b'.code = b.code) (captures : b'.captures = b.captures)
    (children : b'.children = b.children) : P b'
  emit {b : Builder} (h : P b) (op : Instruction) (line : Nat) : P { b with code := b.code.emit op line }
  patchJump {b : Builder} (h : P b) (jump target : Nat) : P { b with code := b.code.patchJump jump target }
  capture {b b' : Builder} {c : Capture} {k : Nat} (h : P b) (hc : b.capture c = (k, b')) : P b'
  child {b inner : Builder} (h : P b) (hinner : P inner) (file : String) :
    P { b with children := b.children.push (inner.finish file) }

instance {P : Builder → Prop} [Lasting P] : Upheld P where
  fresh := Lasting.fresh
  same h tables := Lasting.same h (by rw [tables]) (by rw [tables]) (by rw [tables])
  integer h _ _ := Lasting.same h rfl rfl rfl
  float h _ := Lasting.same h rfl rfl rfl
  string h _ := Lasting.same h rfl rfl rfl
  emit := Lasting.emit
  patchJump := Lasting.patchJump
  capture := Lasting.capture
  child := Lasting.child

/-- The routine being built and those around it have the property. -/
structure Draft.Each (P : Builder → Prop) (d : Draft) : Prop where
  builder : P d.builder
  enclosing : ∀ b ∈ d.enclosing, P b

theorem Upheld.captureThrough {P : Builder → Prop} [Upheld P] {name : String} {b b' : Builder}
    {bs bs' : List Builder} {k : Nat} (h : captureThrough name b bs = some (k, b', bs')) (hb : P b)
    (hbs : ∀ p ∈ bs, P p) : P b' ∧ ∀ p ∈ bs', P p := by
  induction bs generalizing b b' bs' k with
  | nil => simp [Compile.captureThrough] at h
  | cons parent rest ih =>
    simp only [Compile.captureThrough] at h
    split at h
    · simp only [Option.some.injEq, Prod.mk.injEq] at h
      obtain ⟨-, rfl, rfl⟩ := h
      exact ⟨Upheld.capture hb rfl, hbs⟩
    · split at h
      · next hrec =>
        simp only [Option.some.injEq, Prod.mk.injEq] at h
        obtain ⟨-, rfl, rfl⟩ := h
        obtain ⟨hparent, hrest⟩ := ih hrec (hbs parent List.mem_cons_self)
          fun p hp => hbs p (List.mem_cons_of_mem _ hp)
        refine ⟨Upheld.capture hb rfl, fun p hp => ?_⟩
        rcases List.mem_cons.mp hp with rfl | hp
        · exact hparent
        · exact hrest p hp
      · cases h

-- ---------------------------------------------------------------------------
-- Steps of the compiler
-- ---------------------------------------------------------------------------

section Steps

variable {α β : Type} {P : Builder → Prop}

/-- A step of the compiler takes the property from no routine, and the faults it finds are no defects of
code. -/
structure Keeps (P : Builder → Prop) (x : Compiler α) : Prop where
  each : ∀ d a d', d.Each P → x d = .ok (a, d') → d'.Each P
  harmless : ∀ d, Harmless (x d)

theorem bind_harmless {x : Compiler α} {f : α → Compiler β} {d : Draft} (hx : Harmless (x d))
    (hf : ∀ a d', Harmless (f a d')) : Harmless ((x >>= f) d) :=
  hx.bind fun p => hf p.1 p.2

theorem Keeps.bind {x : Compiler α} {f : α → Compiler β} (hx : Keeps P x) (hf : ∀ a, Keeps P (f a)) :
    Keeps P (x >>= f) := by
  refine ⟨fun d b d' h hd => ?_, fun d => bind_harmless (hx.harmless d) fun a => (hf a).harmless⟩
  obtain ⟨a, d₁, hxd, hfd⟩ := bind_ok.mp hd
  exact (hf a).each d₁ b d' (hx.each d a d₁ h hxd) hfd

theorem Keeps.seq {x : Compiler α} {y : Compiler β} (hx : Keeps P x) (hy : Keeps P y) :
    Keeps P (x >>= fun _ => y) :=
  hx.bind fun _ => hy

theorem keeps_pure (a : α) : Keeps P (pure a) := by
  refine ⟨fun d b d' h hd => ?_, fun d => .ok _⟩
  obtain ⟨-, rfl⟩ := pure_ok.mp hd
  exact h

theorem keeps_get : Keeps P get := by
  refine ⟨fun d a d' h hd => ?_, fun d => .ok _⟩
  obtain ⟨-, rfl⟩ := get_ok.mp hd
  exact h

theorem keeps_fail (fault : Fault) (h : fault.isDefect = false) : Keeps P (fail fault : Compiler α) := by
  refine ⟨fun d a d' _ hd => ?_, fun d => .error h⟩
  cases fail_ok.mp hd

/-- A change of the current routine. -/
theorem keeps_modifyBuilder {f : Builder → Builder} (hf : ∀ b, P b → P (f b)) : Keeps P (modifyBuilder f) := by
  refine ⟨fun d a d' h hd => ?_, fun d => .ok _⟩
  obtain rfl := modifyBuilder_ok.mp hd
  exact ⟨hf _ h.builder, h.enclosing⟩

/-- A change of the draft that leaves the routines alone. -/
theorem keeps_modify {f : Draft → Draft} (hbuilder : ∀ d, (f d).builder = d.builder)
    (henclosing : ∀ d, (f d).enclosing = d.enclosing) : Keeps P (modify f : Compiler PUnit) := by
  refine ⟨fun d a d' h hd => ?_, fun d => .ok _⟩
  obtain rfl := modify_ok.mp hd
  refine ⟨?_, ?_⟩
  · rw [hbuilder]
    exact h.builder
  · rw [henclosing]
    exact h.enclosing

theorem keeps_here : Keeps P here := by
  refine ⟨fun d a d' h hd => ?_, fun d => .ok _⟩
  obtain ⟨-, rfl⟩ := here_ok.mp hd
  exact h

theorem keeps_setLine (line : Nat) : Keeps P (setLine line) :=
  keeps_modify (fun _ => rfl) (fun _ => rfl)

theorem Keeps.atLine (line : Nat) {body : Compiler Unit} (hbody : Keeps P body) :
    Keeps P (atLine line body) := by
  have hset (l : Nat) : Keeps P (modify ({ · with line := l }) : Compiler PUnit) :=
    keeps_modify (fun _ => rfl) (fun _ => rfl)
  exact keeps_get.bind fun _ => (hset _).seq (hbody.seq (hset _))

theorem keeps_openScope : Keeps P openScope := keeps_modify (fun _ => rfl) (fun _ => rfl)

theorem Keeps.forM {xs : List α} {f : α → Compiler Unit} (h : ∀ x ∈ xs, Keeps P (f x)) : Keeps P (xs.forM f) := by
  induction xs with
  | nil => exact keeps_pure _
  | cons x rest ih =>
    have hrest := ih fun y hy => h y (List.mem_cons_of_mem _ hy)
    exact (h x List.mem_cons_self).bind fun _ => hrest

variable [Upheld P]

/-- A change of what the current routine declares and of the jumps that wait in it. -/
theorem keeps_tables {f : Builder → Builder} (hf : ∀ b, f b = { b with
      locals := (f b).locals, loops := (f b).loops, paramCount := (f b).paramCount, refFlags := (f b).refFlags }) :
    Keeps P (modifyBuilder f) :=
  keeps_modifyBuilder fun b hb => Upheld.same hb (hf b)

theorem keeps_emit (op : Instruction) : Keeps P (emit op) := by
  refine ⟨fun d a d' h hd => ?_, fun d => .ok _⟩
  obtain ⟨-, rfl⟩ := emit_ok.mp hd
  exact ⟨Upheld.emit h.builder op d.line, h.enclosing⟩

theorem keeps_emit' (op : Instruction) : Keeps P (emit' op) := (keeps_emit op).seq (keeps_pure _)

theorem keeps_patchHere (jump : Nat) : Keeps P (patchHere jump) :=
  keeps_modifyBuilder fun _ hb => Upheld.patchJump hb jump _

theorem keeps_closeScope : Keeps P closeScope := by
  refine ⟨fun d a d' h hd => ?_, fun d => .ok _⟩
  obtain rfl := closeScope_ok.mp hd
  unfold Draft.closed
  split
  · exact h
  · exact ⟨Upheld.same h.builder rfl, h.enclosing⟩

theorem Keeps.inScope {body : Compiler Unit} (hbody : Keeps P body) : Keeps P (inScope body) :=
  keeps_openScope.seq (hbody.seq keeps_closeScope)

theorem keeps_enterLoop : Keeps P enterLoop := keeps_tables fun _ => rfl

/-- Waiting jumps are pointed to their targets, one after the other. -/
theorem Upheld.patchJumps {b : Builder} (h : P b) (jumps : List Nat) (target : Code → Nat) :
    P { b with code := jumps.foldl (fun code jump => code.patchJump jump (target code)) b.code } := by
  induction jumps generalizing b with
  | nil => exact h
  | cons jump rest ih => exact ih (Upheld.patchJump h jump (target b.code))

theorem keeps_exitLoop (next : Nat) : Keeps P (exitLoop next) := by
  refine keeps_modifyBuilder fun b hb => ?_
  split
  · exact hb
  · next jumps rest _ =>
    have hnexts := Upheld.patchJumps hb jumps.nexts fun _ => next
    exact Upheld.same (Upheld.patchJumps hnexts jumps.leaves Code.size) rfl

theorem keeps_loopJump (word : String) (enter : Nat → LoopJumps → LoopJumps) :
    Keeps P (loopJump word enter) := by
  refine .bind (keeps_emit _) fun jump => .bind keeps_get fun d => ?_
  split
  · exact keeps_fail _ rfl
  · exact keeps_tables fun _ => rfl

theorem keeps_integerConstant (n : Int64) (wide : ¬(-32768 ≤ n ∧ n ≤ 32767)) : Keeps P (integerConstant n) := by
  refine ⟨fun d a d' h hd => ?_, fun d => .ok _⟩
  cases hd
  exact ⟨Upheld.integer h.builder n wide, h.enclosing⟩

theorem keeps_floatConstant (x : Float) : Keeps P (floatConstant x) := by
  refine ⟨fun d a d' h hd => ?_, fun d => .ok _⟩
  cases hd
  exact ⟨Upheld.float h.builder x, h.enclosing⟩

theorem keeps_stringConstant (s : String) : Keeps P (stringConstant s) := by
  refine ⟨fun d a d' h hd => ?_, fun d => .ok _⟩
  cases hd
  exact ⟨Upheld.string h.builder s, h.enclosing⟩

theorem keeps_addLocal (name : String) : Keeps P (addLocal name) := by
  refine .bind keeps_get fun d => ?_
  have hpush (info : LocalInfo) :
      Keeps P (modifyBuilder fun b => { b with locals := b.locals.push ⟨info, true⟩ }) :=
    keeps_tables fun _ => rfl
  split
  · exact (keeps_fail _ rfl).seq ((hpush _).seq (keeps_pure _))
  · exact (hpush _).seq (keeps_pure _)

theorem keeps_defineLocal (name : String) : Keeps P (defineLocal name) :=
  (keeps_addLocal name).bind fun _ => (keeps_emit' _).seq (keeps_pure _)

theorem keeps_functionSlot (name : String) : Keeps P (functionSlot name) := by
  refine .bind keeps_get fun d => ?_
  split
  · exact keeps_pure _
  · exact (keeps_emit' _).seq (keeps_defineLocal name)

/-- A name that is found in a routine around the current one is entered into the tables in between. -/
theorem keeps_resolve (name : String) : Keeps P (resolve name) := by
  have hglobal : Keeps P (stringConstant name >>= fun k => pure (Slot.global k)) :=
    (keeps_stringConstant name).bind fun _ => keeps_pure _
  refine ⟨fun d slot d' h hd => ?_, fun d => ?harmless⟩
  case harmless =>
    refine bind_harmless ((keeps_get (P := P)).harmless d) fun d _ => ?_
    cases hfind : d.builder.findLocal name with
    | some slot => exact .ok _
    | none =>
      cases hthrough : captureThrough name d.builder d.enclosing with
      | some found => exact .ok _
      | none => exact hglobal.harmless _
  unfold resolve at hd
  simp only [bind_ok, get_ok] at hd
  obtain ⟨_, _, ⟨rfl, rfl⟩, hd⟩ := hd
  cases hfind : d.builder.findLocal name with
  | some slot =>
    simp only [hfind] at hd
    exact (keeps_pure _).each _ _ _ h hd
  | none =>
    cases hthrough : captureThrough name d.builder d.enclosing with
    | some found =>
      simp only [hfind, hthrough, bind_ok, set_ok, pure_ok] at hd
      obtain ⟨_, _, rfl, -, rfl⟩ := hd
      obtain ⟨hbuilder, henclosing⟩ := Upheld.captureThrough hthrough h.builder h.enclosing
      exact ⟨hbuilder, henclosing⟩
    | none =>
      simp only [hfind, hthrough] at hd
      exact hglobal.each _ _ _ h hd

theorem keeps_patchAll (jumps : List Nat) : Keeps P (jumps.forM patchHere) :=
  .forM fun jump _ => keeps_patchHere jump

theorem keeps_defineSlots (slots : List Nat) : Keeps P (defineSlots slots) :=
  .forM fun slot _ => keeps_emit' (.define slot)

theorem keeps_addLocals (names : List String) : Keeps P (addLocals names) := by
  unfold addLocals
  induction names with
  | nil => exact keeps_pure _
  | cons name rest ih =>
    rw [List.mapM_cons]
    exact (keeps_addLocal name).bind fun _ => ih.bind fun _ => keeps_pure _

theorem keeps_declareNull (names : List String) : Keeps P (declareNull names) := by
  induction names with
  | nil => exact keeps_pure _
  | cons name rest ih => exact (keeps_emit' _).seq ((keeps_defineLocal name).seq ih)

theorem keeps_pushInteger (n : Int64) : Keeps P (pushInteger n) := by
  unfold pushInteger
  split
  · exact keeps_emit' _
  · next wide => exact (keeps_integerConstant n wide).bind fun _ => keeps_emit' _

theorem keeps_addParameters (position : Nat) (params : List Param) :
    Keeps P (addParameters position params) := by
  induction params generalizing position with
  | nil => exact keeps_pure _
  | cons param rest ih =>
    have hflag : Keeps P (modifyBuilder fun b => { b with refFlags := b.refFlags.mark position }) :=
      keeps_tables fun _ => rfl
    refine (keeps_setLine _).seq ((keeps_addLocal _).seq ?_)
    split
    · exact hflag.seq (ih _)
    · exact ih _

/-- A function compiled inside the current routine comes from a builder with the property, and leaves it to
the routines around it. -/
theorem routine_each {name : String} {line : Nat} {body : Compiler Unit} {d d' : Draft} {r : Routine}
    (hbody : Keeps P body) (h : d.Each P) (hd : routine name line body d = .ok (r, d')) :
    (∃ b file, P b ∧ r = b.finish file) ∧ d'.Each P := by
  unfold routine at hd
  simp only [bind_ok, get_ok, set_ok] at hd
  obtain ⟨_, _, ⟨rfl, rfl⟩, _, _, rfl, _, inner, hinner, _, _, ⟨rfl, rfl⟩, hd⟩ := hd
  have hstart : Draft.Each P { d with
      line := line, builder := { name := name }, enclosing := d.builder :: d.enclosing } :=
    ⟨Upheld.fresh name, by simpa using ⟨h.builder, h.enclosing⟩⟩
  have hinner := hbody.inScope.each _ _ _ hstart hinner
  cases henclosing : inner.enclosing with
  | nil =>
    simp only [henclosing, pure_ok] at hd
    obtain ⟨rfl, rfl⟩ := hd
    exact ⟨⟨_, _, hinner.builder, rfl⟩, hinner⟩
  | cons parent rest =>
    simp only [henclosing, bind_ok, set_ok, pure_ok] at hd
    obtain ⟨_, _, rfl, rfl, rfl⟩ := hd
    have hall := hinner.enclosing
    rw [henclosing] at hall
    exact ⟨⟨_, _, hinner.builder, rfl⟩, hall parent List.mem_cons_self,
      fun b hb => hall b (List.mem_cons_of_mem _ hb)⟩

theorem routine_harmless {name : String} {line : Nat} {body : Compiler Unit} (hbody : Keeps P body)
    (d : Draft) : Harmless (routine name line body d) := by
  refine bind_harmless ((keeps_get (P := P)).harmless d) fun _ _ => bind_harmless (.ok _) fun _ _ => ?_
  refine bind_harmless (hbody.inScope.harmless _) fun _ _ => ?_
  refine bind_harmless ((keeps_get (P := P)).harmless _) fun inner _ => ?_
  cases inner.enclosing <;> exact .ok _

/-- A function that is compiled and entered among the functions of the current routine. -/
theorem Keeps.closure {body : Compiler Unit} {f : Nat → Compiler β} (hbody : Keeps P body) (name : String)
    (line : Nat) (hf : ∀ index, Keeps P (f index)) :
    Keeps P (routine name line body >>= fun child => addChild child >>= f) := by
  refine ⟨fun d b d' h hd => ?_, fun d =>
    bind_harmless (routine_harmless hbody d) fun _ _ => bind_harmless (.ok _) fun a => (hf a).harmless⟩
  simp only [bind_ok] at hd
  obtain ⟨child, d₁, hroutine, index, d₂, hchild, hd⟩ := hd
  obtain ⟨⟨inner, file, hinner, rfl⟩, h₁⟩ := routine_each hbody h hroutine
  obtain ⟨rfl, rfl⟩ := addChild_ok hchild
  exact (hf _).each (d₁.withChild (inner.finish file)) _ _
    ⟨Upheld.child h₁.builder hinner file, h₁.enclosing⟩ hd

end Steps

-- ---------------------------------------------------------------------------
-- Expressions and statements
-- ---------------------------------------------------------------------------

section Sweep

variable {P : Builder → Prop}

mutual

theorem keeps_expression [Upheld P] (use : Use) (e : Expr) : Keeps P (expression use e) := by
  match e with
  | .null _ => exact .atLine _ (keeps_emit' _)
  | .nan _ => exact .atLine _ (keeps_emit' _)
  | .bool _ _ => exact .atLine _ (keeps_emit' _)
  | .int _ n => exact .atLine _ (keeps_pushInteger n)
  | .float _ x => exact .atLine _ ((keeps_floatConstant x).bind fun _ => keeps_emit' _)
  | .str _ s => exact .atLine _ ((keeps_stringConstant s).bind fun _ => keeps_emit' _)
  | .ident _ name => exact .atLine _ ((keeps_resolve name).bind fun _ => keeps_emit' _)
  | .unary _ _ operand => exact .atLine _ ((keeps_expression _ operand).seq (keeps_emit' _))
  | .binary _ _ left right =>
    exact .atLine _ ((keeps_expression _ left).seq ((keeps_expression _ right).seq (keeps_emit' _)))
  | .logical _ _ left right =>
    exact .atLine _ ((keeps_expression _ left).seq ((keeps_emit _).bind fun _ =>
      (keeps_expression _ right).seq (keeps_patchHere _)))
  | .concat _ parts => exact .atLine _ ((keeps_expressions parts).seq (keeps_emit' _))
  | .conditional _ cond whenTrue whenFalse =>
    exact .atLine _ ((keeps_expression _ cond).seq ((keeps_emit _).bind fun _ =>
      (keeps_expression _ whenTrue).seq ((keeps_emit _).bind fun _ => (keeps_patchHere _).seq
        ((keeps_expression _ whenFalse).seq (keeps_patchHere _)))))
  | .field _ object name =>
    exact .atLine _ ((keeps_expression _ object).seq
      ((keeps_stringConstant name).bind fun _ => keeps_emit' _))
  | .index _ object indices =>
    exact .atLine _ ((keeps_expression _ object).seq ((keeps_expressions indices).seq (keeps_emit' _)))
  | .call _ callee args =>
    exact .atLine _ ((keeps_expression _ callee).seq ((keeps_emit' _).seq
      ((keeps_arguments 0 args).seq (keeps_emit' _))))
  | .ref _ target => exact .atLine _ (keeps_reference target)
  | .list _ items => exact .atLine _ ((keeps_expressions items).seq (keeps_emit' _))
  | .array _ _ _ items => exact .atLine _ ((keeps_expressions items).seq (keeps_emit' _))
  | .table _ entries => exact .atLine _ ((keeps_pairs entries).seq (keeps_emit' _))
  | .set _ items => exact .atLine _ ((keeps_expressions items).seq (keeps_emit' _))
  | .function _ fn => exact .atLine _ (keeps_closure _ fn)

theorem keeps_reference [Upheld P] (e : Expr) : Keeps P (reference e) := by
  match e with
  | .ident _ name => exact (keeps_resolve name).bind fun _ => keeps_emit' _
  | .field _ object name =>
    exact (keeps_expression _ object).seq ((keeps_stringConstant name).bind fun _ => keeps_emit' _)
  | .index _ object indices =>
    exact (keeps_expression _ object).seq ((keeps_expressions indices).seq (keeps_emit' _))
  | .call _ callee args =>
    exact (keeps_expression _ callee).seq ((keeps_emit' _).seq
      ((keeps_arguments 0 args).seq (keeps_emit' _)))
  | .null .. | .nan .. | .bool .. | .int .. | .float .. | .str .. | .unary .. | .binary .. | .logical ..
  | .concat .. | .conditional .. | .ref .. | .list .. | .array .. | .table .. | .set .. | .function .. =>
    exact keeps_fail _ rfl

theorem keeps_expressions [Upheld P] (es : List Expr) : Keeps P (expressions es) := by
  match es with
  | [] => exact keeps_pure _
  | e :: rest => exact (keeps_expression _ e).seq (keeps_expressions rest)

theorem keeps_arguments [Upheld P] (position : Nat) (es : List Expr) : Keeps P (arguments position es) := by
  match es with
  | [] => exact keeps_pure _
  | e :: rest => exact (keeps_expression _ e).seq (keeps_arguments _ rest)

theorem keeps_pairs [Upheld P] (es : List (Expr × Expr)) : Keeps P (pairs es) := by
  match es with
  | [] => exact keeps_pure _
  | (key, value) :: rest =>
    exact (keeps_expression _ key).seq ((keeps_expression _ value).seq (keeps_pairs rest))

theorem keeps_closure [Upheld P] (name : String) (fn : Lambda) : Keeps P (closure name fn) := by
  match fn with
  | ⟨line, params, ⟨bodyLine, stmts⟩⟩ =>
    have hcount : Keeps P (modifyBuilder ({ · with paramCount := params.length })) :=
      keeps_tables fun _ => rfl
    have hbody : Keeps P _ := (keeps_emit' (.reserve 0)).seq ((keeps_addParameters 0 params).seq (hcount.seq
      ((keeps_setLine bodyLine).seq ((keeps_statements stmts).seq
        ((keeps_emit' .pushNull).seq (keeps_emit' .result))))))
    have hcreate := hbody.closure name line fun index =>
      (keeps_parameterClasses params).seq (keeps_emit' (.closure index params.length))
    simp only [closure]
    split
    · exact (keeps_fail _ rfl).seq hcreate
    · exact hcreate

theorem keeps_parameterClasses [Upheld P] (params : List Param) : Keeps P (parameterClasses params) := by
  match params with
  | [] => exact keeps_pure _
  | ⟨_, _, _, some e⟩ :: rest => exact (keeps_expression _ e).seq (keeps_parameterClasses rest)
  | ⟨_, _, _, none⟩ :: rest => exact (keeps_emit' _).seq (keeps_parameterClasses rest)

theorem keeps_store [Upheld P] (e : Expr) : Keeps P (store e) := by
  match e with
  | .ident _ name => exact (keeps_resolve name).bind fun _ => keeps_emit' _
  | .index _ object indices =>
    exact (keeps_expression _ object).seq ((keeps_expressions indices).seq (keeps_emit' _))
  | .field _ object name =>
    exact (keeps_expression _ object).seq ((keeps_stringConstant name).bind fun _ => keeps_emit' _)
  | .null .. | .nan .. | .bool .. | .int .. | .float .. | .str .. | .unary .. | .binary .. | .logical ..
  | .concat .. | .conditional .. | .call .. | .ref .. | .list .. | .array .. | .table .. | .set ..
  | .function .. => exact keeps_fail _ rfl

theorem keeps_statements [Upheld P] (stmts : List Stmt) : Keeps P (statements stmts) := by
  match stmts with
  | [] => exact keeps_pure _
  | s :: rest => exact (keeps_statement s).seq (keeps_statements rest)

theorem keeps_block [Upheld P] (b : Block) : Keeps P (block b) := by
  match b with
  | ⟨_, stmts⟩ => exact (keeps_statements stmts).inScope

theorem keeps_statement [Upheld P] (s : Stmt) : Keeps P (statement s) := by
  match s with
  | .expr site value => exact (keeps_setLine _).seq ((keeps_expression _ value).seq (keeps_emit' _))
  | .assign site none target value =>
    exact (keeps_setLine _).seq ((keeps_expression _ value).seq (keeps_store target))
  | .assign site (some op) target value =>
    exact (keeps_setLine _).seq ((keeps_expression _ target).seq ((keeps_expression _ value).seq
      ((keeps_emit' _).seq (keeps_store target))))
  | .declare site names values =>
    refine (keeps_setLine _).seq ?_
    split
    · exact keeps_declareNull names
    · split
      · exact keeps_fail _ rfl
      · exact (keeps_expressions values).seq ((keeps_addLocals names).bind keeps_defineSlots)
  | .function site isLocal name fn =>
    refine (keeps_setLine _).seq (keeps_get.bind fun _ => ?_)
    split
    · exact (keeps_functionSlot name).bind fun _ => (keeps_closure name fn).seq (keeps_emit' _)
    · exact (keeps_closure name fn).seq ((keeps_stringConstant name).bind fun _ => keeps_emit' _)
  | .print site newline args =>
    exact (keeps_setLine _).seq ((keeps_expressions args).seq (keeps_emit' _))
  | .branch site arms none => exact (keeps_setLine _).seq ((keeps_branches arms).bind keeps_patchAll)
  | .branch site arms (some b) =>
    exact (keeps_setLine _).seq ((keeps_branches arms).bind fun exits =>
      (keeps_block b).seq (keeps_patchAll exits))
  | .whileLoop site cond body =>
    exact (keeps_setLine _).seq (keeps_here.bind fun _ => (keeps_expression _ cond).seq
      ((keeps_emit _).bind fun _ => keeps_enterLoop.seq ((keeps_block body).seq ((keeps_emit' _).seq
        ((keeps_patchHere _).seq (keeps_exitLoop _))))))
  | .repeatLoop site ⟨_, stmts⟩ cond =>
    exact (keeps_setLine _).seq (keeps_here.bind fun _ => keeps_enterLoop.seq (keeps_openScope.seq
      ((keeps_statements stmts).seq (keeps_here.bind fun _ => (keeps_expression _ cond).seq
        (keeps_closeScope.seq ((keeps_emit' _).seq (keeps_exitLoop _)))))))
  | .forLoop site counter descending first last none body =>
    simp only [statement, pure_bind]
    refine (keeps_setLine _).seq (Keeps.inScope ?_)
    refine (keeps_expression _ first).seq ((keeps_defineLocal _).bind fun _ => ?_)
    refine (keeps_expression _ last).seq ((keeps_defineLocal _).bind fun _ => ?_)
    refine keeps_here.bind fun _ => (keeps_emit' _).seq ((keeps_emit' _).seq ((keeps_emit' _).seq ?_))
    refine (keeps_emit _).bind fun _ => keeps_enterLoop.seq ((keeps_block body).seq ?_)
    refine (keeps_setLine _).seq (keeps_here.bind fun _ => (keeps_emit' _).seq ?_)
    exact (keeps_emit' _).seq ((keeps_patchHere _).seq (keeps_exitLoop _))
  | .forLoop site counter descending first last (some step) body =>
    simp only [statement, map_eq_pure_bind, bind_assoc, pure_bind]
    refine (keeps_setLine _).seq (Keeps.inScope ?_)
    refine (keeps_expression _ first).seq ((keeps_defineLocal _).bind fun _ => ?_)
    refine (keeps_expression _ last).seq ((keeps_defineLocal _).bind fun _ => ?_)
    refine (keeps_expression _ step).seq ((keeps_defineLocal _).bind fun _ => ?_)
    refine keeps_here.bind fun _ => (keeps_emit' _).seq ((keeps_emit' _).seq ((keeps_emit' _).seq ?_))
    refine (keeps_emit _).bind fun _ => keeps_enterLoop.seq ((keeps_block body).seq ?_)
    refine (keeps_setLine _).seq (keeps_here.bind fun _ => (keeps_emit' _).seq ((keeps_emit' _).seq ?_))
    refine (keeps_emit' _).seq ((keeps_emit' _).seq ?_)
    exact (keeps_emit' _).seq ((keeps_patchHere _).seq (keeps_exitLoop _))
  | .foreachLoop site key value byRef collection ⟨_, stmts⟩ =>
    have hvalue (iterator : Nat) : Keeps P (do
        emit' (.read (.frame iterator) .value)
        emit' .nextValue
        let _ ← defineLocal value
        statements stmts) :=
      (keeps_emit' _).seq ((keeps_emit' _).seq ((keeps_defineLocal _).seq (keeps_statements stmts)))
    refine (keeps_setLine _).seq (Keeps.inScope ?_)
    refine (keeps_expression _ collection).seq ((keeps_emit' _).seq ((keeps_defineLocal _).bind
      fun iterator => keeps_here.bind fun _ => (keeps_emit' _).seq ((keeps_emit' _).seq
        ((keeps_emit _).bind fun _ => keeps_enterLoop.seq (Keeps.seq (Keeps.inScope ?_)
          ((keeps_setLine _).seq ((keeps_emit' _).seq ((keeps_patchHere _).seq (keeps_exitLoop _)))))))))
    match key with
    | some key =>
      exact (keeps_emit' _).seq ((keeps_emit' _).seq ((keeps_defineLocal _).seq (hvalue iterator)))
    | none => exact hvalue iterator
  | .result site (some e) => exact (keeps_setLine _).seq ((keeps_expression _ e).seq (keeps_emit' _))
  | .result site none => exact (keeps_setLine _).seq ((keeps_emit' _).seq (keeps_emit' _))
  | .leave site => exact (keeps_setLine _).seq (keeps_loopJump _ _)
  | .next site => exact (keeps_setLine _).seq (keeps_loopJump _ _)
  | .pass site => exact keeps_setLine _
  | .assert site cond (some message) =>
    exact (keeps_setLine _).seq ((keeps_expression _ cond).seq ((keeps_expression _ message).seq
      (keeps_emit' _)))
  | .assert site cond none => exact (keeps_setLine _).seq ((keeps_expression _ cond).seq (keeps_emit' _))
  | .throw site value => exact (keeps_setLine _).seq ((keeps_expression _ value).seq (keeps_emit' _))
  | .debug site body =>
    refine (keeps_setLine _).seq (keeps_get.bind fun _ => ?_)
    split
    · exact keeps_block body
    · exact keeps_pure _
  | .block site body => exact (keeps_setLine _).seq (keeps_block body)

theorem keeps_branches [Upheld P] (arms : List (Expr × Block)) : Keeps P (branches arms) := by
  match arms with
  | [] => exact keeps_pure _
  | (cond, body) :: rest =>
    exact (keeps_setLine _).seq ((keeps_expression _ cond).seq ((keeps_emit _).bind fun _ =>
      (keeps_block body).seq ((keeps_emit _).bind fun _ => (keeps_patchHere _).seq
        ((keeps_branches rest).bind fun _ => keeps_pure _))))

end

theorem keeps_script [Upheld P] (body : Block) : Keeps P (script body) :=
  keeps_openScope.seq ((keeps_emit' _).seq ((keeps_statements _).seq
    ((keeps_emit' _).seq (keeps_emit' _))))

end Sweep

end Rill.Compile

namespace Rill

open Compile

/-- The routine of a script comes from a builder with the property. -/
theorem compile_lasting (P : Builder → Prop) [Upheld P] {s : Script} {file : String} {debug : Bool} {r : Routine}
    (h : compile s file debug = .ok r) : ∃ b, P b ∧ r = b.finish file := by
  obtain ⟨d, hscript, rfl⟩ := Layout.compile_ok h
  have hstart : (Layout.startOf s file debug).Each P := ⟨Upheld.fresh _, by simp [Layout.startOf]⟩
  exact ⟨d.builder, ((keeps_script _).each _ _ _ hstart hscript).builder, rfl⟩

instance : Lasting fun _ => True :=
  ⟨fun _ => trivial, fun _ _ _ _ => trivial, fun _ _ _ => trivial, fun _ _ _ => trivial, fun _ _ => trivial,
    fun _ _ _ => trivial⟩

/-- A script that is refused is refused for what its text says. -/
theorem compile_harmless (s : Script) (file : String) (debug : Bool) : Harmless (compile s file debug) := by
  have hscript := (keeps_script (P := fun _ => True) s.body).harmless (Layout.startOf s file debug)
  intro e he
  simp only [compile] at he
  split at he
  · cases he
  · next herror =>
    cases he
    exact hscript _ herror

end Rill
