-- SUMMARY: The routine of a function, compiled inside the routine around it.
import Rill.Proofs.Layout.Resolve

/-!
# Functions

The routine of a function is a draft of its own inside the draft of the routine around it. Of the outer
draft it extends only the captured variables; its own finished routine fits the draft in which its last
instruction was emitted.
-/

namespace Rill.Compile

open Layout

section Routines

variable {debug : Bool} {d d' : Draft} {Γ : Env}

/-- The names that a function body sees as its own when it starts. -/
def bodyEnv (Γ : Env) (params : List Param) : Env :=
  ({ depth := Γ.depth + 1 } : Env).declareAll (params.map (·.name))

-- ---------------------------------------------------------------------------
-- The start of a routine
-- ---------------------------------------------------------------------------

/-- The draft in which a function body starts. -/
def Draft.child (d : Draft) (name : String) (line : Nat) : Draft :=
  { d with line := line, builder := { name := name }, enclosing := d.builder :: d.enclosing }.opened

theorem Good.child (h : Good debug d Γ) (name : String) (line : Nat) :
    Good debug (d.child name line) { depth := Γ.depth + 1 } where
  debug := h.debug
  names := rfl
  taken := rfl
  depth := by simp [Draft.child, Draft.opened, h.depth]
  inScope := Nat.succ_pos _
  declared l hl := by simp [Draft.child, Draft.opened] at hl
  ordered := h.opened.ordered
  counted := h.opened.counted
  waiting jumps hj := by simp [Draft.child, Draft.opened] at hj
  captures := ⟨fun c hc => by simp [Draft.child, Draft.opened] at hc, h.captures⟩

/-- The header of the routine is no part of the agreement. -/
theorem Good.withHeader (h : Good debug d Γ) (paramCount : Nat) (refFlags : RefFlags) :
    Good debug { d with builder := { d.builder with paramCount := paramCount, refFlags := refFlags } } Γ :=
  ⟨h.debug, h.names, h.taken, h.depth, h.inScope, h.declared, h.ordered, h.counted, h.waiting, h.captures⟩

/-- Parameters take the first slots and set the flags that they ask for. -/
theorem addParameters_spec {position : Nat} {params : List Param} (h : Good debug d Γ)
    (hd : addParameters position params d = .ok ((), d')) :
    Good debug d' (Γ.declareAll (params.map (·.name))) ∧
      ∃ line locals, d' = { d with line := line, builder := { d.builder with
        locals := locals, refFlags := paramFlags position params d.builder.refFlags } } := by
  induction params generalizing position d Γ with
  | nil =>
    obtain ⟨-, rfl⟩ := pure_ok.mp hd
    exact ⟨h, d.line, d.builder.locals, rfl⟩
  | cons param rest ih =>
    simp only [addParameters, bind_ok, setLine_ok] at hd
    obtain ⟨_, _, rfl, slot, d₁, hadd, hd⟩ := hd
    obtain ⟨-, rfl⟩ := addLocal_ok hadd
    have hone := (Region.declared (h.withLine param.line) param.name).good
    cases hbyRef : param.byRef with
    | true =>
      simp only [hbyRef, if_true, bind_ok, modifyBuilder_ok] at hd
      obtain ⟨_, _, rfl, hrest⟩ := hd
      obtain ⟨hgood, line, locals, rfl⟩ := ih (hone.withHeader ..) hrest
      refine ⟨hgood, line, locals, ?_⟩
      simp only [paramFlags, hbyRef, if_true]
      rfl
    | false =>
      simp only [hbyRef, Bool.false_eq_true, if_false] at hd
      obtain ⟨hgood, line, locals, rfl⟩ := ih hone hd
      refine ⟨hgood, line, locals, ?_⟩
      simp only [paramFlags, hbyRef, Bool.false_eq_true, if_false]
      rfl

-- ---------------------------------------------------------------------------
-- The finished routine
-- ---------------------------------------------------------------------------

/-- A finished routine fits the draft in which its last instruction was emitted, whichever of its locals
are visible at the end. -/
theorem Fits.finish {c : Draft} {locals : Array Local} {file : String} {out : Outer}
    (hlocals : locals.size = c.builder.locals.size) (hloops : c.builder.loops.isEmpty = true)
    (hout : FitsOuter c.enclosing out) :
    Fits c (Builder.finish { c.builder with locals := locals } file) out none 1 [] := by
  refine ⟨?_, hout, ?_, fun k hk hlt _ => ?_⟩
  · refine ⟨List.prefix_rfl, List.prefix_rfl, List.prefix_rfl, List.prefix_rfl, List.prefix_rfl, ?_⟩
    simp [Builder.finish, Routine.frameSize, hlocals]
  · rw [hloops]
    rfl
  · have htarget : c.builder.target none k = none := by
      unfold Builder.target
      split <;> trivial
    rw [Builder.final, htarget]
    simp only [Builder.finish, Code.patch, Array.getElem?_setIfInBounds]
    rw [if_neg (by omega)]

/-- A finished routine uses every child that the code after its first instruction uses. -/
theorem UsesNewChildren.finish {c₀ c : Draft} (h : UsesNewChildren c₀ c)
    (hnone : c₀.builder.children = #[]) (hsize : c₀.size = 1) (locals : Array Local) (file : String) :
    (Builder.finish { c.builder with locals := locals } file).UsesChildren := by
  intro k hk
  obtain ⟨i, params, hi, hop⟩ := h k (by simp [hnone]) hk
  refine ⟨i, params, ?_⟩
  simp only [Routine.Has, Builder.finish, Code.patch, Array.getElem?_setIfInBounds]
  rw [if_neg (by omega), hop]

/-- Closing a scope changes only which locals are visible. -/
theorem Draft.closed_builder (c : Draft) :
    c.closed.builder = { c.builder with locals := c.closed.builder.locals } ∧
      c.closed.builder.locals.size = c.builder.locals.size := by
  unfold Draft.closed
  split <;> simp

/-- The first instruction of a finished routine reserves the slots of its locals. -/
theorem finish_reserve {b : Builder} {file : String} (h : 0 < b.code.ops.size) :
    (b.finish file).Has 0 (.reserve (b.finish file).frameSize) := by
  simp only [Routine.Has, Builder.finish, Code.patch, Routine.frameSize, Array.size_map,
    Array.getElem?_setIfInBounds, if_true, h]

/-- What a run of `routine` does. -/
theorem routine_ok {name : String} {line : Nat} {body : Compiler Unit} {child : Routine}
    (hd : routine name line body d = .ok (child, d')) :
    ∃ c, body (d.child name line) = .ok ((), c) ∧ child = c.closed.builder.finish c.closed.file ∧
      ∀ parent rest, c.closed.enclosing = parent :: rest →
        d' = { c.closed with line := d.line, builder := parent, enclosing := rest } := by
  unfold routine at hd
  simp only [bind_ok, get_ok, set_ok, inScope_ok] at hd
  obtain ⟨_, _, ⟨rfl, rfl⟩, _, _, rfl, _, _, ⟨c, hbody, rfl⟩, _, _, ⟨rfl, rfl⟩, hd⟩ := hd
  refine ⟨c, hbody, ?_⟩
  cases henc : c.closed.enclosing with
  | nil =>
    simp only [henc, pure_ok] at hd
    exact ⟨hd.1.symm, by simp⟩
  | cons parent rest =>
    simp only [henc, bind_ok, set_ok, pure_ok] at hd
    obtain ⟨_, _, rfl, rfl, rfl⟩ := hd
    refine ⟨rfl, fun p ps hp => ?_⟩
    obtain ⟨rfl, rfl⟩ := List.cons.inj hp
    rfl

-- ---------------------------------------------------------------------------
-- The body of a function
-- ---------------------------------------------------------------------------

/-- The routine of a function, made inside another one: it has the header of the function, finds its
captured variables, and holds code for the statements between the reservation of its slots and its
    return. -/
structure PlacesBody (debug : Bool) (r : Routine) (out : Outer) (Γ : Env) (name : String)
    (params : List Param) (stmts : List Stmt) (child : Routine) : Prop where
  name : child.name = name
  paramCount : child.paramCount = params.length
  refFlags : child.refFlags = paramFlags 0 params 0
  captures : ∀ c ∈ child.captures, if c.fromFrame then ∃ name, IsName name ∧ Γ.find? name = some c.index
    else c.index < r.captures.size
  body : ∃ k, PlacesAllStmts anywhere debug child ((r, Γ) :: out) (bodyEnv Γ params) none stmts 1 k ∧
    (envAfterAll debug (bodyEnv Γ params) stmts).taken = child.frameSize ∧
    child.Has 0 (.reserve child.frameSize) ∧ child.Has k .pushNull ∧ child.Has (k + 1) .result ∧
    child.code.size = k + 2
  uses : child.UsesChildren

/-- The compiler step for the body of a function. -/
def functionBody (bodyLine : Nat) (params : List Param) (stmts : List Stmt) : Compiler Unit := do
  emit' (.reserve 0)
  addParameters 0 params
  modifyBuilder ({ · with paramCount := params.length })
  setLine bodyLine
  statements stmts
  emit' .pushNull
  emit' .result

/-- A run of the body of a function: after its parameters are taken, its statements follow one another. -/
theorem functionBody_region {name : String} {line bodyLine : Nat} {params : List Param}
    {stmts : List Stmt} {c : Draft} (h : Good debug d Γ)
    (hstmts : ∀ {c c' : Draft}, Good debug c (bodyEnv Γ params) → statements stmts c = .ok ((), c') →
      Spans debug c c' (envAfterAll debug (bodyEnv Γ params) stmts)
        fun r out loop => PlacesAllStmts anywhere debug r out (bodyEnv Γ params) loop stmts)
    (hd : functionBody bodyLine params stmts (d.child name line) = .ok ((), c)) :
    ∃ c₀ k, c₀.builder.name = name ∧ c₀.builder.paramCount = params.length ∧
      c₀.builder.refFlags = paramFlags 0 params 0 ∧ c₀.builder.children = #[] ∧ c₀.size = 1 ∧
      c₀.builder.loops = [] ∧
      c₀.enclosing = d.builder :: d.enclosing ∧ c₀.scopes = (d.scopeCount + 1) :: d.scopes ∧
      c₀.scopeCount = d.scopeCount + 1 ∧ c.size = k + 2 ∧
      Region debug c₀ c (envAfterAll debug (bodyEnv Γ params) stmts) [] fun r out loop =>
        PlacesAllStmts anywhere debug r out (bodyEnv Γ params) loop stmts 1 k ∧ r.Has k .pushNull ∧
          r.Has (k + 1) .result := by
  unfold functionBody at hd
  simp only [bind_ok, emit'_ok, modifyBuilder_ok, setLine_ok] at hd
  obtain ⟨_, _, rfl, _, c₁, hparams, _, _, rfl, _, _, rfl, _, c₂, hbody, _, _, rfl, rfl⟩ := hd
  have hstart := (h.child name line).emitted (.reserve 0)
  obtain ⟨hgood, line₁, locals, rfl⟩ := addParameters_spec hstart hparams
  have hbody := hstmts ((hgood.withHeader params.length _).withLine bodyLine) hbody
  have hnull := Region.emitted hbody.good .pushNull
  have hresult := Region.emitted hnull.good .result
  rw [Draft.size_emitted] at hresult
  have hregion : Region debug _ _ _ _ fun r out loop =>
      PlacesAllStmts anywhere debug r out (bodyEnv Γ params) loop stmts 1 c₂.size ∧
          r.Has c₂.size .pushNull ∧
        r.Has (c₂.size + 1) .result :=
    (Region.seq (Region.seq hbody hnull) hresult).imp fun _ _ _ hr => ⟨hr.1.1, hr.1.2, hr.2⟩
  refine ⟨_, c₂.size, ?_, ?_, ?_, ?_, ?_, ?_, ?_, ?_, ?_, by simp, hregion⟩
  all_goals rfl

/-- The routine of a function becomes part of the draft around it. -/
theorem routine_region {name : String} {line bodyLine : Nat} {params : List Param} {stmts : List Stmt}
    {child : Routine} (h : Good debug d Γ)
    (hstmts : ∀ {c c' : Draft}, Good debug c (bodyEnv Γ params) → statements stmts c = .ok ((), c') →
      Spans debug c c' (envAfterAll debug (bodyEnv Γ params) stmts)
        fun r out loop => PlacesAllStmts anywhere debug r out (bodyEnv Γ params) loop stmts)
    (hd : routine name line (functionBody bodyLine params stmts) d = .ok (child, d')) :
    d'.size = d.size ∧
      Region debug d d' Γ [] fun r out _ => PlacesBody debug r out Γ name params stmts child := by
  obtain ⟨c, hbody, rfl, hd'⟩ := routine_ok hd
  obtain ⟨c₀, k, hname, hcount, hflags, hnone, hsize, hloops, henc, hscopes, hscopeCount, hend, hr⟩ :=
    functionBody_region h hstmts hbody
  have hshares := hr.grows.enclosing
  rw [henc] at hshares
  cases hcenc : c.enclosing with
  | nil => rw [hcenc] at hshares; cases hshares
  | cons parent rest =>
    rw [hcenc] at hshares
    obtain ⟨hparent, hrest⟩ := List.forall₂_cons.mp hshares
    have hcscopes : c.scopes = (d.scopeCount + 1) :: d.scopes := hr.grows.scopes.trans hscopes
    have hclosed : c.closed = { c with
        scopes := d.scopes
        builder := { c.builder with locals := c.closed.builder.locals } } := by
      simp only [Draft.closed, hcscopes]
    obtain rfl := hd' parent rest (by rw [hclosed, hcenc])
    have hsame : parent = { d.builder with captures := parent.captures } := hparent.1
    have hcaptures := hr.good.captures
    rw [hcenc] at hcaptures
    refine ⟨congrArg (·.code.ops.size) hsame, ⟨?_, ?_, .of_eq (congrArg (·.children) hsame), by simp, ?_⟩⟩
    · rw [hclosed]
      refine ⟨hr.good.debug, ?_, ?_, h.depth, h.inScope, ?_, h.ordered, ?_, ?_, hcaptures.2⟩
      · exact hparent.visible_eq.trans h.names
      · rw [hsame]
        exact h.taken
      · rw [hsame]
        exact h.declared
      · intro s hs
        have := h.counted s hs
        have := hr.grows.scopeCount
        simp only at this ⊢
        omega
      · rw [hsame]
        exact h.waiting
    · rw [hclosed]
      refine .of_shares (hr.good.debug.trans h.debug.symm) rfl ?_ hparent hrest
      exact Nat.le_trans (by omega) hr.grows.scopeCount
    · intro r out loop hf
      have hout : FitsOuter c.enclosing ((r, Γ) :: out) := by
        rw [hcenc]
        exact .cons ⟨hparent.visible_eq.trans h.names, hf.within⟩ hf.outer
      have hfit : Fits c (c.closed.builder.finish c.closed.file) ((r, Γ) :: out) none 1 [] := by
        rw [c.closed_builder.1]
        exact Fits.finish c.closed_builder.2 (hr.grows.loops.trans (by rw [hloops]; rfl)) hout
      obtain ⟨hplaces, hnull, hresult⟩ := hr.places _ _ _ (hsize ▸ hfit)
      have hcode : c.closed.builder.code = c.builder.code := by rw [hclosed]
      refine ⟨?_, ?_, ?_, fun x hx => ?_, ⟨k, hplaces, ?_, finish_reserve ?_, hnull, hresult, ?_⟩, ?_⟩
      · rw [← hname, ← hr.grows.kept.name, hclosed]
        rfl
      · rw [← hcount, ← hr.grows.kept.paramCount, hclosed]
        rfl
      · rw [← hflags, ← hr.grows.kept.refFlags, hclosed]
        rfl
      · have hmem : x ∈ c.builder.captures := by
          rw [hclosed] at hx
          exact hx
        have hfound := hcaptures.1 x hmem
        unfold FoundIn at hfound
        cases hframe : x.fromFrame with
        | true =>
          simp only [hframe, if_true] at hfound ⊢
          obtain ⟨name, hname, hfound⟩ := hfound
          refine ⟨name, hname, ?_⟩
          rw [← Builder.findLocal_eq (hparent.visible_eq.trans h.names), hfound]
        | false =>
          simp only [hframe, Bool.false_eq_true, if_false] at hfound ⊢
          exact Nat.lt_of_lt_of_le hfound (by simpa using hf.within.captures.length_le)
      · rw [← hr.good.taken]
        simp [Builder.finish, Routine.frameSize, Draft.closed, hcscopes]
      · rw [hcode]
        exact Nat.lt_of_lt_of_le (by rw [hsize]; exact Nat.one_pos) hr.grows.size
      · simp only [Builder.finish, Code.size, Code.patch, Array.size_setIfInBounds, hcode]
        exact hend
      · rw [c.closed_builder.1]
        exact hr.covers.finish hnone hsize _ _

end Routines

end Rill.Compile
