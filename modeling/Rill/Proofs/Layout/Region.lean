-- SUMMARY: Regions of code: steps of compilation, composed, and what they mean for the finished routine.
import Rill.Proofs.Layout.Draft

/-!
# Regions

A *region* is a step of compilation from one draft to a later one. It says something of every finished
routine that the later draft fits. Jumps of a region that are still to be pointed somewhere are its *holes*.
Regions follow one another; a scope or a loop around a region is again a region.
-/

namespace Rill.Compile

open Layout (Binding Env Outer Loop)

-- ---------------------------------------------------------------------------
-- Regions
-- ---------------------------------------------------------------------------

/-- A step of compilation from one draft to a later one, and what it means for the finished routine. -/
structure Region (debug : Bool) (d d' : Draft) (Γ' : Env) (holes : List Nat)
    (P : Routine → Outer → Loop → Prop) : Prop where
  good : Good debug d' Γ'
  grows : Grows d d'
  covers : UsesNewChildren d d'
  free : ∀ p ∈ holes, d.size ≤ p ∧ p < d'.size ∧ ∀ loop, d'.builder.target loop p = none
  places : ∀ r out loop, Fits d' r out loop d.size holes → P r out loop

/-- A step of compilation that emits the code for a piece of syntax, with no jump left open. -/
abbrev Spans (debug : Bool) (d d' : Draft) (Γ' : Env) (P : Routine → Outer → Loop → Nat → Nat → Prop) :
    Prop :=
  Region debug d d' Γ' [] fun r out loop => P r out loop d.size d'.size

section Region

variable {debug : Bool} {d d₁ d₂ : Draft} {Γ Γ₁ Γ₂ : Env} {hs hs₁ hs₂ : List Nat}
  {P Q : Routine → Outer → Loop → Prop}

theorem Region.imp (h : Region debug d d₁ Γ hs P) (hPQ : ∀ r out loop, P r out loop → Q r out loop) :
    Region debug d d₁ Γ hs Q :=
  ⟨h.good, h.grows, h.covers, h.free, fun r out loop hr => hPQ r out loop (h.places r out loop hr)⟩

/-- A step that leaves the draft as it is. -/
theorem Region.refl (h : Good debug d Γ) : Region debug d d Γ [] fun _ _ _ => True :=
  ⟨h, .refl d, .of_eq rfl, by simp, fun _ _ _ _ => trivial⟩

/-- One step after another. -/
theorem Region.seq (h₁ : Region debug d d₁ Γ₁ hs₁ P) (h₂ : Region debug d₁ d₂ Γ₂ hs₂ Q) :
    Region debug d d₂ Γ₂ (hs₁ ++ hs₂) fun r out loop => P r out loop ∧ Q r out loop where
  good := h₂.good
  grows := h₁.grows.trans h₂.grows
  covers := h₁.covers.trans h₂.covers h₁.grows h₂.grows
  free p hp := by
    rcases List.mem_append.mp hp with hp | hp
    · obtain ⟨hlo, hhi, hfree⟩ := h₁.free p hp
      refine ⟨hlo, Nat.lt_of_lt_of_le hhi h₂.grows.size, fun loop => ?_⟩
      rw [h₂.grows.target loop p hhi, hfree loop]
    · obtain ⟨hlo, hhi, hfree⟩ := h₂.free p hp
      exact ⟨Nat.le_trans h₁.grows.size hlo, hhi, hfree⟩
  places r out loop hr := by
    refine ⟨h₁.places r out loop ?_, h₂.places r out loop ?_⟩
    · refine hr.of_grows h₂.grows (Nat.le_refl _) fun k hk _ hlt => ?_
      rcases List.mem_append.mp hk with hk | hk
      · exact hk
      · have := (h₂.free k hk).1
        omega
    · refine hr.of_grows (.refl d₂) h₁.grows.size fun k hk hlo _ => ?_
      rcases List.mem_append.mp hk with hk | hk
      · have := (h₁.free k hk).2.1
        omega
      · exact hk

/-- Lines of the drafts are no part of a region. -/
theorem Region.withLines (h : Region debug d d₁ Γ hs P) (line line₁ : Nat) :
    Region debug (d.onLine line) (d₁.onLine line₁) Γ hs P :=
  ⟨h.good.withLine line₁, h.grows.withLines line line₁, h.covers, h.free,
    fun r out loop hr => h.places r out loop ⟨hr.within, hr.outer, hr.inLoop, hr.code⟩⟩

/-- A region followed by a change of line. -/
theorem Region.thenLine (line : Nat) (h : Region debug d d₁ Γ hs P) :
    Region debug d (d₁.onLine line) Γ hs P :=
  h.withLines d.line line

/-- One piece of syntax after another. -/
theorem Spans.seq {P Q : Routine → Outer → Loop → Nat → Nat → Prop} (h₁ : Spans debug d d₁ Γ₁ P)
    (h₂ : Spans debug d₁ d₂ Γ₂ Q) :
    Spans debug d d₂ Γ₂ fun r out loop i j => ∃ k, P r out loop i k ∧ Q r out loop k j :=
  (Region.seq h₁ h₂).imp fun _ _ _ h => ⟨d₁.size, h⟩

end Region

-- ---------------------------------------------------------------------------
-- Instructions
-- ---------------------------------------------------------------------------

/-- The draft with one more instruction. -/
def Draft.emitted (d : Draft) (op : Instruction) : Draft :=
  { d with builder := { d.builder with code := d.builder.code.emit op d.line } }

section Emit

variable {debug : Bool} {d : Draft} {Γ : Env}

@[simp] theorem Draft.size_emitted (d : Draft) (op : Instruction) : (d.emitted op).size = d.size + 1 :=
  Array.size_push ..

theorem Draft.ops_emitted (d : Draft) (op : Instruction) :
    (d.emitted op).builder.code.ops = d.builder.code.ops.push op := rfl

theorem Draft.target_emitted (d : Draft) (op : Instruction) (loop : Loop) (k : Nat) :
    (d.emitted op).builder.target loop k = d.builder.target loop k := rfl

theorem Good.emitted (h : Good debug d Γ) (op : Instruction) : Good debug (d.emitted op) Γ where
  debug := h.debug
  names := h.names
  taken := h.taken
  depth := h.depth
  inScope := h.inScope
  declared := h.declared
  ordered := h.ordered
  counted := h.counted
  waiting jumps hj k hk := by
    have := h.waiting jumps hj k hk
    rw [d.size_emitted]
    omega
  captures := h.captures

theorem Grows.emitted (d : Draft) (op : Instruction) : Grows d (d.emitted op) where
  debug := rfl
  scopes := rfl
  scopeCount := Nat.le_refl _
  kept := (Builder.Kept.refl d.builder).withCode _ _
  loops := rfl
  outerLoops := rfl
  size := by simp
  ops k hk := by rw [d.ops_emitted, Array.getElem?_push_lt hk, Array.getElem?_eq_getElem hk]
  target _ _ _ := rfl
  enclosing := .refl _

/-- An emitted instruction stands in the finished routine. -/
theorem Region.emitted (h : Good debug d Γ) (op : Instruction) :
    Region debug d (d.emitted op) Γ [] fun r _ _ => r.Has d.size op where
  good := h.emitted op
  grows := .emitted d op
  covers := .of_eq rfl
  free := by simp
  places r out loop hr := by
    have hcode := hr.code d.size (Nat.le_refl _) (by simp) (by simp)
    rw [Builder.final, d.target_emitted, h.target_of_le (Nat.le_refl _)] at hcode
    exact hcode.trans Array.getElem?_push_size

/-- An emitted jump that is to be pointed somewhere later. -/
theorem Region.hole (h : Good debug d Γ) (op : Instruction) :
    Region debug d (d.emitted op) Γ [d.size] fun _ _ _ => True where
  good := h.emitted op
  grows := .emitted d op
  covers := .of_eq rfl
  free p hp := by
    obtain rfl := List.mem_singleton.mp hp
    refine ⟨Nat.le_refl _, by simp, fun loop => ?_⟩
    rw [d.target_emitted, h.target_of_le (Nat.le_refl _)]
  places _ _ _ _ := trivial

/-- An emitted instruction is a piece of code of its own. -/
theorem Spans.emitted (h : Good debug d Γ) (op : Instruction) :
    Spans debug d (d.emitted op) Γ fun r _ _ i j => r.Has i op ∧ j = i + 1 :=
  (Region.emitted h op).imp fun _ _ _ hr => ⟨hr, d.size_emitted op⟩

theorem Draft.ops_emitted_size (d : Draft) (op : Instruction) :
    (d.emitted op).builder.code.ops[d.size]? = some op :=
  Array.getElem?_push_size

end Emit

-- ---------------------------------------------------------------------------
-- Jumps to here
-- ---------------------------------------------------------------------------

/-- The draft with the jump at an index pointed to a target. -/
def Draft.pointed (d : Draft) (jump target : Nat) : Draft :=
  { d with builder := { d.builder with code := d.builder.code.patchJump jump target } }

section Point

variable {debug : Bool} {d d₁ : Draft} {Γ : Env} {p : Nat} {hs : List Nat}
  {P : Routine → Outer → Loop → Prop}

@[simp] theorem Draft.size_pointed (d : Draft) (jump target : Nat) :
    (d.pointed jump target).size = d.size :=
  Array.size_modify ..

theorem Draft.ops_pointed (d : Draft) (jump target k : Nat) :
    (d.pointed jump target).builder.code.ops[k]?
      = if jump = k then d.builder.code.ops[k]?.map (Instruction.retarget target)
        else d.builder.code.ops[k]? :=
  Array.getElem?_modify ..

theorem Good.pointed (h : Good debug d Γ) (jump target : Nat) : Good debug (d.pointed jump target) Γ where
  debug := h.debug
  names := h.names
  taken := h.taken
  depth := h.depth
  inScope := h.inScope
  declared := h.declared
  ordered := h.ordered
  counted := h.counted
  waiting jumps hj k hk := by
    rw [d.size_pointed]
    exact h.waiting jumps hj k hk
  captures := h.captures

/-- The first hole of a region is filled by pointing its jump to the end of the region. -/
theorem Region.fill (h : Region debug d d₁ Γ (p :: hs) P) (hnew : p ∉ hs) {test : JumpTest} {x : Nat}
    (hop : d₁.builder.code.ops[p]? = some (.jump test x)) :
    Region debug d (d₁.pointed p d₁.size) Γ hs
      fun r out loop => P r out loop ∧ r.Has p (.jump test d₁.size) where
  good := h.good.pointed p d₁.size
  grows := by
    have hlo := (h.free p List.mem_cons_self).1
    refine { h.grows with
      kept := h.grows.kept.withCode _ _
      size := by simpa using h.grows.size
      ops := fun k hk => ?_ }
    · rw [d₁.ops_pointed, if_neg (by omega)]
      exact h.grows.ops k hk
  covers := h.covers.imp rfl fun i k params _ hi => by
    rw [d₁.ops_pointed, hi]
    simp only [Option.map_some, Instruction.retarget, ite_self]
  free q hq := by
    rw [d₁.size_pointed]
    exact h.free q (List.mem_cons_of_mem _ hq)
  places r out loop hr := by
    obtain ⟨hlo, hhi, hfree⟩ := h.free p List.mem_cons_self
    constructor
    · have hwithin := hr.within.of_kept ((Builder.Kept.refl d₁.builder).withCode _ _)
      refine h.places r out loop ⟨hwithin, hr.outer, hr.inLoop, fun k hk hlt hmem => ?_⟩
      rw [List.mem_cons, not_or] at hmem
      rw [hr.code k hk (by simpa using hlt) hmem.2]
      simp only [Builder.final, d₁.ops_pointed, if_neg (Ne.symm hmem.1)]
      rfl
    · have hcode := hr.code p hlo (by simpa using hhi) hnew
      have htarget : (d₁.pointed p d₁.size).builder.target loop p = none := hfree loop
      rw [Builder.final, htarget] at hcode
      simp only [d₁.ops_pointed, if_true, hop] at hcode
      exact hcode

/-- A jump over a region to its end. -/
theorem Region.jumpOver {Γ₁ : Env} {test : JumpTest} (h : Good debug d Γ)
    (hb : Region debug (d.emitted (.jump test 0)) d₁ Γ₁ hs P) :
    Region debug d (d₁.pointed d.size d₁.size) Γ₁ hs
      fun r out loop => r.Has d.size (.jump test d₁.size) ∧ P r out loop := by
  have hsize := d.size_emitted (.jump test 0)
  have hnew : d.size ∉ hs := fun hmem => by
    have := (hb.free d.size hmem).1
    omega
  have hop : d₁.builder.code.ops[d.size]? = some (.jump test 0) := by
    rw [hb.grows.ops d.size (by omega), d.ops_emitted_size]
  exact (((Region.hole h _).seq hb).fill hnew hop).imp fun _ _ _ hr => ⟨hr.2, hr.1.2⟩

/-- Jumps to the end of a region, all pointed there. -/
theorem Region.fillAll {d₂ : Draft} (h : Region debug d d₁ Γ hs P) (hnodup : hs.Nodup)
    (hops : ∀ p ∈ hs, d₁.builder.code.ops[p]? = some (.jump .always 0))
    (hd : hs.foldl (fun d p => d.pointed p d.size) d₁ = d₂) :
    Region debug d d₂ Γ [] fun r out loop => P r out loop ∧ ∀ p ∈ hs, r.Has p (.jump .always d₁.size) := by
  induction hs generalizing d₁ P with
  | nil =>
    obtain rfl := hd
    exact h.imp fun _ _ _ hr => ⟨hr, by simp⟩
  | cons p hs ih =>
    obtain ⟨hnew, hnodup⟩ := List.nodup_cons.mp hnodup
    have hfilled := h.fill hnew (hops p List.mem_cons_self)
    have hrest := ih hfilled hnodup (fun q hq => ?_) hd
    · refine hrest.imp fun r out loop hr => ⟨hr.1.1, fun q hq => ?_⟩
      rcases List.mem_cons.mp hq with rfl | hq
      · exact hr.1.2
      · simpa using hr.2 q hq
    · rw [d₁.ops_pointed, if_neg (fun heq : p = q => hnew (heq ▸ hq))]
      exact hops q (List.mem_cons_of_mem _ hq)

end Point

-- ---------------------------------------------------------------------------
-- Tables
-- ---------------------------------------------------------------------------

section Tables

variable {debug : Bool} {d : Draft} {Γ : Env}

/-- A step that extends tables, but neither code nor locals. -/
theorem Region.tables (h : Good debug d Γ) {b : Builder} {enclosing : List Builder}
    (hkept : d.builder.Kept b) (hcode : b.code = d.builder.code) (hloops : b.loops = d.builder.loops)
    (hlocals : b.locals = d.builder.locals) (hchildren : b.children = d.builder.children)
    (hshares : SharesAll d.enclosing enclosing)
    (hcaptures : CapturesFound b.captures enclosing) :
    Region debug d { d with builder := b, enclosing := enclosing } Γ []
      fun r out _ => b.Within r ∧ FitsOuter enclosing out where
  good :=
    { h with
      names := by simpa only [Builder.visible, hlocals] using h.names
      taken := by simpa only [hlocals] using h.taken
      declared := by simpa only [hlocals] using h.declared
      waiting := by simpa only [Draft.size, hloops, hcode] using h.waiting
      captures := hcaptures }
  grows :=
    { Grows.refl d with
      kept := hkept
      loops := by simp only [hloops]
      outerLoops := by simp only [hloops]
      size := by simp only [Draft.size, hcode, Nat.le_refl]
      ops := fun k _ => by simp only [hcode]
      target := fun loop k _ => by simp only [Builder.target, hloops]
      enclosing := hshares }
  covers := .of_eq hchildren
  free := by simp
  places r out loop hr := ⟨hr.within, hr.outer⟩

/-- A step that extends tables of the current routine only. -/
theorem Region.builder (h : Good debug d Γ) {b : Builder} (hkept : d.builder.Kept b)
    (hcode : b.code = d.builder.code) (hloops : b.loops = d.builder.loops)
    (hlocals : b.locals = d.builder.locals) (hchildren : b.children = d.builder.children)
    (hcaptures : b.captures = d.builder.captures) :
    Region debug d { d with builder := b } Γ [] fun r _ _ => b.Within r :=
  (Region.tables h hkept hcode hloops hlocals hchildren (.refl _) (hcaptures ▸ h.captures)).imp
    fun _ _ _ hr => hr.1

-- ---------------------------------------------------------------------------
-- Locals
-- ---------------------------------------------------------------------------

/-- The draft with one more local in the innermost scope. -/
def Draft.declared (d : Draft) (name : String) : Draft :=
  { d with builder := { d.builder with
      locals := d.builder.locals.push ⟨⟨name, d.currentScope, d.scopes.length⟩, true⟩ } }

theorem Draft.scopeAt_length (h : Good debug d Γ) :
    scopeAt d.scopes d.scopes.length = some d.currentScope := by
  have hpos := h.inScope
  rw [← h.depth] at hpos
  unfold Draft.currentScope
  cases hs : d.scopes with
  | nil => simp [hs] at hpos
  | cons scope rest => exact Compile.scopeAt_length scope rest

theorem Region.declared (h : Good debug d Γ) (name : String) :
    Region debug d (d.declared name) (Γ.declare name) [] fun r _ _ => Γ.taken < r.frameSize where
  good :=
    { h with
      names := by
        rw [Env.declare, ← h.names, ← h.taken, ← h.depth]
        exact visibleBelow_push ..
      taken := by simp [Draft.declared, h.taken]
      declared := fun l hl hactive => by
        rcases Array.mem_push.mp hl with hl | rfl
        · exact h.declared l hl hactive
        · exact d.scopeAt_length h }
  grows :=
    { Grows.refl d with
      kept := { Builder.Kept.refl d.builder with locals := by simp [Draft.declared] } }
  covers := .of_eq rfl
  free := by simp
  places r out loop hr := by
    have := hr.within.frame
    simp only [Draft.declared, Array.size_push, h.taken] at this
    omega

/-- The innermost scope of the draft is that of the syntax tree. -/
theorem Good.localInScope_eq (h : Good debug d Γ) (name : String) :
    d.localInScope name = Γ.inScope? name := by
  unfold Draft.localInScope Env.inScope? lastIndex
  rw [← h.names, Builder.visible]
  simp only [Bool.and_assoc]
  apply lastIndexBelow_visible
  intro i l _ hl hactive
  have hscope := h.declared l (Array.mem_of_getElem? hl) hactive
  have : l.info.scope = d.currentScope ↔ l.info.depth = Γ.depth := by
    rw [← h.depth]
    constructor
    · intro heq
      exact scopeAt_inj h.ordered hscope (heq ▸ d.scopeAt_length h)
    · intro heq
      rw [heq, d.scopeAt_length h] at hscope
      exact (Option.some.inj hscope).symm
  simp only [this]
  rfl

end Tables

-- ---------------------------------------------------------------------------
-- Scopes
-- ---------------------------------------------------------------------------

/-- The draft with a new innermost scope. -/
def Draft.opened (d : Draft) : Draft :=
  { d with scopes := (d.scopeCount + 1) :: d.scopes, scopeCount := d.scopeCount + 1 }

/-- A local whose scope is no longer open, if it is the given one. -/
def Local.hide (scope : Nat) (l : Local) : Local :=
  if l.info.scope = scope then { l with active := false } else l

/-- The draft with the innermost scope closed. -/
def Draft.closed (d : Draft) : Draft :=
  match d.scopes with
  | [] => d
  | scope :: rest =>
    { d with
      scopes  := rest
      builder := { d.builder with locals := d.builder.locals.map (Local.hide scope) } }

@[simp] theorem Local.hide_info (scope : Nat) (l : Local) : (l.hide scope).info = l.info := by
  unfold Local.hide
  split <;> rfl

theorem Local.hide_active (scope : Nat) (l : Local) :
    (l.hide scope).active = (l.active && !decide (l.info.scope = scope)) := by
  unfold Local.hide
  split
  · next h => simp [h]
  · next h => simp [h]

@[simp] theorem Draft.size_closed (d : Draft) : d.closed.size = d.size := by
  unfold Draft.closed
  split <;> rfl

@[simp] theorem Draft.size_opened (d : Draft) : d.opened.size = d.size := rfl

section Scope

variable {debug : Bool} {d d₁ : Draft} {Γ Γ₁ : Env} {hs : List Nat} {P : Routine → Outer → Loop → Prop}

theorem Good.opened (h : Good debug d Γ) : Good debug d.opened Γ.enter :=
  { h with
    depth := by simp [Draft.opened, h.depth]
    inScope := by simp
    declared := fun l hl hactive => by
      have hl := h.declared l hl hactive
      rw [← hl]
      exact scopeAt_cons (scopeAt_le hl).2.1
    ordered := by
      refine List.pairwise_cons.mpr ⟨fun s hs => ?_, h.ordered⟩
      have := h.counted s hs
      omega
    counted := fun s hs => by
      rcases List.mem_cons.mp hs with rfl | hs
      · exact Nat.le_refl _
      · exact Nat.le_succ_of_le (h.counted s hs) }

theorem Good.closed {scope : Nat} {rest : List Nat} (h : Good debug d Γ) (hs : d.scopes = scope :: rest)
    (hrest : rest ≠ []) : Good debug d.closed Γ.leave := by
  have hdepth : Γ.depth = rest.length + 1 := by rw [← h.depth, hs, List.length_cons]
  have hpos : 0 < rest.length := List.length_pos_iff.mpr hrest
  simp only [Draft.closed, hs]
  have hinner : ∀ l ∈ d.builder.locals, l.active = true →
      (l.info.scope = scope ↔ ¬ l.info.depth < Γ.depth) := by
    intro l hl hactive
    have hscope := h.declared l hl hactive
    have hle := (scopeAt_le hscope).2.1
    rw [h.depth] at hle
    constructor
    · rintro rfl
      have := scopeAt_inj h.ordered hscope (hs ▸ scopeAt_length l.info.scope rest)
      omega
    · intro hnot
      have heq : l.info.depth = rest.length + 1 := by omega
      rw [heq, hs, scopeAt_length] at hscope
      exact (Option.some.inj hscope).symm
  refine { h with names := ?_, taken := ?_, depth := ?_, inScope := ?_,
                  declared := ?_, ordered := ?_, counted := ?_ }
  · rw [Env.leave, ← h.names]
    simp only [Builder.visible, Array.size_map]
    apply visibleBelow_hide (Local.hide_info scope)
    intro i l _ hl
    rw [Local.hide_active]
    cases hactive : l.active with
    | false => rfl
    | true =>
      have hiff := hinner l (Array.mem_of_getElem? hl) hactive
      by_cases hlt : l.info.depth < Γ.depth <;> simp [hiff, hlt]
  · simpa using h.taken
  · simp [hdepth]
  · simp only [Env.leave_depth]
    omega
  · intro l hl hactive
    obtain ⟨l, hmem, rfl⟩ := Array.mem_map.mp hl
    rw [Local.hide_active, Bool.and_eq_true] at hactive
    have hscope := h.declared l hmem hactive.1
    have hne : l.info.scope ≠ scope := by simpa using hactive.2
    have hlt : l.info.depth < Γ.depth := by
      by_contra hnot
      exact hne ((hinner l hmem hactive.1).mpr hnot)
    rw [hs, scopeAt_cons (by omega)] at hscope
    simpa using hscope
  · have := h.ordered
    rw [hs] at this
    exact this.of_cons
  · intro s hmem
    exact h.counted s (hs ▸ List.mem_cons_of_mem _ hmem)

/-- What is compiled in a scope of its own. -/
theorem Region.scope (h : Good debug d Γ) (hr : Region debug d.opened d₁ Γ₁ hs P) :
    Region debug d d₁.closed Γ₁.leave hs P := by
  have hscopes : d₁.scopes = (d.scopeCount + 1) :: d.scopes := hr.grows.scopes
  have hne : d.scopes ≠ [] := by
    rw [← List.length_pos_iff, h.depth]
    exact h.inScope
  have hclosed : d₁.closed = { d₁ with
      scopes := d.scopes
      builder := { d₁.builder with
        locals := d₁.builder.locals.map (Local.hide (d.scopeCount + 1)) } } := by
    simp only [Draft.closed, hscopes]
  have hkept : d₁.builder.Kept d₁.closed.builder := by
    rw [hclosed]
    exact { Builder.Kept.refl d₁.builder with locals := by simp }
  refine ⟨hr.good.closed hscopes hne, ?_, ?_, ?_, ?_⟩
  · rw [hclosed] at hkept ⊢
    exact
      { hr.grows with
        scopes := rfl
        scopeCount := Nat.le_trans (Nat.le_succ _) hr.grows.scopeCount
        kept := hr.grows.kept.trans hkept }
  · rw [hclosed]
    exact hr.covers
  · rw [hclosed]
    exact hr.free
  · intro r out loop hf
    rw [hclosed] at hf hkept
    exact hr.places r out loop ⟨hf.within.of_kept hkept, hf.outer, hf.inLoop, hf.code⟩

end Scope

-- ---------------------------------------------------------------------------
-- Loops
-- ---------------------------------------------------------------------------

/-- The draft with a new innermost loop. -/
def Draft.entered (d : Draft) : Draft :=
  { d with builder := { d.builder with loops := {} :: d.builder.loops } }

/-- Code with several jumps pointed to one target. -/
def patchJumps (code : Code) (jumps : List Nat) (target : Nat) : Code :=
  jumps.foldl (fun code jump => code.patchJump jump target) code

/-- The draft with the innermost loop closed. -/
def Draft.exited (d : Draft) (next : Nat) : Draft :=
  match d.builder.loops with
  | [] => d
  | jumps :: rest =>
    { d with builder := { d.builder with
        code := patchJumps (patchJumps d.builder.code jumps.nexts next) jumps.leaves d.size
        loops := rest } }

/-- The last target of a jump counts. -/
theorem retarget_comp (s t : Nat) :
    Instruction.retarget t ∘ Instruction.retarget s = Instruction.retarget t := by
  funext op
  cases op <;> rfl

theorem size_patchJumps (code : Code) (jumps : List Nat) (target : Nat) :
    (patchJumps code jumps target).ops.size = code.ops.size := by
  unfold patchJumps
  induction jumps generalizing code with
  | nil => rfl
  | cons jump rest ih =>
    rw [List.foldl_cons, ih]
    simp [Code.patchJump]

theorem ops_patchJumps (code : Code) (jumps : List Nat) (target k : Nat) :
    (patchJumps code jumps target).ops[k]?
      = if k ∈ jumps then code.ops[k]?.map (Instruction.retarget target) else code.ops[k]? := by
  unfold patchJumps
  induction jumps generalizing code with
  | nil => rfl
  | cons jump rest ih =>
    rw [List.foldl_cons, ih]
    simp only [Code.patchJump, Array.getElem?_modify, List.mem_cons]
    by_cases hk : jump = k
    · subst hk
      by_cases hr : jump ∈ rest <;> simp [hr, retarget_comp]
    · simp [hk, Ne.symm hk]

@[simp] theorem Draft.size_entered (d : Draft) : d.entered.size = d.size := rfl

section Loops

variable {debug : Bool} {d d₁ : Draft} {Γ Γ₁ : Env} {hs : List Nat} {P : Routine → Outer → Loop → Prop}

theorem Draft.exited_eq {jumps : LoopJumps} {rest : List LoopJumps} (h : d.builder.loops = jumps :: rest)
    (next : Nat) :
    d.exited next = { d with builder := { d.builder with
      code := patchJumps (patchJumps d.builder.code jumps.nexts next) jumps.leaves d.size
      loops := rest } } := by
  simp only [Draft.exited, h]

@[simp] theorem Draft.size_exited (d : Draft) (next : Nat) : (d.exited next).size = d.size := by
  cases h : d.builder.loops with
  | nil => simp only [Draft.exited, h]
  | cons jumps rest =>
    rw [Draft.exited_eq h]
    simp only [Draft.size, size_patchJumps]

/-- Closing a loop points its waiting jumps to the ends of the loop. -/
theorem Draft.ops_exited {jumps : LoopJumps} {rest : List LoopJumps} (h : d.builder.loops = jumps :: rest)
    (next k : Nat) :
    (d.exited next).builder.code.ops[k]? = d.builder.final (some (d.size, next)) k := by
  rw [Draft.exited_eq h]
  simp only [ops_patchJumps, Builder.final, Builder.target, LoopJumps.target, h]
  by_cases hleave : k ∈ jumps.leaves <;> by_cases hnext : k ∈ jumps.nexts <;>
    simp [hleave, hnext, retarget_comp]

theorem Good.entered (h : Good debug d Γ) : Good debug d.entered Γ :=
  { h with
    waiting := fun jumps hj k hk => by
      rcases List.mem_cons.mp hj with rfl | hj
      · simp at hk
      · exact h.waiting jumps hj k hk }

/-- The jumps of a loop stand in the loop. -/
theorem Region.loop_jumps (hr : Region debug d.entered d₁ Γ₁ hs P) :
    ∃ jumps, d₁.builder.loops = jumps :: d.builder.loops ∧
      ∀ k < d.size, k ∉ jumps.leaves ∧ k ∉ jumps.nexts := by
  have hne : d₁.builder.loops.isEmpty = false := hr.grows.loops
  have htail : d₁.builder.loops.tail = d.builder.loops := hr.grows.outerLoops
  cases hl : d₁.builder.loops with
  | nil => simp [hl] at hne
  | cons jumps rest =>
    rw [hl, List.tail_cons] at htail
    refine ⟨jumps, by rw [htail], fun k hk => ?_⟩
    have htarget := hr.grows.target (some (0, 0)) k hk
    simp only [Builder.target, hl, Draft.entered, LoopJumps.target] at htarget
    by_cases hleave : k ∈ jumps.leaves <;> by_cases hnext : k ∈ jumps.nexts <;>
      simp_all

/-- What is compiled between the entry of a loop and its end. -/
theorem Region.loop (h : Good debug d Γ) (hr : Region debug d.entered d₁ Γ₁ [] P) (next : Nat) :
    Region debug d (d₁.exited next) Γ₁ [] fun r out _ => P r out (some (d₁.size, next)) := by
  obtain ⟨jumps, hloops, -⟩ := hr.loop_jumps
  have hops := fun k => Draft.ops_exited hloops next k
  have hsize := d₁.size_exited next
  have hentered : ∀ loop k, d.entered.builder.target loop k = none := by
    intro loop k
    unfold Builder.target
    split
    · next heq =>
      obtain ⟨rfl, -⟩ := List.cons.inj heq
      simp [LoopJumps.target]
    · rfl
  rw [Draft.exited_eq hloops] at hops hsize ⊢
  refine ⟨?_, ?_, ?_, by simp, ?_⟩
  · refine { hr.good with waiting := fun jumps hj k hk => ?_ }
    rw [hsize]
    exact Nat.lt_of_lt_of_le (h.waiting jumps hj k hk) hr.grows.size
  · refine
      { hr.grows with
        kept := (((Builder.Kept.refl d.builder).withCode _ _).trans hr.grows.kept).withCode _ _
        loops := rfl
        outerLoops := rfl
        size := by rw [hsize]; exact hr.grows.size
        ops := fun k hk => ?_
        target := fun loop k _ => rfl }
    rw [hops, hr.grows.final _ hk, Builder.final, hentered]
    rfl
  · refine hr.covers.imp rfl fun i k params _ hi => ?_
    rw [hops, Builder.final, hi]
    split <;> rfl
  · intro r out loop hf
    refine hr.places r out _ ⟨hf.within.of_kept ((Builder.Kept.refl _).withCode _ _), hf.outer, ?_, ?_⟩
    · rw [hloops]
      rfl
    · intro k hk hlt hmem
      rw [hf.code k hk (by rw [hsize]; exact hlt) hmem]
      have htarget := h.target_of_le hk loop
      simp only [Builder.final]
      simp only [Builder.target] at htarget ⊢
      rw [htarget]
      exact hops k

theorem patchJump_comm (code : Code) {p q s t : Nat} (h : p ≠ q) :
    (code.patchJump p s).patchJump q t = (code.patchJump q t).patchJump p s := by
  simp only [Code.patchJump, Code.mk.injEq, and_true]
  ext1
  · simp
  · simp [Array.getElem_modify]
    split <;> split <;> simp_all

theorem patchJumps_patchJump (code : Code) {p s t : Nat} {jumps : List Nat} (h : p ∉ jumps) :
    patchJumps (code.patchJump p s) jumps t = (patchJumps code jumps t).patchJump p s := by
  unfold patchJumps
  induction jumps generalizing code with
  | nil => rfl
  | cons jump rest ih =>
    rw [List.mem_cons, not_or] at h
    rw [List.foldl_cons, List.foldl_cons, patchJump_comm code h.1, ih _ h.2]

/-- A jump over a loop: it stands before the loop and leads to the end of it. -/
theorem Region.guardedLoop {test : JumpTest} (h : Good debug d Γ)
    (hb : Region debug (d.emitted (.jump test 0)).entered d₁ Γ₁ [] P) (next : Nat) :
    Region debug d ((d₁.pointed d.size d₁.size).exited next) Γ₁ []
      fun r out _ => r.Has d.size (.jump test d₁.size) ∧ P r out (some (d₁.size, next)) := by
  obtain ⟨jumps, hloops, hfresh⟩ := hb.loop_jumps
  obtain ⟨hleave, hnext⟩ := hfresh d.size (by simp)
  have hcomm : (d₁.pointed d.size d₁.size).exited next = (d₁.exited next).pointed d.size d₁.size := by
    have hloops' : (d₁.pointed d.size d₁.size).builder.loops = jumps :: d.builder.loops := hloops
    rw [Draft.exited_eq hloops, Draft.exited_eq hloops', Draft.size_pointed]
    simp only [Draft.pointed, patchJumps_patchJump _ hnext, patchJumps_patchJump _ hleave]
    rfl
  have hloop := Region.jumpOver h (Region.loop (h.emitted _) hb next)
  rw [Draft.size_exited] at hloop
  rwa [hcomm]

/-- The draft with a jump that waits for an end of the innermost loop. -/
def Draft.jumped (d : Draft) (jumps : LoopJumps) (rest : List LoopJumps) : Draft :=
  { d.emitted (.jump .always 0) with
    builder := { (d.emitted (.jump .always 0)).builder with loops := jumps :: rest } }

/-- A jump that waits for an end of the innermost loop leads to that end. -/
theorem Region.jumped (h : Good debug d Γ) {jumps jumps' : LoopJumps} {rest : List LoopJumps}
    {side : Nat × Nat → Nat} (hloops : d.builder.loops = jumps :: rest)
    (hwaiting : ∀ k, k ∈ jumps'.leaves ∨ k ∈ jumps'.nexts → k < d.size + 1)
    (hkept : ∀ ends, ∀ k < d.size, jumps'.target ends k = jumps.target ends k)
    (hnew : ∀ ends, jumps'.target ends d.size = some (side ends)) :
    Region debug d (d.jumped jumps' rest) Γ []
      fun r _ loop => ∃ ends, loop = some ends ∧ r.Has d.size (.jump .always (side ends)) where
  good :=
    { h.emitted (.jump .always 0) with
      waiting := fun j hj k hk => by
        have hsize : (d.jumped jumps' rest).size = d.size + 1 := d.size_emitted _
        rw [hsize]
        rcases List.mem_cons.mp hj with rfl | hj
        · exact hwaiting k hk
        · exact Nat.lt_succ_of_lt (h.waiting j (hloops ▸ List.mem_cons_of_mem _ hj) k hk) }
  grows :=
    { Grows.emitted d (.jump .always 0) with
      kept := (Builder.Kept.refl d.builder).withCode _ _
      loops := by rw [hloops]; rfl
      outerLoops := by rw [hloops]; rfl
      target := fun loop k hk => by
        cases loop with
        | none =>
          unfold Builder.target
          rw [hloops]
          rfl
        | some ends =>
          unfold Builder.target
          rw [hloops]
          exact hkept ends k hk }
  covers := .of_eq rfl
  free := by simp
  places r out loop hr := by
    have hsize : d.size < (d.jumped jumps' rest).size := by
      rw [show (d.jumped jumps' rest).size = d.size + 1 from d.size_emitted _]
      exact Nat.lt_succ_self _
    cases loop with
    | none =>
      have := hr.inLoop
      simp [Draft.jumped] at this
    | some ends =>
      refine ⟨ends, rfl, ?_⟩
      have hcode := hr.code d.size (Nat.le_refl _) hsize (by simp)
      have htarget : (d.jumped jumps' rest).builder.target (some ends) d.size = some (side ends) :=
        hnew ends
      rw [Builder.final, htarget] at hcode
      have hop : (d.jumped jumps' rest).builder.code.ops[d.size]? = some (.jump .always 0) :=
        Array.getElem?_push_size
      rw [hop] at hcode
      exact hcode

/-- A jump out of the innermost loop. -/
theorem Region.leave (h : Good debug d Γ) {jumps : LoopJumps} {rest : List LoopJumps}
    (hloops : d.builder.loops = jumps :: rest) :
    Region debug d (d.jumped { jumps with leaves := d.size :: jumps.leaves } rest) Γ []
      fun r _ loop => ∃ ends, loop = some ends ∧ r.Has d.size (.jump .always ends.1) := by
  have hwaiting := h.waiting jumps (hloops ▸ List.mem_cons_self)
  refine Region.jumped h hloops (fun k hk => ?_) (fun ends k hk => ?_) fun ends => ?_
  · rcases hk with hk | hk
    · rcases List.mem_cons.mp hk with rfl | hk
      · exact Nat.lt_succ_self _
      · exact Nat.lt_succ_of_lt (hwaiting k (.inl hk))
    · exact Nat.lt_succ_of_lt (hwaiting k (.inr hk))
  · simp [LoopJumps.target, Nat.ne_of_lt hk]
  · simp [LoopJumps.target]

/-- A jump to the next round of the innermost loop. -/
theorem Region.next (h : Good debug d Γ) {jumps : LoopJumps} {rest : List LoopJumps}
    (hloops : d.builder.loops = jumps :: rest) :
    Region debug d (d.jumped { jumps with nexts := d.size :: jumps.nexts } rest) Γ []
      fun r _ loop => ∃ ends, loop = some ends ∧ r.Has d.size (.jump .always ends.2) := by
  have hwaiting := h.waiting jumps (hloops ▸ List.mem_cons_self)
  refine Region.jumped h hloops (fun k hk => ?_) (fun ends k hk => ?_) fun ends => ?_
  · rcases hk with hk | hk
    · exact Nat.lt_succ_of_lt (hwaiting k (.inl hk))
    · rcases List.mem_cons.mp hk with rfl | hk
      · exact Nat.lt_succ_self _
      · exact Nat.lt_succ_of_lt (hwaiting k (.inr hk))
  · simp [LoopJumps.target, Nat.ne_of_lt hk]
  · have hnot : d.size ∉ jumps.leaves := fun hm => Nat.lt_irrefl _ (hwaiting _ (.inl hm))
    simp [LoopJumps.target, hnot]

end Loops

end Rill.Compile
