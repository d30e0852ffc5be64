-- SUMMARY: What compilation keeps of a draft while it grows, and the finished routines that a draft fits.
import Rill.Proofs.Layout.Names
import Rill.Proofs.Layout.Placement
import Rill.Proofs.Syntax.Proper

/-!
# Drafts

Compilation only ever adds to a draft: what stands in the code, the constants and the captured variables
stays, but for jumps that wait for their targets. A finished routine that the draft *fits* has what the
draft has, with the waiting jumps of the innermost loop pointed to the ends of that loop.
-/

namespace Rill.Compile

open Layout (Binding Env Outer Loop)

-- ---------------------------------------------------------------------------
-- Drafts that agree with the syntax tree
-- ---------------------------------------------------------------------------

/-- The index of the next instruction. -/
def Draft.size (d : Draft) : Nat := d.builder.code.ops.size

/-- The draft with another line for the next instruction. -/
def Draft.onLine (d : Draft) (line : Nat) : Draft := { d with line := line }

@[simp] theorem Draft.size_onLine (d : Draft) (line : Nat) : (d.onLine line).size = d.size := rfl

/-- A captured variable is found in the enclosing routine: it is a local that a name of the text denotes
there, or a captured variable. -/
def FoundIn (c : Capture) (parent : Builder) : Prop :=
  if c.fromFrame then ∃ name, IsName name ∧ parent.findLocal name = some c.index
  else c.index < parent.captures.size

/-- Every routine finds its captured variables in the routine around it; a script has none. -/
def CapturesFound : Array Capture → List Builder → Prop
  | captures, [] => captures = #[]
  | captures, parent :: rest =>
    (∀ c ∈ captures, FoundIn c parent) ∧ CapturesFound parent.captures rest

/-- A draft agrees with the names that the syntax tree makes visible. -/
structure Good (debug : Bool) (d : Draft) (Γ : Env) : Prop where
  debug : d.debug = debug
  names : d.builder.visible = Γ.names
  taken : d.builder.locals.size = Γ.taken
  depth : d.scopes.length = Γ.depth
  inScope : 0 < Γ.depth
  declared : ∀ l ∈ d.builder.locals, l.active = true → scopeAt d.scopes l.info.depth = some l.info.scope
  ordered : d.scopes.Pairwise (· > ·)
  counted : ∀ s ∈ d.scopes, s ≤ d.scopeCount
  waiting : ∀ jumps ∈ d.builder.loops, ∀ k, k ∈ jumps.leaves ∨ k ∈ jumps.nexts → k < d.size
  captures : CapturesFound d.builder.captures d.enclosing

/-- The line of the next instruction is no part of the agreement. -/
theorem Good.withLine {debug : Bool} {d : Draft} {Γ : Env} (h : Good debug d Γ) (line : Nat) :
    Good debug (d.onLine line) Γ :=
  ⟨h.debug, h.names, h.taken, h.depth, h.inScope, h.declared, h.ordered, h.counted, h.waiting, h.captures⟩

-- ---------------------------------------------------------------------------
-- Waiting jumps
-- ---------------------------------------------------------------------------

/-- The target of a jump of a loop, given the ends of the loop. -/
def LoopJumps.target (jumps : LoopJumps) (ends : Nat × Nat) (k : Nat) : Option Nat :=
  if k ∈ jumps.leaves then some ends.1 else if k ∈ jumps.nexts then some ends.2 else none

/-- The target of a jump that waits for an end of the innermost loop. -/
def Builder.target (b : Builder) (loop : Loop) (k : Nat) : Option Nat :=
  match b.loops, loop with
  | jumps :: _, some ends => jumps.target ends k
  | _, _ => none

/-- The instruction at an index once the innermost loop is complete. -/
def Builder.final (b : Builder) (loop : Loop) (k : Nat) : Option Instruction :=
  match b.target loop k with
  | some target => b.code.ops[k]?.map (Instruction.retarget target)
  | none => b.code.ops[k]?

theorem Good.target_of_le {debug : Bool} {d : Draft} {Γ : Env} (h : Good debug d Γ) {k : Nat}
    (hk : d.size ≤ k) (loop : Loop) : d.builder.target loop k = none := by
  unfold Builder.target
  split
  · next jumps _ _ hl =>
    have hw := h.waiting jumps (by rw [hl]; exact List.mem_cons_self) k
    have hleave : k ∉ jumps.leaves := fun hm => by have := hw (.inl hm); omega
    have hnext : k ∉ jumps.nexts := fun hm => by have := hw (.inr hm); omega
    simp [LoopJumps.target, hleave, hnext]
  · rfl

-- ---------------------------------------------------------------------------
-- Growth
-- ---------------------------------------------------------------------------

/-- The tables of a builder are extended, and the header of its routine is kept. -/
structure Builder.Kept (b b' : Builder) : Prop where
  name : b'.name = b.name
  paramCount : b'.paramCount = b.paramCount
  refFlags : b'.refFlags = b.refFlags
  integers : b.integers.toList <+: b'.integers.toList
  floats : b.floats.toList <+: b'.floats.toList
  strings : b.strings.toList <+: b'.strings.toList
  children : b.children.toList <+: b'.children.toList
  captures : b.captures.toList <+: b'.captures.toList
  locals : b.locals.size ≤ b'.locals.size

theorem Builder.Kept.refl (b : Builder) : b.Kept b :=
  ⟨rfl, rfl, rfl, List.prefix_rfl, List.prefix_rfl, List.prefix_rfl, List.prefix_rfl, List.prefix_rfl,
    Nat.le_refl _⟩

theorem Builder.Kept.trans {a b c : Builder} (h : a.Kept b) (h' : b.Kept c) : a.Kept c :=
  ⟨h'.name.trans h.name, h'.paramCount.trans h.paramCount, h'.refFlags.trans h.refFlags,
    h.integers.trans h'.integers, h.floats.trans h'.floats, h.strings.trans h'.strings,
    h.children.trans h'.children, h.captures.trans h'.captures, Nat.le_trans h.locals h'.locals⟩

/-- Code and loops are no part of the tables. -/
theorem Builder.Kept.withCode {b b' : Builder} (h : b.Kept b') (code : Code) (loops : List LoopJumps) :
    b.Kept { b' with code := code, loops := loops } :=
  ⟨h.name, h.paramCount, h.refFlags, h.integers, h.floats, h.strings, h.children, h.captures, h.locals⟩

/-- Only the captured variables of a builder are extended. -/
def Builder.Shares (b b' : Builder) : Prop :=
  b' = { b with captures := b'.captures } ∧ b.captures.toList <+: b'.captures.toList

theorem Builder.Shares.refl (b : Builder) : b.Shares b := ⟨rfl, List.prefix_rfl⟩

theorem Builder.Shares.trans {a b c : Builder} (h : a.Shares b) (h' : b.Shares c) : a.Shares c := by
  refine ⟨?_, h.2.trans h'.2⟩
  rw [h'.1, h.1]

theorem Builder.Shares.kept {b b' : Builder} (h : b.Shares b') : b.Kept b' := by
  have hcaptures := h.2
  rw [h.1] at hcaptures ⊢
  exact { Builder.Kept.refl b with captures := hcaptures }

/-- Of the routines around the current one only the captured variables are extended. -/
abbrev SharesAll (bs bs' : List Builder) : Prop := List.Forall₂ Builder.Shares bs bs'

theorem SharesAll.refl (bs : List Builder) : SharesAll bs bs :=
  List.forall₂_same.mpr fun b _ => .refl b

theorem SharesAll.trans {as bs cs : List Builder} (h : SharesAll as bs) (h' : SharesAll bs cs) :
    SharesAll as cs := by
  induction h generalizing cs with
  | nil => exact h'
  | cons hb _ ih =>
    cases h' with
    | cons hc hrest => exact .cons (hb.trans hc) (ih hrest)

/-- A draft is extended. Code that stands stays, and waits for the same ends if it is a jump that waits. -/
structure Grows (d d' : Draft) : Prop where
  debug : d'.debug = d.debug
  scopes : d'.scopes = d.scopes
  scopeCount : d.scopeCount ≤ d'.scopeCount
  kept : d.builder.Kept d'.builder
  loops : d'.builder.loops.isEmpty = d.builder.loops.isEmpty
  outerLoops : d'.builder.loops.tail = d.builder.loops.tail
  size : d.size ≤ d'.size
  ops : ∀ k < d.size, d'.builder.code.ops[k]? = d.builder.code.ops[k]?
  target : ∀ loop, ∀ k < d.size, d'.builder.target loop k = d.builder.target loop k
  enclosing : SharesAll d.enclosing d'.enclosing

theorem Grows.refl (d : Draft) : Grows d d where
  debug := rfl
  scopes := rfl
  scopeCount := Nat.le_refl _
  kept := .refl _
  loops := rfl
  outerLoops := rfl
  size := Nat.le_refl _
  ops _ _ := rfl
  target _ _ _ := rfl
  enclosing := .refl _

theorem Grows.trans {a b c : Draft} (h : Grows a b) (h' : Grows b c) : Grows a c where
  debug := h'.debug.trans h.debug
  scopes := h'.scopes.trans h.scopes
  scopeCount := Nat.le_trans h.scopeCount h'.scopeCount
  kept := h.kept.trans h'.kept
  loops := h'.loops.trans h.loops
  outerLoops := h'.outerLoops.trans h.outerLoops
  size := Nat.le_trans h.size h'.size
  ops k hk := (h'.ops k (Nat.lt_of_lt_of_le hk h.size)).trans (h.ops k hk)
  target loop k hk := (h'.target loop k (Nat.lt_of_lt_of_le hk h.size)).trans (h.target loop k hk)
  enclosing := h.enclosing.trans h'.enclosing

theorem Grows.final {d d' : Draft} (h : Grows d d') (loop : Loop) {k : Nat} (hk : k < d.size) :
    d'.builder.final loop k = d.builder.final loop k := by
  simp only [Builder.final, h.target loop k hk, h.ops k hk]

/-- A step that extends only captured variables. -/
theorem Grows.of_shares {d d' : Draft} (hdebug : d'.debug = d.debug) (hscopes : d'.scopes = d.scopes)
    (hcount : d.scopeCount ≤ d'.scopeCount) (hb : d.builder.Shares d'.builder)
    (hbs : SharesAll d.enclosing d'.enclosing) : Grows d d' := by
  have hsame := hb.1
  refine ⟨hdebug, hscopes, hcount, hb.kept, ?_, ?_, ?_, ?_, ?_, hbs⟩
  · rw [hsame]
  · rw [hsame]
  · exact Nat.le_of_eq (congrArg (·.code.ops.size) hsame).symm
  · intro k _
    rw [hsame]
  · intro loop k _
    rw [hsame]
    rfl

/-- Every child that a step adds is made a function by code that the step emits. -/
def UsesNewChildren (d d' : Draft) : Prop :=
  ∀ k, d.builder.children.size ≤ k → k < d'.builder.children.size →
    ∃ i params, d.size ≤ i ∧ d'.builder.code.ops[i]? = some (.closure k params)

/-- A step without new children. -/
theorem UsesNewChildren.of_eq {d d' : Draft} (h : d'.builder.children = d.builder.children) :
    UsesNewChildren d d' := by
  intro k hlo hhi
  rw [h] at hhi
  omega

/-- The end of a step may change, as long as its functions stay. -/
theorem UsesNewChildren.imp {a b c : Draft} (h : UsesNewChildren a b)
    (hchildren : c.builder.children = b.builder.children)
    (hops : ∀ i k params, a.size ≤ i → b.builder.code.ops[i]? = some (.closure k params) →
      c.builder.code.ops[i]? = some (.closure k params)) : UsesNewChildren a c := by
  intro k hlo hhi
  rw [hchildren] at hhi
  obtain ⟨i, params, hi, hop⟩ := h k hlo hhi
  exact ⟨i, params, hi, hops i k params hi hop⟩

theorem UsesNewChildren.trans {a b c : Draft} (h : UsesNewChildren a b) (h' : UsesNewChildren b c)
    (hab : Grows a b) (hbc : Grows b c) : UsesNewChildren a c := by
  intro k hlo hhi
  rcases Nat.lt_or_ge k b.builder.children.size with hlt | hge
  · obtain ⟨i, params, hi, hop⟩ := h k hlo hlt
    have hin : i < b.size := (Array.getElem?_eq_some_iff.mp hop).1
    exact ⟨i, params, hi, (hbc.ops i hin).trans hop⟩
  · obtain ⟨i, params, hi, hop⟩ := h' k hge hhi
    exact ⟨i, params, Nat.le_trans hab.size hi, hop⟩

/-- Lines of the drafts are no part of growth. -/
theorem Grows.withLines {d d' : Draft} (h : Grows d d') (line line' : Nat) :
    Grows (d.onLine line) (d'.onLine line') :=
  ⟨h.debug, h.scopes, h.scopeCount, h.kept, h.loops, h.outerLoops, h.size, h.ops, h.target, h.enclosing⟩

-- ---------------------------------------------------------------------------
-- Finished routines
-- ---------------------------------------------------------------------------

/-- A finished routine has what a builder has in its tables. -/
structure Builder.Within (b : Builder) (r : Routine) : Prop where
  integers : b.integers.toList <+: r.integers.toList
  floats : b.floats.toList <+: r.floats.toList
  strings : b.strings.toList <+: r.strings.toList
  children : b.children.toList <+: r.children.toList
  captures : b.captures.toList <+: r.captures.toList
  frame : b.locals.size ≤ r.frameSize

theorem Builder.Within.of_kept {b b' : Builder} {r : Routine} (h : b.Kept b') (hr : b'.Within r) :
    b.Within r :=
  ⟨h.integers.trans hr.integers, h.floats.trans hr.floats, h.strings.trans hr.strings,
    h.children.trans hr.children, h.captures.trans hr.captures, Nat.le_trans h.locals hr.frame⟩

theorem Builder.Within.of_shares {b b' : Builder} {r : Routine} (h : b.Shares b') (hr : b'.Within r) :
    b.Within r := by
  obtain ⟨heq, hcaptures⟩ := h
  have hb := hr
  rw [heq] at hb
  exact ⟨hb.integers, hb.floats, hb.strings, hb.children, hcaptures.trans hr.captures, hb.frame⟩

/-- The builders around a routine go with the finished routines around it. -/
abbrev FitsOuter (enclosing : List Builder) (out : Outer) : Prop :=
  List.Forall₂ (fun b p => b.visible = p.2.names ∧ b.Within p.1) enclosing out

theorem FitsOuter.of_shares {bs bs' : List Builder} {out : Outer}
    (h : SharesAll bs bs') (hr : FitsOuter bs' out) : FitsOuter bs out := by
  induction h generalizing out with
  | nil => exact hr
  | cons hb _ ih =>
    cases hr with
    | cons hp hrest =>
      refine .cons ⟨?_, hp.2.of_shares hb⟩ (ih hrest)
      rw [← hp.1, hb.1]
      rfl

/-- A finished routine takes over what a draft has, with the code from index `lo` on but for the holes. -/
structure Fits (d : Draft) (r : Routine) (out : Outer) (loop : Loop) (lo : Nat) (holes : List Nat) :
    Prop where
  within : d.builder.Within r
  outer : FitsOuter d.enclosing out
  inLoop : loop.isSome = !d.builder.loops.isEmpty
  code : ∀ k, lo ≤ k → k < d.size → k ∉ holes → r.code.ops[k]? = d.builder.final loop k

/-- What fits the later draft fits the earlier one. -/
theorem Fits.of_grows {d d' : Draft} {r : Routine} {out : Outer} {loop : Loop} {lo lo' : Nat}
    {holes holes' : List Nat} (h : Grows d d') (hr : Fits d' r out loop lo' holes') (hlo : lo' ≤ lo)
    (hholes : ∀ k ∈ holes', lo ≤ k → k < d.size → k ∈ holes) : Fits d r out loop lo holes where
  within := hr.within.of_kept h.kept
  outer := hr.outer.of_shares h.enclosing
  inLoop := by rw [hr.inLoop, h.loops]
  code k hk hlt hmem := by
    rw [← h.final loop hlt]
    exact hr.code k (by omega) (Nat.lt_of_lt_of_le hlt h.size) fun hm => hmem (hholes k hm hk hlt)

end Rill.Compile
