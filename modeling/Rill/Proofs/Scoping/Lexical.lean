-- SUMMARY: Names are resolved as lexical scoping says.
import Rill.Proofs.Layout.Tables
import Rill.Proofs.Syntax.Grammar

/-!
# Lexical scoping

A name stands for the latest declaration visible where it is written: in the routine itself, else in the
nearest routine around it that declares it, else it is global. `lookup` says so for a list of
environments. `target` says where a slot of compiled code leads, through the tables of captured variables
of the routines around. The two agree on every occurrence of a name in a compiled script.
-/

namespace Rill.Layout

-- ---------------------------------------------------------------------------
-- Declarations
-- ---------------------------------------------------------------------------

/-- What a name can stand for: a slot of the routine a number of levels out, or a global. -/
inductive Referent where
  | variable (level slot : Nat)
  | global (name : String)
  deriving Repr, DecidableEq

/-- The same referent, seen from one routine further in. -/
def Referent.outward : Referent → Referent
  | .variable level slot => .variable (level + 1) slot
  | .global name => .global name

/-- The declaration that a name stands for, given the names visible in the routine and in those around it,
innermost first. -/
def lookup : List Env → String → Referent
  | [], name => .global name
  | Γ :: around, name =>
    match Γ.find? name with
    | some slot => .variable 0 slot
    | none => (lookup around name).outward

-- ---------------------------------------------------------------------------
-- Blocks
-- ---------------------------------------------------------------------------

/-- An environment follows another one in the same scope: names were added to the innermost scope only. -/
structure Env.Follows (Γ Γ' : Env) : Prop where
  depth : Γ'.depth = Γ.depth
  names : ∃ new : List Binding, Γ'.names = new ++ Γ.names ∧ ∀ b ∈ new, b.depth = Γ.depth

/-- Every visible name was declared in a scope that is open. -/
def Env.Bounded (Γ : Env) : Prop := ∀ b ∈ Γ.names, b.depth ≤ Γ.depth

theorem Env.Follows.refl (Γ : Env) : Γ.Follows Γ := ⟨rfl, [], rfl, by simp⟩

theorem Env.Follows.trans {Γ₁ Γ₂ Γ₃ : Env} (h : Γ₁.Follows Γ₂) (h' : Γ₂.Follows Γ₃) : Γ₁.Follows Γ₃ := by
  obtain ⟨hdepth, new, hnames, hnew⟩ := h
  obtain ⟨hdepth', new', hnames', hnew'⟩ := h'
  refine ⟨hdepth'.trans hdepth, new' ++ new, by rw [hnames', hnames, List.append_assoc], fun b hb => ?_⟩
  rcases List.mem_append.mp hb with hb | hb
  · rw [hnew' b hb, hdepth]
  · exact hnew b hb

theorem Env.Follows.bounded {Γ Γ' : Env} (h : Γ.Follows Γ') (hΓ : Γ.Bounded) : Γ'.Bounded := by
  obtain ⟨hdepth, new, hnames, hnew⟩ := h
  intro b hb
  rw [hnames] at hb
  rw [hdepth]
  rcases List.mem_append.mp hb with hb | hb
  · exact Nat.le_of_eq (hnew b hb)
  · exact hΓ b hb

theorem Env.follows_declare (Γ : Env) (name : String) : Γ.Follows (Γ.declare name) :=
  ⟨rfl, [⟨name, Γ.taken, Γ.depth⟩], rfl, by simp⟩

theorem Env.follows_declareAll (Γ : Env) (names : List String) : Γ.Follows (Γ.declareAll names) := by
  induction names generalizing Γ with
  | nil => exact .refl Γ
  | cons name rest ih => exact (follows_declare Γ name).trans (ih _)

theorem Env.Bounded.enter {Γ : Env} (h : Γ.Bounded) : Γ.enter.Bounded :=
  fun b hb => Nat.le_succ_of_le (h b hb)

/-- The end of a scope gives back the names that were visible before it. -/
theorem Env.Follows.leave_names {Γ Γ' : Env} (h : Γ.enter.Follows Γ') (hΓ : Γ.Bounded) :
    Γ'.leave.names = Γ.names ∧ Γ'.leave.depth = Γ.depth := by
  obtain ⟨hdepth, new, hnames, hnew⟩ := h
  rw [Env.enter_depth] at hdepth hnew
  refine ⟨?_, by simp [hdepth]⟩
  have hinner : new.filter (fun b => decide (b.depth < Γ.depth + 1)) = [] := by
    rw [List.filter_eq_nil_iff]
    intro b hb
    simp [hnew b hb]
  have houter : Γ.names.filter (fun b => decide (b.depth < Γ.depth + 1)) = Γ.names := by
    rw [List.filter_eq_self]
    intro b hb
    simpa using Nat.lt_succ_of_le (hΓ b hb)
  simp only [Env.leave, hnames, hdepth, List.filter_append, hinner, Env.enter_names, houter, List.nil_append]

theorem Env.Follows.leave {Γ Γ' : Env} (h : Γ.enter.Follows Γ') (hΓ : Γ.Bounded) : Γ.Follows Γ'.leave := by
  obtain ⟨hnames, hdepth⟩ := h.leave_names hΓ
  exact ⟨hdepth, [], hnames, by simp⟩

mutual

/-- A statement adds names to the innermost scope only. -/
theorem follows_envAfter (debug : Bool) {Γ : Env} (hΓ : Γ.Bounded) (s : Stmt) :
    Γ.Follows (envAfter debug Γ s) := by
  match s with
  | .declare _ names _ => exact Γ.follows_declareAll names
  | .function _ isLocal name _ =>
    simp only [envAfter]
    split
    · split
      · exact .refl Γ
      · exact Γ.follows_declare name
    · exact .refl Γ
  | .branch _ arms otherwise =>
    have harms := follows_envAfterArms debug hΓ arms
    exact harms.trans (follows_envAfterOption debug (harms.bounded hΓ) otherwise)
  | .whileLoop _ _ body => exact follows_envAfterBlock debug hΓ body
  | .repeatLoop _ ⟨_, stmts⟩ _ => exact (follows_envAfterAll debug hΓ.enter stmts).leave hΓ
  | .forLoop _ counter _ _ _ step body =>
    have hcounter := Γ.enter.follows_declareAll (counterNames counter step)
    exact (hcounter.trans (follows_envAfterBlock debug (hcounter.bounded hΓ.enter) body)).leave hΓ
  | .foreachLoop _ key value _ _ ⟨_, stmts⟩ =>
    have hiter := Γ.enter.follows_declare "$iter"
    have hbounded := hiter.bounded hΓ.enter
    have hnames := (Γ.enter.declare "$iter").enter.follows_declareAll (key.toList ++ [value])
    have hbody := hnames.trans (follows_envAfterAll debug (hnames.bounded hbounded.enter) stmts)
    exact (hiter.trans (hbody.leave hbounded)).leave hΓ
  | .debug _ body =>
    simp only [envAfter]
    split
    · exact follows_envAfterBlock debug hΓ body
    · exact .refl Γ
  | .block _ body => exact follows_envAfterBlock debug hΓ body
  | .expr .. | .assign .. | .print .. | .result .. | .leave _ | .next _ | .pass _ | .assert ..
  | .throw .. => exact .refl Γ

theorem follows_envAfterAll (debug : Bool) {Γ : Env} (hΓ : Γ.Bounded) (stmts : List Stmt) :
    Γ.Follows (envAfterAll debug Γ stmts) := by
  match stmts with
  | [] => exact .refl Γ
  | s :: rest =>
    have hs := follows_envAfter debug hΓ s
    exact hs.trans (follows_envAfterAll debug (hs.bounded hΓ) rest)

theorem follows_envAfterBlock (debug : Bool) {Γ : Env} (hΓ : Γ.Bounded) (b : Block) :
    Γ.Follows (envAfterBlock debug Γ b) := by
  match b with
  | ⟨_, stmts⟩ => exact (follows_envAfterAll debug hΓ.enter stmts).leave hΓ

theorem follows_envAfterArms (debug : Bool) {Γ : Env} (hΓ : Γ.Bounded) (arms : List (Expr × Block)) :
    Γ.Follows (envAfterArms debug Γ arms) := by
  match arms with
  | [] => exact .refl Γ
  | (_, body) :: rest =>
    have hbody := follows_envAfterBlock debug hΓ body
    exact hbody.trans (follows_envAfterArms debug (hbody.bounded hΓ) rest)

theorem follows_envAfterOption (debug : Bool) {Γ : Env} (hΓ : Γ.Bounded) (otherwise : Option Block) :
    Γ.Follows (envAfterOption debug Γ otherwise) := by
  match otherwise with
  | none => exact .refl Γ
  | some body => exact follows_envAfterBlock debug hΓ body

end

/-- After a block the names that were visible before it are visible again, and no others. -/
theorem envAfterBlock_names (debug : Bool) {Γ : Env} (hΓ : Γ.Bounded) (b : Block) :
    (envAfterBlock debug Γ b).names = Γ.names := by
  match b with
  | ⟨_, stmts⟩ => exact ((follows_envAfterAll debug hΓ.enter stmts).leave_names hΓ).1

-- ---------------------------------------------------------------------------
-- Slots
-- ---------------------------------------------------------------------------

/-- Where an entry of a table of captured variables leads, seen from the nearest routine around. -/
def follow (captures : Array Capture) : List Routine → Nat → Option Referent
  | [], _ => none
  | parent :: around, k =>
    match captures[k]? with
    | some ⟨slot, true⟩ => some (.variable 0 slot)
    | some ⟨j, false⟩ => (follow parent.captures around j).map Referent.outward
    | none => none

/-- Where a slot of a routine leads, given the routines around it, innermost first. -/
def target (r : Routine) (around : List Routine) : Slot → Option Referent
  | .frame slot => some (.variable 0 slot)
  | .captured k => (follow r.captures around k).map Referent.outward
  | .global k => r.strings[k]?.map Referent.global

-- ---------------------------------------------------------------------------
-- Agreement
-- ---------------------------------------------------------------------------

@[simp] theorem Referent.outward_eq_global {x : Referent} {name : String} :
    x.outward = .global name ↔ x = .global name := by
  cases x <;> simp [outward]

theorem Referent.outward_injective {x y : Referent} (h : x.outward = y.outward) : x = y := by
  cases x <;> cases y <;> simp_all [outward]

/-- A name is global where no routine declares it. -/
theorem lookup_eq_global_iff {envs : List Env} {name other : String} :
    lookup envs name = .global other ↔ (∀ Γ ∈ envs, Γ.find? name = none) ∧ name = other := by
  induction envs with
  | nil => simp [lookup]
  | cons Γ around ih =>
    cases hfind : Γ.find? name with
    | some slot => simp [lookup, hfind]
    | none => simp [lookup, hfind, ih]

/-- Captured variables lead to slots of routines, never to globals. -/
theorem follow_ne_global {captures : Array Capture} {around : List Routine} {k : Nat} {name : String} :
    follow captures around k ≠ some (.global name) := by
  induction around generalizing captures k with
  | nil => simp [follow]
  | cons parent around ih =>
    simp only [follow]
    split
    · simp
    · simpa using ih
    · simp

/-- A captured variable is the one that a name stands for around a routine exactly when its entry leads
to the declaration of the name. -/
theorem captured_iff_follow {name : String} {captures : Array Capture} {out : Outer} {k : Nat} :
    Captured name captures out k ↔
      follow captures (out.map (·.1)) k = some (lookup (out.map (·.2)) name) := by
  constructor
  · intro h
    induction h with
    | near entry found => simp [follow, lookup, entry, found]
    | far entry absent _ ih => simp [follow, lookup, entry, absent, ih]
  · intro h
    induction out generalizing captures k with
    | nil => simp [follow] at h
    | cons p rest ih =>
      obtain ⟨r, Γ⟩ := p
      simp only [List.map_cons, follow, lookup] at h
      split at h
      · next slot hentry =>
        cases hfind : Γ.find? name with
        | some i =>
          simp only [hfind, Option.some.injEq, Referent.variable.injEq, true_and] at h
          exact .near hentry (by rw [hfind, h])
        | none =>
          simp only [hfind, Option.some.injEq] at h
          cases hrest : lookup (rest.map (·.2)) name <;> simp [hrest, Referent.outward] at h
      · next j hentry =>
        obtain ⟨x, hx, hout⟩ := Option.map_eq_some_iff.mp h
        cases hfind : Γ.find? name with
        | some i =>
          simp only [hfind] at hout
          cases x <;> simp [Referent.outward] at hout
        | none =>
          simp only [hfind] at hout
          obtain rfl := Referent.outward_injective hout
          exact .far hentry hfind (ih hx)
      · cases h

/-- A slot is what a name denotes exactly when it leads to the declaration that the name stands for. -/
theorem denotes_iff_target {r : Routine} {out : Outer} {Γ : Env} {name : String} {slot : Slot} :
    Denotes r out Γ name slot ↔
      target r (out.map (·.1)) slot = some (lookup (Γ :: out.map (·.2)) name) := by
  cases hfind : Γ.find? name with
  | some i =>
    cases slot with
    | frame j => simp [Denotes, target, lookup, hfind, eq_comm]
    | captured k =>
      simp only [Denotes, target, lookup, hfind, reduceCtorEq, false_and, false_iff]
      intro h
      obtain ⟨x, -, hx⟩ := Option.map_eq_some_iff.mp h
      cases x <;> simp [Referent.outward] at hx
    | global k => simp [Denotes, target, lookup, hfind]
  | none =>
    cases slot with
    | frame j =>
      simp only [Denotes, target, lookup, hfind, reduceCtorEq, Option.some.injEq, false_iff]
      cases lookup (out.map (·.2)) name <;> simp [Referent.outward]
    | captured k =>
      simp only [Denotes, target, lookup, hfind, true_and, captured_iff_follow]
      constructor
      · intro h
        simp [h]
      · intro h
        obtain ⟨x, hx, hout⟩ := Option.map_eq_some_iff.mp h
        rw [hx, Referent.outward_injective hout]
    | global k =>
      simp only [Denotes, target, lookup, hfind, true_and, Option.map_eq_some_iff]
      constructor
      · rintro ⟨hout, htext⟩
        have habsent : ∀ Γ ∈ out.map (·.2), Γ.find? name = none := by
          intro Γ hΓ
          obtain ⟨p, hp, rfl⟩ := List.mem_map.mp hΓ
          exact hout p hp
        exact ⟨name, htext, (Referent.outward_eq_global.mpr (lookup_eq_global_iff.mpr ⟨habsent, rfl⟩)).symm⟩
      · rintro ⟨text, htext, hglobal⟩
        obtain ⟨hout, rfl⟩ := lookup_eq_global_iff.mp (Referent.outward_eq_global.mp hglobal.symm)
        exact ⟨fun p hp => hout p.2 (List.mem_map_of_mem hp), htext⟩

end Rill.Layout

namespace Rill

open Layout

/-- Every occurrence of a name in a script, read, assigned, referenced or passed on, is compiled to a slot
that leads to the declaration that lexical scoping gives it; the classes of parameters are looked up around
the function. After a block the names before it are visible again, and no routine captures a variable
twice. -/
theorem compile_lexical {text file : String} {debug : Bool} {s : Script} {r : Routine}
    (hparse : parse text = .ok s) (hcompile : compile s file debug = .ok r) :
    PlacesScript anywhere (s.debug.getD debug) r s.body.stmts ∧
      (∀ q out Γ name slot, Denotes q out Γ name slot ↔
        target q (out.map (·.1)) slot = some (lookup (Γ :: out.map (·.2)) name)) ∧
      (∀ (Γ : Env) (b : Block), Γ.Bounded → (envAfterBlock (s.debug.getD debug) Γ b).names = Γ.names) ∧
      ∀ q, Nested r q → q.captures.toList.Nodup :=
  ⟨compile_places (parse_proper hparse) hcompile, fun _ _ _ _ _ => denotes_iff_target,
    fun _ b hΓ => envAfterBlock_names _ hΓ b, compile_distinct hcompile⟩

/-- A function inside a function; a name is declared at two levels and captured through both functions,
and the class of a parameter is looked up around its function. -/
def nestedText : String :=
  "local x = 1\nfunction f(a)\n local function g(b as x)\n  x = a + b\n  return h(ref x)\n end\n" ++
    "do local x = g end\n return x\nend"

theorem compile_lexical_nested :
    ∃ s r, parse nestedText = .ok s ∧
      compile s "nested.rill" false = .ok r ∧
      PlacesScript anywhere (s.debug.getD false) r s.body.stmts ∧
      (∀ q out Γ name slot, Denotes q out Γ name slot ↔
        target q (out.map (·.1)) slot = some (lookup (Γ :: out.map (·.2)) name)) ∧
      (∀ (Γ : Env) (b : Block), Γ.Bounded → (envAfterBlock (s.debug.getD false) Γ b).names = Γ.names) ∧
      ∀ q, Nested r q → q.captures.toList.Nodup := by
  have hrun : ((parse nestedText).toOption.bind fun s =>
      (compile s "nested.rill" false).toOption).isSome = true := by
    decide +kernel
  cases hparse : parse nestedText with
  | error e => simp [hparse, Except.toOption] at hrun
  | ok s =>
    cases hcompile : compile s "nested.rill" false with
    | error e => simp [hparse, hcompile, Except.toOption] at hrun
    | ok r => exact ⟨s, r, rfl, hcompile, compile_lexical hparse hcompile⟩

end Rill
