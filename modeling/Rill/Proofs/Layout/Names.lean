-- SUMMARY: The names visible at a point of a script, what they denote, and the locals of a builder against them.
import Mathlib.Data.List.Nodup
import Rill.Compile.Program
import Rill.Routine

/-!
# Visible names

Which names a statement declares, and which slots they take, is decided by the syntax tree. `Env` holds
the names visible in one routine together with the number of slots taken so far; `envAfter` follows a
statement. Slots are never used twice in a routine: a block gives its names back at its end, but not
their slots.

A builder keeps every local it ever declared and marks those whose scope is closed. The visible ones,
latest first, are the names of an `Env`. Scopes of a draft are numbered in the order they are opened, so
two visible locals were declared in the same scope exactly when they were declared at the same depth.
-/

namespace Rill.Layout

-- ---------------------------------------------------------------------------
-- Environments
-- ---------------------------------------------------------------------------

/-- A visible name: its slot, and the number of scopes open where it was declared. -/
structure Binding where
  name : String
  slot : Nat
  depth : Nat
  deriving Repr, DecidableEq

/-- The names visible in a routine, the latest first. `depth` scopes are open and `taken` slots in use. -/
structure Env where
  names : List Binding := []
  depth : Nat
  taken : Nat := 0
  deriving Repr, DecidableEq

namespace Env

/-- The slot of the latest visible declaration of a name. -/
def find? (Γ : Env) (name : String) : Option Nat :=
  (Γ.names.find? fun b => b.name == name).map (·.slot)

/-- The slot of a name declared in the innermost scope. -/
def inScope? (Γ : Env) (name : String) : Option Nat :=
  (Γ.names.find? fun b => b.depth == Γ.depth && b.name == name).map (·.slot)

/-- A new name in the innermost scope takes the next slot. -/
def declare (Γ : Env) (name : String) : Env :=
  { Γ with names := ⟨name, Γ.taken, Γ.depth⟩ :: Γ.names, taken := Γ.taken + 1 }

/-- New names, in order. -/
def declareAll (Γ : Env) (names : List String) : Env := names.foldl declare Γ

/-- Opens a scope. -/
def enter (Γ : Env) : Env := { Γ with depth := Γ.depth + 1 }

/-- Closes the innermost scope. -/
def leave (Γ : Env) : Env :=
  { Γ with names := Γ.names.filter (·.depth < Γ.depth), depth := Γ.depth - 1 }

@[simp] theorem enter_names (Γ : Env) : Γ.enter.names = Γ.names := rfl
@[simp] theorem enter_depth (Γ : Env) : Γ.enter.depth = Γ.depth + 1 := rfl
@[simp] theorem enter_taken (Γ : Env) : Γ.enter.taken = Γ.taken := rfl
@[simp] theorem leave_taken (Γ : Env) : Γ.leave.taken = Γ.taken := rfl
@[simp] theorem leave_depth (Γ : Env) : Γ.leave.depth = Γ.depth - 1 := rfl
@[simp] theorem declare_depth (Γ : Env) (name : String) : (Γ.declare name).depth = Γ.depth := rfl
@[simp] theorem declare_taken (Γ : Env) (name : String) : (Γ.declare name).taken = Γ.taken + 1 := rfl
@[simp] theorem declareAll_nil (Γ : Env) : Γ.declareAll [] = Γ := rfl
@[simp] theorem declareAll_cons (Γ : Env) (name : String) (names : List String) :
    Γ.declareAll (name :: names) = (Γ.declare name).declareAll names := rfl

@[simp] theorem declareAll_depth (Γ : Env) (names : List String) :
    (Γ.declareAll names).depth = Γ.depth := by
  induction names generalizing Γ with
  | nil => rfl
  | cons name names ih => simp [ih]

@[simp] theorem declareAll_taken (Γ : Env) (names : List String) :
    (Γ.declareAll names).taken = Γ.taken + names.length := by
  induction names generalizing Γ with
  | nil => rfl
  | cons name names ih => simp [ih]; omega

end Env

/-- The names of the hidden variables of a loop with a counter. -/
def counterNames (counter : String) (step : Option Expr) : List String :=
  counter :: "$end" :: (if step.isSome then ["$step"] else [])

-- ---------------------------------------------------------------------------
-- What statements declare
-- ---------------------------------------------------------------------------

mutual

/-- The names visible after a statement. `debug` tells whether `debug` blocks are compiled. -/
def envAfter (debug : Bool) (Γ : Env) : Stmt → Env
  | .declare _ names _ => Γ.declareAll names
  | .function _ isLocal name _ =>
    if isLocal || Γ.depth > 1 then
      if (Γ.inScope? name).isSome then Γ else Γ.declare name
    else Γ
  | .branch _ arms otherwise => envAfterOption debug (envAfterArms debug Γ arms) otherwise
  | .whileLoop _ _ body => envAfterBlock debug Γ body
  | .repeatLoop _ ⟨_, stmts⟩ _ => (envAfterAll debug Γ.enter stmts).leave
  | .forLoop _ counter _ _ _ step body =>
    (envAfterBlock debug (Γ.enter.declareAll (counterNames counter step)) body).leave
  | .foreachLoop _ key value _ _ ⟨_, stmts⟩ =>
    (envAfterAll debug ((Γ.enter.declare "$iter").enter.declareAll (key.toList ++ [value]))
    stmts).leave.leave
  | .debug _ body => if debug then envAfterBlock debug Γ body else Γ
  | .block _ body => envAfterBlock debug Γ body
  | .expr .. | .assign .. | .print .. | .result .. | .leave _ | .next _ | .pass _ | .assert ..
  | .throw .. => Γ

/-- The names visible after statements. -/
def envAfterAll (debug : Bool) (Γ : Env) : List Stmt → Env
  | [] => Γ
  | s :: rest => envAfterAll debug (envAfter debug Γ s) rest

/-- The names visible after a block. -/
def envAfterBlock (debug : Bool) (Γ : Env) : Block → Env
  | ⟨_, stmts⟩ => (envAfterAll debug Γ.enter stmts).leave

def envAfterArms (debug : Bool) (Γ : Env) : List (Expr × Block) → Env
  | [] => Γ
  | (_, body) :: rest => envAfterArms debug (envAfterBlock debug Γ body) rest

def envAfterOption (debug : Bool) (Γ : Env) : Option Block → Env
  | none => Γ
  | some body => envAfterBlock debug Γ body

end

-- ---------------------------------------------------------------------------
-- What names denote
-- ---------------------------------------------------------------------------

/-- The routines around a routine, innermost first, each with the names visible where the next one is
created. -/
abbrev Outer := List (Routine × Env)

/-- A captured variable is the one that a name denotes around the routine: a slot of the nearest routine
around it that declares the name, reached through the captured variables of those in between. -/
inductive Captured (name : String) : Array Capture → Outer → Nat → Prop
  | near {captures : Array Capture} {r : Routine} {Γ : Env} {rest : Outer} {k slot : Nat}
      (entry : captures[k]? = some ⟨slot, true⟩) (found : Γ.find? name = some slot) :
      Captured name captures ((r, Γ) :: rest) k
  | far {captures : Array Capture} {r : Routine} {Γ : Env} {rest : Outer} {k j : Nat}
      (entry : captures[k]? = some ⟨j, false⟩) (absent : Γ.find? name = none)
      (outside : Captured name r.captures rest j) :
      Captured name captures ((r, Γ) :: rest) k

/-- A slot is what a name denotes in a routine, given the names visible there and around it. -/
def Denotes (r : Routine) (out : Outer) (Γ : Env) (name : String) : Slot → Prop
  | .frame i => Γ.find? name = some i
  | .captured k => Γ.find? name = none ∧ Captured name r.captures out k
  | .global k =>
    Γ.find? name = none ∧ (∀ p ∈ out, p.2.find? name = none) ∧ r.strings[k]? = some name

end Rill.Layout

namespace Rill.Compile

open Layout (Binding Env)

-- ---------------------------------------------------------------------------
-- Visible locals, latest first
-- ---------------------------------------------------------------------------

/-- The visible locals with a slot below `bound`, latest first. -/
def visibleBelow (locals : Array Local) : Nat → List Binding
  | 0 => []
  | bound + 1 =>
    match locals[bound]? with
    | some l =>
      if l.active then ⟨l.info.name, bound, l.info.depth⟩ :: visibleBelow locals bound
      else visibleBelow locals bound
    | none => visibleBelow locals bound

/-- The visible locals of a builder, latest first. -/
def Builder.visible (b : Builder) : List Binding := visibleBelow b.locals b.locals.size

theorem visibleBelow_congr {xs ys : Array Local} {bound : Nat}
    (h : ∀ i < bound, xs[i]? = ys[i]?) : visibleBelow xs bound = visibleBelow ys bound := by
  induction bound with
  | zero => rfl
  | succ n ih =>
    have hlast := h n (by omega)
    have hinit := ih fun i hi => h i (by omega)
    simp only [visibleBelow, hlast, hinit]

/-- A search among the entries that are visible is a search among the visible locals. -/
theorem lastIndexBelow_visible {xs : Array Local} {q : Local → Bool} {p : Binding → Bool} {bound : Nat}
    (h : ∀ i l, i < bound → xs[i]? = some l → l.active = true → q l = p ⟨l.info.name, i, l.info.depth⟩) :
    lastIndexBelow (fun l => l.active && q l) xs bound
      = ((visibleBelow xs bound).find? p).map (·.slot) := by
  induction bound with
  | zero => rfl
  | succ n ih =>
    have hrest := ih fun i l hi => h i l (by omega)
    cases hl : xs[n]? with
    | none =>
      simp only [lastIndexBelow, visibleBelow, hl, Option.any_none, Bool.false_eq_true, if_false, hrest]
    | some l =>
      cases ha : l.active with
      | false => simp [lastIndexBelow, visibleBelow, hl, ha, hrest]
      | true =>
        have hq := h n l (by omega) hl ha
        cases hp : p ⟨l.info.name, n, l.info.depth⟩ <;>
          simp [lastIndexBelow, visibleBelow, hl, ha, hq, hp, hrest]

theorem Builder.findLocal_eq {b : Builder} {Γ : Env} (h : b.visible = Γ.names) (name : String) :
    b.findLocal name = Γ.find? name := by
  rw [Builder.findLocal, lastIndex, lastIndexBelow_visible (p := fun v => v.name == name)]
  · rw [Env.find?, ← h]
    rfl
  · intros
    rfl

/-- A new local is the latest visible one. -/
theorem visibleBelow_push (xs : Array Local) (info : LocalInfo) :
    visibleBelow (xs.push ⟨info, true⟩) (xs.push ⟨info, true⟩).size
      = ⟨info.name, xs.size, info.depth⟩ :: visibleBelow xs xs.size := by
  rw [Array.size_push]
  simp only [visibleBelow, Array.getElem?_push_size, if_true]
  rw [visibleBelow_congr fun i hi => Array.getElem?_push_lt hi ▸ (Array.getElem?_eq_getElem hi).symm]

/-- Closing a scope keeps the visible locals that were declared outside it. -/
theorem visibleBelow_hide {xs : Array Local} {f : Local → Local} {p : Binding → Bool} {bound : Nat}
    (hinfo : ∀ l, (f l).info = l.info)
    (hactive : ∀ i l, i < bound → xs[i]? = some l →
      (f l).active = (l.active && p ⟨l.info.name, i, l.info.depth⟩)) :
    visibleBelow (xs.map f) bound = (visibleBelow xs bound).filter p := by
  induction bound with
  | zero => rfl
  | succ n ih =>
    have hrest := ih fun i l hi => hactive i l (by omega)
    cases hl : xs[n]? with
    | none => simp only [visibleBelow, Array.getElem?_map, hl, Option.map_none, hrest]
    | some l =>
      have hf := hactive n l (by omega) hl
      cases ha : l.active <;> cases hp : p ⟨l.info.name, n, l.info.depth⟩ <;>
        simp [visibleBelow, Array.getElem?_map, hl, hf, ha, hp, hinfo, hrest]

-- ---------------------------------------------------------------------------
-- Scopes
-- ---------------------------------------------------------------------------

/-- The number of the scope that is open at a depth; the outermost one has depth 1. -/
def scopeAt (scopes : List Nat) (depth : Nat) : Option Nat :=
  if depth = 0 then none else scopes.reverse[depth - 1]?

/-- The innermost scope has the greatest depth. -/
theorem scopeAt_length (scope : Nat) (rest : List Nat) :
    scopeAt (scope :: rest) (rest.length + 1) = some scope := by
  simp [scopeAt]

theorem scopeAt_cons {scope depth : Nat} {rest : List Nat} (h : depth ≤ rest.length) :
    scopeAt (scope :: rest) depth = scopeAt rest depth := by
  unfold scopeAt
  split
  · rfl
  · rw [List.reverse_cons, List.getElem?_append_left]
    rw [List.length_reverse]
    omega

theorem scopeAt_le {scopes : List Nat} {depth scope : Nat} (h : scopeAt scopes depth = some scope) :
    0 < depth ∧ depth ≤ scopes.length ∧ scope ∈ scopes := by
  unfold scopeAt at h
  split at h
  · cases h
  · have hlt := (List.getElem?_eq_some_iff.mp h).1
    rw [List.length_reverse] at hlt
    exact ⟨by omega, by omega, List.mem_reverse.mp (List.mem_of_getElem? h)⟩

/-- Scope numbers are given in order, so equal numbers mean equal depths. -/
theorem scopeAt_inj {scopes : List Nat} {d₁ d₂ scope : Nat} (hs : scopes.Pairwise (· > ·))
    (h₁ : scopeAt scopes d₁ = some scope) (h₂ : scopeAt scopes d₂ = some scope) : d₁ = d₂ := by
  have hnodup : scopes.reverse.Nodup := by
    rw [List.nodup_reverse]
    exact hs.imp fun h => Nat.ne_of_gt h
  obtain ⟨hpos₁, hle₁, -⟩ := scopeAt_le h₁
  obtain ⟨hpos₂, hle₂, -⟩ := scopeAt_le h₂
  simp only [scopeAt, Nat.ne_of_gt hpos₁, Nat.ne_of_gt hpos₂, if_false] at h₁ h₂
  obtain ⟨lt₁, e₁⟩ := List.getElem?_eq_some_iff.mp h₁
  obtain ⟨lt₂, e₂⟩ := List.getElem?_eq_some_iff.mp h₂
  have := (List.Nodup.getElem_inj_iff hnodup).mp (e₁.trans e₂.symm)
  omega

end Rill.Compile
