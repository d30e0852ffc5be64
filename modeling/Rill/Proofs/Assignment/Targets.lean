-- SUMMARY: The code of an assignment to a place in a variable assigns in the variable's tree, and nowhere else.
import Rill.Proofs.Assignment.Underway

/-!
# Targets

The code of `a[i].x = v` makes what the variable holds ready for a change, then what each step leads to, and assigns at
the end. It is followed here instruction by instruction. Then the variable holds the tree that the assignment makes of
its tree, or a step fails and it holds its tree as before. Every other variable that is not reached through it keeps
its tree.
-/

namespace Rill

open Layout

namespace Machine

-- ---------------------------------------------------------------------------
-- Expressions and targets
-- ---------------------------------------------------------------------------

/-- The expression is a variable with a path of elements and fields, where the indices are constants and variables: the
seat of the variable, and the path with the indices that it has now. -/
inductive Leads (m : Machine) (f : Frame) (out : Outer) (Γ : Env) : Expr → Seat → List PlaceStep → Prop
  | ident {site : Site} {name : String} {s : Seat} (bound : ∃ slot, Denotes f.routine out Γ name slot)
      (seat : ∀ slot, Denotes f.routine out Γ name slot → m.seat? f slot = some s) : Leads m f out Γ (.ident site name) s []
  | element {site : Site} {e : Expr} {es : List Expr} {s : Seat} {path : List PlaceStep} {xs : List Value}
      (object : Leads m f out Γ e s path) (values : List.Forall₂ (m.Reads f out Γ) es xs) :
      Leads m f out Γ (.index site e es) s (path ++ [.element xs.toArray])
  | field {site : Site} {e : Expr} {s : Seat} {path : List PlaceStep} (object : Leads m f out Γ e s path)
      (name : String) : Leads m f out Γ (.field site e name) s (path ++ [.field name])

section Expressions

variable {m₀ m : Machine} {f : Frame} {rest : List Activation} {out : Outer} {Γ : Env} {s₀ : Seat} {v v₀ a w : Value}
  {d₀ d : Datum} {path : List PlaceStep} {step step' : PlaceStep} {e : Expr} {debug : Bool} {outer i j : Nat}
  {op : Instruction} {ops : List Value}

/-- A step of the machine fails on the way down. -/
def Fails (m₀ : Machine) (f : Frame) (rest : List Activation) (v : Value) (s₀ : Seat) (d₀ : Datum) (outer i : Nat)
    (e : Failure) : Prop :=
  ∃ now m pc ops v₀ path w d, Arrives outer (m₀.poised f rest i [v]) now ∧
    Run.step now = .error e (m.poised f rest pc ops) ∧ m₀.Underway m v s₀ v₀ d₀ path w d

/-- The code leads down the path, or fails on the way. -/
def Descends (m₀ : Machine) (f : Frame) (rest : List Activation) (v : Value) (s₀ : Seat) (d₀ : Datum)
    (path : List PlaceStep) (outer i j : Nat) : Except Failure Datum → Prop
  | .ok d => ∃ m v₀ w, Arrives outer (m₀.poised f rest i [v]) (m.poised f rest j [v, w]) ∧
      m₀.Underway m v s₀ v₀ d₀ path w d
  | .error e => m₀.Fails f rest v s₀ d₀ outer i e

theorem Underway.size (h : m₀.Underway m v s₀ v₀ d₀ path w d) : m.stack.size = m₀.stack.size := by
  rw [h.beside.stack]
  cases s₀ <;> simp [Machine.put]

theorem Underway.config (h : m₀.Underway m v s₀ v₀ d₀ path w d) : m.config = m₀.config := by
  rw [h.beside]
  cases s₀ <;> rfl

/-- The instruction of a step makes ready for a change what the step leads to, and pushes it. -/
theorem descends_onward (hstarts : m₀.Starts f rest v a s₀ d₀) (houter : outer ≤ rest.length)
    (h : m₀.Underway m v s₀ v₀ d₀ path w d) (harrives : Arrives outer (m₀.poised f rest i [v]) (m.poised f rest j ops))
    (has : f.routine.Has j op) (hop : Plain op)
    (hrun : Run.performPlain { f with ip := j } op (m.poised f rest j ops) =
      (Run.ownStep w step' >>= Run.push) (m.poised f rest j [v]))
    (halike : step.Alike m₀.heap m.heap step') (hknown : ∀ y ∈ step'.indices, m.heap.Knows (m.bearing v).roots y)
    (hstores : d.Stores m₀.heap step) (hroom : m₀.stack.size + 1 < m₀.config.stackLimit) :
    m₀.Descends f rest v s₀ d₀ (path ++ [step]) outer i (j + 1) (d.child m₀.heap step) := by
  have hstep := h.step hstarts.control halike hknown hstores j
  cases hchild : d.child m₀.heap step with
  | ok c =>
    rw [hchild] at hstep
    obtain ⟨m', own, hown, hunderway⟩ := hstep
    have hpush : Run.push own (m'.poised f rest j [v]) = .ok () (m'.poised f rest j [v, own]) := by
      refine push_poised own ?_
      rw [hunderway.size, hunderway.config]
      exact hroom
    exact ⟨m', v₀, own, harrives.trans (arrives_plain houter has hop (hrun.trans ((Run.bind_of_ok hown).trans hpush))),
      hunderway⟩
  | error e =>
    rw [hchild] at hstep
    exact ⟨_, m, j, [v], v₀, path, w, d, harrives, step_plain_fails has hop (hrun.trans (Run.bind_of_error hstep)), h⟩

theorem constant_text {n : Nat} {name : String} (htext : IsText f.routine n name) (pc : Nat) (m : Machine) :
    Run.constant { f with ip := pc } n m = .ok name m := by
  have hname : f.routine.strings[n]? = some name := htext
  rw [Run.constant, hname]
  rfl

/-- The code of a variable with a path leads down the path. -/
theorem Leads.descends (hleads : m₀.Leads f out Γ e s₀ path) (hstarts : m₀.Starts f rest v a s₀ d₀)
    (houter : outer ≤ rest.length) (hcode : Places anywhere debug f.routine out Γ .unique e i j)
    (hstores : d₀.StoresAlong m₀.heap path) (hroom : m₀.stack.size + 1 < m₀.config.stackLimit)
    (hwide : ∀ step ∈ path, m₀.stack.size + 2 + step.indices.length ≤ m₀.config.stackLimit) :
    m₀.Descends f rest v s₀ d₀ path outer i j (d₀.follow m₀.heap path) := by
  induction hleads generalizing j with
  | ident _ seat =>
    obtain ⟨⟨slot, has, hslot⟩, rfl⟩ := hcode
    obtain ⟨m, own, hrun, hunderway⟩ := hstarts.underway (seat slot hslot) i
    have hpush : Run.push own (m.poised f rest i [v]) = .ok () (m.poised f rest i [v, own]) := by
      refine push_poised own ?_
      rw [hunderway.size, hunderway.config]
      exact hroom
    exact ⟨m, own, own, arrives_plain houter has (fun _ => rfl) ((Run.bind_of_ok hrun).trans hpush), hunderway⟩
  | @element site e es s path xs _ values ih =>
    obtain ⟨k, l, hobject, hindices, has, rfl⟩ := hcode
    have hdown := ih hstarts hobject (fun before step d hbefore => hstores before step d
      (hbefore.trans (List.prefix_append ..))) fun step hstep => hwide step (List.mem_append_left _ hstep)
    rw [Datum.follow_append]
    cases hfollow : d₀.follow m₀.heap path with
    | error e =>
      rw [hfollow] at hdown
      exact hdown
    | ok d =>
      rw [hfollow] at hdown
      obtain ⟨m, v₀, w, harrives, hunderway⟩ := hdown
      obtain ⟨ys, hys, hselects, hknown⟩ := hunderway.reads_all hstarts values
      have hlength : es.length = ys.length := hys.length_eq
      rw [hlength] at has
      have hroom' : m.stack.size + [v, w].length + ys.length ≤ m.config.stackLimit := by
        have hlast := hwide _ (List.mem_append_right _ List.mem_cons_self)
        simp only [PlaceStep.indices, values.length_eq.symm] at hlast
        rw [hunderway.size, hunderway.config, ← hlength]
        exact hlast
      refine descends_onward hstarts houter hunderway (harrives.trans (reads_arrive hys hindices houter hroom')) has
        (fun _ => rfl) ?_ (.element hselects) hknown (hstores path _ d List.prefix_rfl hfollow) hroom
      exact (Run.bind_of_ok (popMany_poised [v, w] ys)).trans ((Run.bind_of_ok (pop_poised [v] w)).trans rfl)
  | @field site e s path _ name ih =>
    obtain ⟨k, n, hobject, has, htext, rfl⟩ := hcode
    have hdown := ih hstarts hobject (fun before step d hbefore => hstores before step d
      (hbefore.trans (List.prefix_append ..))) fun step hstep => hwide step (List.mem_append_left _ hstep)
    rw [Datum.follow_append]
    cases hfollow : d₀.follow m₀.heap path with
    | error e =>
      rw [hfollow] at hdown
      exact hdown
    | ok d =>
      rw [hfollow] at hdown
      obtain ⟨m, v₀, w, harrives, hunderway⟩ := hdown
      refine descends_onward hstarts houter hunderway harrives has (fun _ => rfl) ?_ (.field name) nofun
        (hstores path _ d List.prefix_rfl hfollow) hroom
      exact (Run.bind_of_ok (pop_poised [v] w)).trans ((Run.bind_of_ok (constant_text htext k _)).trans rfl)

end Expressions

-- ---------------------------------------------------------------------------
-- Assignments
-- ---------------------------------------------------------------------------

/-- The second machine is the first one with another tree in a variable. Whatever is reached without the variable is
the same, and so other places hold the trees that they held. -/
structure Becomes (m m' : Machine) (s : Seat) (d : Datum) : Prop where
  value : ∃ w, (m.put s w).Beside m' ∧ m'.held? s = some w ∧ m'.heap.Denotes w d
  classes : m'.heap.classes = m.heap.classes
  same {x : Value} : m.Without s x → s.holder? ≠ some x → Same m.heap m'.heap x
  other {t : Seat} {x : Value} {e : Datum} : t ≠ s →
    (∀ y, t.holder? = some y → m.Without s y ∧ s.holder? ≠ some y) → m.held? t = some x → m.heap.Denotes x e →
    m'.held? t = some x ∧ m'.heap.Denotes x e

/-- From the instruction at `i`, the machine comes to that at `j` with another tree in the variable; or a step fails, and
the variable holds the tree that it held. -/
def Assigns (m : Machine) (f : Frame) (rest : List Activation) (v : Value) (s : Seat) (d : Datum) (outer i j : Nat) :
    Except Failure Datum → Prop
  | .ok d' => ∃ m', Arrives outer (m.poised f rest i [v]) (m'.poised f rest j []) ∧ m.Becomes m' s d'
  | .error e => ∃ now m' pc ops, Arrives outer (m.poised f rest i [v]) now ∧
      Run.step now = .error e (m'.poised f rest pc ops) ∧ m.Becomes m' s d

section Assignments

variable {m₀ m : Machine} {f : Frame} {rest : List Activation} {out : Outer} {Γ : Env} {s₀ s : Seat} {v v₀ a w x : Value}
  {d₀ d d' new : Datum} {path : List PlaceStep} {last : PlaceStep} {target : Expr} {debug : Bool} {outer i j : Nat}

theorem Without.bearing (hx : m.Without s x) (ha : m.held? s = some a) (v : Value) : (m.bearing v).Without s x := by
  refine hx.trans (fun y hy => .start ?_) fun _ hu _ hw => .step hu hw
  cases s with
  | slot k =>
    obtain ⟨hk, -⟩ := Array.getElem?_eq_some_iff.mp ha
    have herase : (m.stack.toList ++ [v]).eraseIdx k = m.stack.toList.eraseIdx k ++ [v] :=
      List.eraseIdx_append_of_lt_length (by simpa using hk) _
    simp only [rootsBut, roots, Machine.bearing, Array.toList_eraseIdxIfInBounds, Array.toList_append, herase,
      List.mem_append] at hy ⊢
    tauto
  | _ =>
    simp only [rootsBut, roots, Machine.bearing, Array.toList_append, List.mem_append] at hy ⊢
    tauto

/-- The holder of the variable is a cell, so it is in no tree. -/
theorem Starts.apart (hstarts : m₀.Starts f rest v a s₀ d₀) {h : Heap} {d : Datum} {y : Value} (hd : h.Denotes x d)
    (hy : ReachedFrom h.parts [x] y) : s₀.holder? ≠ some y := by
  intro hseat
  obtain ⟨slot, hslot⟩ := hstarts.seat
  obtain ⟨c, -, rfl, -⟩ := seat?_holder hstarts.control hslot hseat
  have hplain := hd.below_isCell hy
  cases hplain

/-- A tree that is reached without the variable is the same afterwards. -/
theorem Starts.keeps {h : Heap} {e : Datum} (hstarts : m₀.Starts f rest v a s₀ d₀)
    (hsame : ∀ {y}, (m₀.bearing v).Without s₀ y → s₀.holder? ≠ some y → Same m₀.heap h y)
    (hx : (m₀.bearing v).Without s₀ x) (he : m₀.heap.Denotes x e) : h.Denotes x e :=
  he.transfer fun _ hy => hsame (hx.below hy fun _ hz => hstarts.apart he hz) (hstarts.apart he hy)

theorem Starts.bears (hstarts : m₀.Starts f rest v a s₀ d₀) (hv : m₀.heap.Denotes v new)
    (hopens : (m₀.bearing v).Opens (m.bearing v) s₀ v₀ d₀ path s w d) : (m.bearing v).Bears s v new := by
  intro h hsame
  refine hstarts.keeps (fun hy hne => hopens.keeps hsame hy hne) (held_without (t := .slot m₀.stack.size) ?_ ?_ nofun) hv
  · rintro rfl
    obtain ⟨hk, -⟩ := Array.getElem?_eq_some_iff.mp hstarts.held
    exact Nat.lt_irrefl _ hk
  · simp [held?, Machine.bearing]

/-- What a change at the end of a way down makes of the machine. -/
theorem Underway.becomes {h : Heap} (hstarts : m₀.Starts f rest v a s₀ d₀) (hbeside : (m₀.put s₀ v₀).Beside m)
    (hopens : (m₀.bearing v).Opens (m.bearing v) s₀ v₀ d₀ path s w d) (hclasses : h.classes = m.heap.classes)
    (hsame : ∀ y, (m.bearing v).Without s y → Same m.heap h y) (hd : h.Denotes w d') :
    m₀.Becomes { m with heap := h } s₀ (d₀.update m₀.heap path d') := by
  have hbeside' : (m₀.put s₀ v₀).Beside { m with heap := h } := hbeside.trans rfl
  have hclasses' : h.classes = m₀.heap.classes := hclasses.trans hopens.classes
  have hkeeps {y : Value} (hy : (m₀.bearing v).Without s₀ y) (hne : s₀.holder? ≠ some y) : Same m₀.heap h y :=
    hopens.keeps hsame hy hne
  refine ⟨⟨v₀, hbeside', ?_, hopens.whole hsame hd⟩, hclasses', fun hx => hkeeps (hx.bearing hstarts.held v),
    fun {t x e} hne hholder ht he => ?_⟩
  · have hheld := Underway.held ⟨hbeside, s, hopens⟩ hstarts
    cases s₀ with
    | inside holder k => exact (congrArg (·[k]?) (links_of_same (hsame _ (hopens.outside rfl)) hclasses)).trans hheld
    | _ => exact hheld
  · have hholder' (y : Value) (hy : t.holder? = some y) : (m₀.bearing v).Without s₀ y ∧ s₀.holder? ≠ some y :=
      ⟨(hholder y hy).1.bearing hstarts.held v, (hholder y hy).2⟩
    refine ⟨(held?_kept hbeside' hclasses' hne fun y hy => hkeeps (hholder' y hy).1 (hholder' y hy).2).trans ht, ?_⟩
    exact hstarts.keeps hkeeps (held_without hne (held?_bearing ht v) hholder') he

/-- Where a way down fails, the variable holds the tree that it held. -/
theorem Underway.unchanged (h : m₀.Underway m v s₀ v₀ d₀ path w d) (hstarts : m₀.Starts f rest v a s₀ d₀) :
    m₀.Becomes m s₀ d₀ := by
  obtain ⟨s, hopens⟩ := h.opens
  have hself := Underway.becomes (h := m.heap) hstarts h.beside hopens rfl (fun y _ => same_refl m.heap y) hopens.denotes
  rwa [show m₀.heap = (m₀.bearing v).heap from rfl, Datum.update_follow hopens.leads] at hself

/-- The instruction at the end of an assignment assigns in the variable's tree, or fails. -/
theorem Underway.ends {step' : PlaceStep} {op : Instruction} {ops : List Value} (hstarts : m₀.Starts f rest v a s₀ d₀)
    (houter : outer ≤ rest.length) (h : m₀.Underway m v s₀ v₀ d₀ path w d)
    (harrives : Arrives outer (m₀.poised f rest i [v]) (m.poised f rest j ops)) (has : f.routine.Has j op) (hop : Plain op)
    (hrun : Run.performPlain { f with ip := j } op (m.poised f rest j ops) =
      Run.setStep w step' v (m.poised f rest j []))
    (halike : last.Alike m₀.heap m.heap step') (hsettles : d.Settles m₀.heap last) (hv : m₀.heap.Denotes v new) :
    m₀.Assigns f rest v s₀ d₀ outer i (j + 1) ((d.put m₀.heap last new).map (d₀.update m₀.heap path)) := by
  obtain ⟨s, hopens⟩ := h.opens
  have hends : (m.bearing v).Ends (m.poised f rest j []) s w (d.put m₀.heap last new)
      (Run.setStep w step' v (m.poised f rest j [])) :=
    hopens.set_step rfl halike hsettles (hstarts.bears hv hopens)
  rw [← hrun] at hends
  generalize d.put m₀.heap last new = result at hends ⊢
  cases hplain : Run.performPlain { f with ip := j } op (m.poised f rest j ops) with
  | ok u after =>
    rw [hplain] at hends
    cases result with
    | ok d' =>
      obtain ⟨h', rfl, hclasses, hsame, hd'⟩ := hends
      exact ⟨{ m with heap := h' }, harrives.trans (arrives_plain houter has hop hplain),
        Underway.becomes hstarts h.beside hopens hclasses hsame hd'⟩
    | error e => exact hends.elim
  | error e' after =>
    rw [hplain] at hends
    cases result with
    | ok d' => exact hends.elim
    | error e =>
      obtain ⟨rfl, rfl⟩ := hends
      exact ⟨_, m, j, [], harrives, step_plain_fails has hop hplain, h.unchanged hstarts⟩

/-- An assignment fails on the way down, or comes to its last instruction. -/
theorem Descends.assigns {k : Nat} (hstarts : m₀.Starts f rest v a s₀ d₀)
    (hdown : m₀.Descends f rest v s₀ d₀ path outer i k (d₀.follow m₀.heap path))
    (hlast : ∀ m v₀ w d, d₀.follow m₀.heap path = .ok d →
      Arrives outer (m₀.poised f rest i [v]) (m.poised f rest k [v, w]) → m₀.Underway m v s₀ v₀ d₀ path w d →
      m₀.Assigns f rest v s₀ d₀ outer i j ((d.put m₀.heap last new).map (d₀.update m₀.heap path))) :
    m₀.Assigns f rest v s₀ d₀ outer i j (d₀.assign m₀.heap path last new) := by
  cases hfollow : d₀.follow m₀.heap path with
  | ok d =>
    rw [hfollow] at hdown
    obtain ⟨m, v₀, w, harrives, hunderway⟩ := hdown
    rw [Datum.assign_ok hfollow]
    exact hlast m v₀ w d hfollow harrives hunderway
  | error e =>
    rw [hfollow] at hdown
    obtain ⟨now, m, pc, ops, v₀, path, w, d, harrives, hstep, hunderway⟩ := hdown
    rw [Datum.assign_error hfollow]
    exact ⟨now, m, pc, ops, harrives, hstep, hunderway.unchanged hstarts⟩

/-- An assignment to what a path from a variable leads to gives the variable the tree that the assignment makes of its
tree, or fails as it does on the tree and leaves the variable its tree. Whatever is reached without the variable is the
same afterwards, so every other variable keeps its tree, even if it has shared a container with the first one. No step
of the path may lead into a module, or to a field that a class computes or has as a member. -/
theorem assignment_assigns (hstarts : m₀.Starts f rest v a s₀ d₀) (houter : outer ≤ rest.length)
    (hcode : PlacesStore anywhere debug f.routine out Γ target i j)
    (hleads : m₀.Leads f out Γ target s₀ (path ++ [last])) (hv : m₀.heap.Denotes v new)
    (hstores : d₀.StoresAlong m₀.heap path)
    (hsettles : ∀ e, d₀.follow m₀.heap path = .ok e → e.Settles m₀.heap last)
    (hroom : m₀.stack.size + 1 < m₀.config.stackLimit)
    (hwide : ∀ step ∈ path ++ [last], m₀.stack.size + 2 + step.indices.length ≤ m₀.config.stackLimit) :
    m₀.Assigns f rest v s₀ d₀ outer i j (d₀.assign m₀.heap path last new) := by
  have hbefore : ∀ step ∈ path, m₀.stack.size + 2 + step.indices.length ≤ m₀.config.stackLimit := fun step hstep =>
    hwide step (List.mem_append_left _ hstep)
  generalize hwhole : path ++ [last] = whole at hleads
  cases hleads with
  | ident => simp at hwhole
  | @element site e es s path' xs object values =>
    obtain ⟨rfl, hlast⟩ := List.append_inj' hwhole rfl
    cases hlast
    obtain ⟨k, l, hobject, hindices, has, rfl⟩ := hcode
    refine (object.descends hstarts houter hobject hstores hroom hbefore).assigns hstarts
      fun m v₀ w d hfollow harrives hunderway => ?_
    obtain ⟨ys, hys, hselects, -⟩ := hunderway.reads_all hstarts values
    have hlength : es.length = ys.length := hys.length_eq
    rw [hlength] at has
    have hroom' : m.stack.size + [v, w].length + ys.length ≤ m.config.stackLimit := by
      have hlast := hwide _ (List.mem_append_right _ List.mem_cons_self)
      simp only [PlaceStep.indices, values.length_eq.symm] at hlast
      rw [hunderway.size, hunderway.config, ← hlength]
      exact hlast
    refine Underway.ends hstarts houter hunderway (harrives.trans (reads_arrive hys hindices houter hroom')) has
      (fun _ => rfl) ?_ (.element hselects) (hsettles d hfollow) hv
    refine (Run.bind_of_ok (popMany_poised [v, w] ys)).trans ((Run.bind_of_ok (pop_poised [v] w)).trans ?_)
    exact (Run.bind_of_ok (pop_poised [] v)).trans rfl
  | @field site e s path' object name =>
    obtain ⟨rfl, hlast⟩ := List.append_inj' hwhole rfl
    cases hlast
    obtain ⟨k, n, hobject, has, htext, rfl⟩ := hcode
    refine (object.descends hstarts houter hobject hstores hroom hbefore).assigns hstarts
      fun m v₀ w d hfollow harrives hunderway => ?_
    refine Underway.ends hstarts houter hunderway harrives has (fun _ => rfl) ?_ (.field name) (hsettles d hfollow) hv
    refine (Run.bind_of_ok (pop_poised [v] w)).trans ((Run.bind_of_ok (pop_poised [] v)).trans ?_)
    exact (Run.bind_of_ok (constant_text htext k _)).trans rfl

end Assignments

section Witness

/-- A frame that is about to execute the code of `a[1][2] = v`, with variables `a` and `b`. -/
def nestedFrame : Frame where
  closure := { callable := .script default default, signature := [] }
  routine := { (default : Routine) with
    code := { ops := #[.read (.frame 0) .unique, .pushSmall 1, .element 1 .unique, .pushSmall 2, .setElement 1] } }
  key := default
  base := 0
  keepRef := false

/-- The list `b` is an item of the list `a`, too. -/
def nestedMachine : Machine where
  config := {}
  heap := { objects := #[some ⟨.list, .list #[.object ⟨1⟩, .int 3]⟩, some ⟨.list, .list #[.int 1, .int 2]⟩] }
  stack := #[.object ⟨0⟩, .object ⟨1⟩]
  control := [.script nestedFrame]

/-- The list `b` stays what it is. -/
theorem assignment_assigns_nested : ∃ m' : Machine,
    Arrives 0 (nestedMachine.poised nestedFrame [] 0 [.int 9]) (m'.poised nestedFrame [] 5 []) ∧
      (∃ w, m'.held? (.slot 0) = some w ∧
        m'.heap.Denotes w (.list .list #[.list .list #[.scalar (.int 1), .scalar (.int 9)], .scalar (.int 3)])) ∧
      m'.held? (.slot 1) = some (.object ⟨1⟩) ∧
      m'.heap.Denotes (.object ⟨1⟩) (.list .list #[.scalar (.int 1), .scalar (.int 2)]) := by
  let inner : Datum := .list .list #[.scalar (.int 1), .scalar (.int 2)]
  let Γ : Env := (({ depth := 1 } : Env).declare "a").declare "b"
  have hinner : nestedMachine.heap.Denotes (.object ⟨1⟩) inner :=
    Heap.denotes_list rfl (.cons (.scalar rfl) (.cons (.scalar rfl) .nil))
  have htree : nestedMachine.heap.Denotes (.object ⟨0⟩) (.list .list #[inner, .scalar (.int 3)]) :=
    Heap.denotes_list rfl (.cons hinner (.cons (.scalar rfl) .nil))
  have hroots : (nestedMachine.bearing (.int 9)).roots = [.object ⟨0⟩, .object ⟨1⟩, .int 9] := by
    simp [bearing, nestedMachine, nestedFrame, roots, OrderedMap.values, Activation.references]
  have hintact : nestedMachine.heap.Intact (nestedMachine.bearing (.int 9)).roots :=
    Heap.intact_of_closed [.object ⟨0⟩, .object ⟨1⟩, .int 1, .int 2, .int 3, .int 9] (by rw [hroots]; decide) (by decide)
  have hstarts : nestedMachine.Starts nestedFrame [] (.int 9) (.object ⟨0⟩) (.slot 0)
      (.list .list #[inner, .scalar (.int 3)]) := ⟨rfl, hintact, ⟨.frame 0, rfl⟩, rfl, htree⟩
  have hseat (slot : Slot) (hslot : Denotes nestedFrame.routine [] Γ "a" slot) :
      nestedMachine.seat? nestedFrame slot = some (.slot 0) := by
    cases slot with
    | frame i =>
      cases hslot
      rfl
    | captured k => cases hslot.1
    | global k => cases hslot.1
  have houter : nestedMachine.Leads nestedFrame [] Γ (.index default (.ident default "a") [.int default 1]) (.slot 0)
      ([] ++ [.element #[.int 1]]) := .element (.ident ⟨.frame 0, rfl⟩ hseat) (.cons (.int default 1) .nil)
  have hleads : nestedMachine.Leads nestedFrame [] Γ
      (.index default (.index default (.ident default "a") [.int default 1]) [.int default 2]) (.slot 0)
      ([.element #[.int 1]] ++ [.element #[.int 2]]) :=
    .element houter (.cons (.int default 2) .nil)
  have hcode : PlacesStore anywhere false nestedFrame.routine [] Γ
      (.index default (.index default (.ident default "a") [.int default 1]) [.int default 2]) 0 5 := by
    refine ⟨3, 4, ⟨1, 2, ⟨⟨.frame 0, rfl, rfl⟩, rfl⟩, ⟨2, ⟨?_, rfl⟩, rfl⟩, rfl, rfl⟩, ⟨4, ⟨?_, rfl⟩, rfl⟩, rfl, rfl⟩
    all_goals
      rw [PlacesInt, if_pos (by decide)]
      rfl
  have hstores : Datum.StoresAlong nestedMachine.heap (.list .list #[inner, .scalar (.int 3)]) [.element #[.int 1]] := by
    rintro before step e ⟨after, hpath⟩ hfollow
    cases before with
    | nil =>
      cases hfollow
      obtain rfl := (List.cons.inj hpath).1
      exact ⟨rfl, fun hfield => by cases hfield⟩
    | cons t before => simp at hpath
  have hsettles (e : Datum) (hfollow : Datum.follow nestedMachine.heap (.list .list #[inner, .scalar (.int 3)])
      [.element #[.int 1]] = .ok e) : e.Settles nestedMachine.heap (.element #[.int 2]) := by
    cases hfollow
    exact ⟨rfl, fun hfield _ => by cases hfield⟩
  obtain ⟨m', harrives, hbecomes⟩ := assignment_assigns hstarts (Nat.le_refl 0) hcode hleads
    (.scalar rfl) hstores hsettles (by decide) (by decide)
  obtain ⟨w, -, hheld, hdenotes⟩ := hbecomes.value
  have hother := hbecomes.other (t := .slot 1) (fun heq => by cases heq) (fun _ hy => by cases hy) rfl hinner
  exact ⟨m', harrives, ⟨w, hheld, hdenotes⟩, hother⟩

end Witness

end Machine

end Rill
