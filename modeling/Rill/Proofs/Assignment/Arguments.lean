-- SUMMARY: The code of an argument by value and the plain code of the same expression, run side by side.
import Rill.Proofs.Assignment.Targets
import Rill.Proofs.Ownership.Twins

/-!
# Arguments

Whether a callee takes an argument by reference is known only when it is called, so on the way to an argument every
container is made ready for a change, even if the callee takes the argument by value. Here that code is run beside the
plain code of the same expression. Both come to related values on machines alike, or fail alike.
-/

namespace Rill

open Compile (containerUse)
open Layout

namespace Machine

-- ---------------------------------------------------------------------------
-- Machines side by side
-- ---------------------------------------------------------------------------

/-- What the active calls refer to is what the frame and those below it refer to. -/
def Hosts (m : Machine) (f : Frame) (rest : List Activation) : Prop :=
  m.control.flatMap (·.references) = (Activation.script f :: rest).flatMap (·.references)

section Poised

variable {R : Value → Value → Prop} {m m' p q : Machine} {f : Frame} {rest : List Activation} {pc pc' k : Nat}
  {vs ws ops : List Value}

theorem poised_poised (m : Machine) (f : Frame) (rest : List Activation) (k pc : Nat) (vs ops : List Value) :
    (m.poised f rest k vs).poised f rest pc ops = m.poised f rest pc (vs ++ ops) := by
  simp [poised]

theorem Hosts.fixed_poised (h : m.Hosts f rest) : (m.poised f rest pc ops).fixed = m.fixed := by
  have hreferences : (m.poised f rest pc ops).control.flatMap (·.references) = m.control.flatMap (·.references) :=
    Eq.symm h
  unfold Machine.fixed
  rw [hreferences]
  rfl

theorem Hosts.captured (h : m.Hosts f rest) : ∀ c ∈ f.closure.captured, .cell c ∈ m.fixed := by
  intro c hc
  have hmem : .cell c ∈ (Activation.script f).references := List.mem_map_of_mem (Array.mem_toList_iff.mpr hc)
  have hreferences : .cell c ∈ m.control.flatMap (·.references) := by
    rw [h]
    exact List.mem_flatMap.mpr ⟨_, List.mem_cons_self, hmem⟩
  simp only [Machine.fixed, List.mem_append]
  tauto

theorem Gains.hosts (hp : m.Gains p) (h : m.Hosts f rest) : p.Hosts f rest := by
  unfold Hosts
  rw [hp.rest]
  exact h

theorem Gains.precall (hp : m.Gains p) : p.precall = m.precall := by
  rw [hp.rest]

theorem Gains.poised (hp : m.Gains p) (f : Frame) (rest : List Activation) (pc : Nat) (vs : List Value) :
    (m.poised f rest pc vs).Gains (p.poised f rest pc vs) :=
  ⟨by rw [hp.rest]; rfl, hp.classes, hp.cells, hp.object⟩

/-- What is gained with operands on the stack is gained without them. -/
theorem Gains.of_poised (hp : (m.poised f rest pc vs).Gains p) : ∃ p', m.Gains p' ∧ p = p'.poised f rest pc vs :=
  ⟨{ m with heap := p.heap, registrations := p.registrations }, ⟨rfl, hp.classes, hp.cells, hp.object⟩, hp.rest⟩

theorem Alike.poised (hm : m.Alike R m') (h : m.Hosts f rest) (hops : List.Forall₂ R vs ws) :
    (m.poised f rest pc vs).Alike R (m'.poised f rest pc' ws) where
  config := hm.config
  precall := hm.precall
  references := rfl
  held := hm.held
  stack := by
    simp only [Machine.poised, Array.toList_append]
    exact List.rel_append hm.stack hops
  globals := hm.globals
  simulates := hm.simulates
  classes := hm.classes
  fixed hx := hm.fixed (h.fixed_poised ▸ hx)

/-- Machines that are alike with operands on the stack are alike without them. -/
theorem Alike.of_poised (hm : (m.poised f rest pc vs).Alike R q) (h : m.Hosts f rest) :
    ∃ q' ws, m.Alike R q' ∧ List.Forall₂ R vs ws ∧ ∀ k ops, q.poised f rest k ops = q'.poised f rest k (ws ++ ops) := by
  have hstack : List.Forall₂ R (m.stack.toList ++ vs) q.stack.toList := by
    simpa only [Machine.poised, Array.toList_append] using hm.stack
  refine ⟨{ q with stack := (q.stack.toList.take m.stack.size).toArray }, q.stack.toList.drop m.stack.size,
    ⟨hm.config, hm.precall, hm.references.trans h.symm, hm.held, ?_, hm.globals, hm.simulates, hm.classes,
      fun hx => hm.fixed (h.fixed_poised.symm ▸ hx)⟩, ?_, fun k ops => ?_⟩
  · have htake := List.forall₂_take m.stack.size hstack
    rwa [List.take_left' (by simp)] at htake
  · have hdrop := List.forall₂_drop m.stack.size hstack
    rwa [List.drop_left' (by simp)] at hdrop
  · have hwhole : q.stack =
        (q.stack.toList.take m.stack.size).toArray ++ (q.stack.toList.drop m.stack.size).toArray := by
      rw [List.append_toArray, List.take_append_drop]
    simp only [Machine.poised]
    rw [← List.append_toArray, ← Array.append_assoc, ← hwhole]

theorem Alike.of_poised_nil (hm : (m.poised f rest pc []).Alike R q) (h : m.Hosts f rest)
    (hcontrol : q.control = (m'.poised f rest pc' []).control) : ∃ q', m.Alike R q' ∧ q = q'.poised f rest pc' [] := by
  obtain ⟨q', ws, halike, hws, hpoised⟩ := hm.of_poised h
  cases hws
  have hcontrol' : q.control = .script { f with ip := pc' } :: rest := hcontrol
  have hself : q.poised f rest pc' [] = q := by simp [Machine.poised, ← hcontrol']
  exact ⟨q', halike, hself.symm.trans (hpoised pc' [])⟩

end Poised

/-- Two runs, which begin on machines `now` and `now'`, come to the ends of their code with related operands more, or
fail alike. The first one leaves everything on the machine `m` as it is. -/
inductive Together (outer : Nat) (f : Frame) (rest : List Activation) (m now now' : Machine) (count j j' : Nat) : Prop
  | arrive {p q : Machine} {R : Value → Value → Prop} {vs ws : List Value}
      (left : Arrives outer now (p.poised f rest j vs)) (right : Arrives outer now' (q.poised f rest j' ws))
      (operands : vs.length = count) (gains : m.Gains p) (alike : p.Alike R q) (related : List.Forall₂ R vs ws)
  | fail {last last' p q : Machine} {R : Value → Value → Prop} {e : Failure} {pc pc' : Nat} {ops ops' : List Value}
      (left : Arrives outer now last) (leftFails : Run.step last = .error e (p.poised f rest pc ops))
      (right : Arrives outer now' last') (rightFails : Run.step last' = .error e (q.poised f rest pc' ops'))
      (gains : m.Gains p) (alike : p.Alike R q)

section Together

variable {R : Value → Value → Prop} {m m' p q now now' : Machine} {f : Frame} {rest : List Activation}
  {outer count n k k' j j' : Nat} {vs ws : List Value} {op op' : Instruction} {x y : Run Value}

/-- Where two runs come to, they go on. -/
theorem Together.bind (h : Together outer f rest m now now' n k k')
    (hnext : ∀ {p q R vs ws}, Arrives outer now (p.poised f rest k vs) → vs.length = n → m.Gains p → p.Alike R q →
      List.Forall₂ R vs ws → Together outer f rest m (p.poised f rest k vs) (q.poised f rest k' ws) count j j') :
    Together outer f rest m now now' count j j' := by
  cases h with
  | arrive left right operands gains alike related =>
    cases hnext left operands gains alike related with
    | arrive left' right' operands' gains' alike' related' =>
      exact .arrive (left.trans left') (right.trans right') operands' gains' alike' related'
    | fail left' leftFails right' rightFails gains' alike' =>
      exact .fail (left.trans left') leftFails (right.trans right') rightFails gains' alike'
  | fail left leftFails right rightFails gains alike => exact .fail left leftFails right rightFails gains alike

/-- The first run leaves what was there before. -/
theorem Together.mono (h : Together outer f rest p now now' count j j') (hp : m.Gains p) :
    Together outer f rest m now now' count j j' := by
  cases h with
  | arrive left right operands gains alike related => exact .arrive left right operands (hp.trans gains) alike related
  | fail left leftFails right rightFails gains alike =>
    exact .fail left leftFails right rightFails (hp.trans gains) alike

/-- Code that runs above operands. -/
theorem Together.above (h : Together outer f rest (p.poised f rest k vs) now now' n j j') (hp : m.Gains p)
    (hosts : m.Hosts f rest) : Together outer f rest m now now' (vs.length + n) j j' := by
  cases h with
  | arrive left right operands gains alike related =>
    obtain ⟨p', hp', rfl⟩ := gains.of_poised
    obtain ⟨q', ws, halike, hws, hq⟩ := alike.of_poised (hp'.hosts (hp.hosts hosts))
    rw [poised_poised] at left
    rw [hq] at right
    exact .arrive left right (by rw [List.length_append, operands]) (hp.trans hp') halike (List.rel_append hws related)
  | fail left leftFails right rightFails gains alike =>
    obtain ⟨p', hp', rfl⟩ := gains.of_poised
    obtain ⟨q', ws, halike, -, hq⟩ := alike.of_poised (hp'.hosts (hp.hosts hosts))
    rw [poised_poised] at leftFails
    rw [hq] at rightFails
    exact .fail left leftFails right rightFails (hp.trans hp') halike

/-- Code that runs above what both runs have come to. -/
theorem Together.onward (h : Together outer f rest (p.poised f rest k vs) ((p.poised f rest k vs).poised f rest k [])
      ((q.poised f rest k' ws).poised f rest k' []) count j j')
    (hp : m.Gains p) (hosts : m.Hosts f rest) (hn : vs.length = n) :
    Together outer f rest m (p.poised f rest k vs) (q.poised f rest k' ws) (count + n) j j' := by
  have habove := h.above hp hosts
  rwa [poised_poised, poised_poised, List.append_nil, List.append_nil, hn, Nat.add_comm] at habove

theorem push_full (v : Value) (h : ¬m.stack.size < m.config.stackLimit) :
    Run.push v m = .error Fault.stackOverflow.failure m := by
  rw [Run.push, Run.bind_get]
  simp only [if_pos (Nat.le_of_not_lt h)]
  rfl

/-- An instruction of each run pushes a value. -/
theorem Together.instruction (houter : outer ≤ rest.length) (hosts : m.Hosts f rest)
    (has : f.routine.Has k op) (hop : Plain op) (has' : f.routine.Has k' op') (hop' : Plain op')
    (hrun : Run.performPlain { f with ip := k } op (m.poised f rest k vs) = (x >>= Run.push) (m.poised f rest k []))
    (hrun' : Run.performPlain { f with ip := k' } op' (m'.poised f rest k' ws) =
      (y >>= Run.push) (m'.poised f rest k' []))
    (hconcurs : (m.poised f rest k []).Concurs (m'.poised f rest k' []) (x (m.poised f rest k []))
      (y (m'.poised f rest k' []))) :
    Together outer f rest m (m.poised f rest k vs) (m'.poised f rest k' ws) 1 (k + 1) (k' + 1) := by
  cases hx : x (m.poised f rest k []) with
  | ok v p =>
    cases hy : y (m'.poised f rest k' []) with
    | ok w q =>
      rw [hx, hy] at hconcurs
      obtain ⟨hgains, hcontrol, R, halike, hvw⟩ := hconcurs
      obtain ⟨p, hp, rfl⟩ := hgains.of_poised
      obtain ⟨q', hq, rfl⟩ := halike.of_poised_nil (hp.hosts hosts) hcontrol
      rw [Run.bind_of_ok hx] at hrun
      rw [Run.bind_of_ok hy] at hrun'
      by_cases hroom : p.stack.size < p.config.stackLimit
      · have hroom' : q'.stack.size < q'.config.stackLimit := by rwa [hq.size, hq.config]
        exact .arrive (arrives_plain houter has hop (hrun.trans (push_poised v hroom)))
          (arrives_plain houter has' hop' (hrun'.trans (push_poised w hroom'))) rfl hp hq (.cons hvw .nil)
      · have hfull : ¬(p.poised f rest k []).stack.size < (p.poised f rest k []).config.stackLimit := by
          simpa [poised] using hroom
        have hfull' : ¬(q'.poised f rest k' []).stack.size < (q'.poised f rest k' []).config.stackLimit := by
          simpa [poised, hq.size, hq.config] using hroom
        exact .fail (.refl _ _) (step_plain_fails has hop (hrun.trans (push_full v hfull))) (.refl _ _)
          (step_plain_fails has' hop' (hrun'.trans (push_full w hfull'))) hp hq
    | error e q =>
      rw [hx, hy] at hconcurs
      exact hconcurs.elim
  | error e p =>
    cases hy : y (m'.poised f rest k' []) with
    | ok w q =>
      rw [hx, hy] at hconcurs
      exact hconcurs.elim
    | error e' q =>
      rw [hx, hy] at hconcurs
      obtain ⟨rfl, hgains, hcontrol, R, halike⟩ := hconcurs
      obtain ⟨p, hp, rfl⟩ := hgains.of_poised
      obtain ⟨q', hq, rfl⟩ := halike.of_poised_nil (hp.hosts hosts) hcontrol
      rw [Run.bind_of_error hx] at hrun
      rw [Run.bind_of_error hy] at hrun'
      exact .fail (.refl _ _) (step_plain_fails has hop hrun) (.refl _ _) (step_plain_fails has' hop' hrun') hp hq

end Together

-- ---------------------------------------------------------------------------
-- Uses
-- ---------------------------------------------------------------------------

/-- The use of a place comes to its value, which may have been made ready for a change. -/
def ByValue (m : Machine) : Use → Prop
  | .value | .unique => True
  | .reference => False
  | .argument position => (m.precall.head?).any (·.isRef position) = false

section Uses

variable {R : Value → Value → Prop} {m m' : Machine} {f : Frame} {slot : Slot} {use : Use}

theorem ByValue.congr (huse : m.ByValue use) (h : m'.precall = m.precall) : m'.ByValue use := by
  cases use with
  | argument position =>
    unfold ByValue
    rw [h]
    exact huse
  | _ => exact huse

theorem ByValue.settle (huse : m.ByValue use) :
    use = .unique ∧ Run.settle use m = .ok .unique m ∨ use ≠ .unique ∧ Run.settle use m = .ok .value m := by
  cases use with
  | value => exact .inr ⟨Use.noConfusion, rfl⟩
  | unique => exact .inl ⟨rfl, rfl⟩
  | reference => exact huse.elim
  | argument position =>
    have hsettle : Run.settle (.argument position) m =
        .ok (if (m.precall.head?).any (·.isRef position) then .reference else .value) m := rfl
    refine .inr ⟨Use.noConfusion, ?_⟩
    rw [hsettle, if_neg (by rw [show _ = false from huse]; exact Bool.false_ne_true)]

end Uses

end Machine

-- ---------------------------------------------------------------------------
-- Expressions
-- ---------------------------------------------------------------------------

namespace Machine

section Slots

variable {f : Frame} {out : Outer} {Γ : Env} {name : String} {slot slot' : Slot} {m : Machine} {use : Use}
  {captures : Array Capture} {k k' : Nat}

end Slots

section Code

variable {R : Value → Value → Prop} {m m' : Machine} {f : Frame} {rest : List Activation} {out : Outer} {Γ : Env}
  {debug : Bool} {outer i j i' j' : Nat} {use : Use} {e : Expr} {es : List Expr} {v : Value}

end Code

section Witness

end Witness

end Machine

end Rill
