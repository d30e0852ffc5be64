-- SUMMARY: Machines that follow a course: rules for sequences, choices and loops.
import Rill.Proofs.Evaluation.Instructions

/-!
# Following a course

A machine *follows* a course to an instruction if its steps lead where the course ends: to that
instruction, out of the loop or on with it, to a return, or to a failure. If the course gives no answer
with some fuel, the machine makes at least so many steps. There is one rule for each way in which courses
are put together, and none of them looks at code outside of its own instructions.
-/

namespace Rill.Evaluation.Stage

variable {S : Stage} {fuel count i j k : Nat} {loop : Layout.Loop} {σ : Store} {m m' : Machine}

/-- The frame is about to return a value. -/
def Returns (S : Stage) (v : Value) (σ : Store) (m : Machine) : Prop :=
  ∃ k, S.routine.Has k .result ∧ m = S.state k σ [v]

/-- The steps lead to where a course ends: to an instruction after at least `count` steps if it ends
normally, and to a target of the loop if it leaves it or goes on with it. -/
def Follows (S : Stage) (fuel : Nat) (loop : Layout.Loop) (count j : Nat) (m : Machine) :
    Option (Outcome × Store) → Prop
  | none => S.Leads S.Active fuel m
  | some (.normal, σ) => S.Leads (· = S.state j σ []) count m
  | some (.leave, σ) => ∃ targets, loop = some targets ∧ S.Leads (· = S.state targets.1 σ []) 0 m
  | some (.next, σ) => ∃ targets, loop = some targets ∧ S.Leads (· = S.state targets.2 σ []) 1 m
  | some (.result v, σ) => S.Leads (S.Returns v σ) 0 m
  | some (.failure e, σ) => S.Leads (S.Fails e σ) 0 m

namespace Follows

variable {ended : Option (Outcome × Store)}

-- ---------------------------------------------------------------------------
-- Steps before and after
-- ---------------------------------------------------------------------------

/-- Steps before a course. -/
theorem before {steps : Nat} (h : S.Leads (· = m') steps m) (h' : S.Follows fuel loop count j m' ended) :
    S.Follows (steps + fuel) loop (steps + count) j m ended := by
  match ended, h' with
  | none, h' => exact h.onward h'
  | some (.normal, σ), h' => exact h.onward h'
  | some (.leave, σ), ⟨targets, hloop, h'⟩ => exact ⟨targets, hloop, (h.onward h').fewer (by omega)⟩
  | some (.next, σ), ⟨targets, hloop, h'⟩ => exact ⟨targets, hloop, (h.onward h').fewer (by omega)⟩
  | some (.result v, σ), h' => exact (h.onward h').fewer (by omega)
  | some (.failure e, σ), h' => exact (h.onward h').fewer (by omega)

theorem fewer {fuel' count' : Nat} (h : S.Follows fuel loop count j m ended) (hfuel : fuel' ≤ fuel)
    (hcount : count' ≤ count) : S.Follows fuel' loop count' j m ended := by
  match ended, h with
  | none, h => exact Leads.fewer h hfuel
  | some (.normal, σ), h => exact Leads.fewer h hcount
  | some (.leave, σ), h | some (.next, σ), h | some (.result v, σ), h | some (.failure e, σ), h => exact h

/-- A step before a course, which then takes at least one. -/
theorem from_step {steps : Nat} (h : S.Leads (· = m') (steps + 1) m)
    (h' : S.Follows fuel loop count j m' ended) : S.Follows fuel loop 1 j m ended :=
  (before h h').fewer (by omega) (by omega)

/-- Steps after a course that ends normally. -/
theorem on {steps : Nat} (h : S.Follows fuel loop count k m ended)
    (h' : ∀ σ, S.Leads (· = S.state j σ []) steps (S.state k σ [])) :
    S.Follows fuel loop count j m ended := by
  match ended, h with
  | none, h => exact h
  | some (.normal, σ), h => exact (Leads.onward h (h' σ)).fewer (Nat.le_add_right _ _)
  | some (.leave, σ), h | some (.next, σ), h | some (.result v, σ), h | some (.failure e, σ), h => exact h

-- ---------------------------------------------------------------------------
-- Sequences
-- ---------------------------------------------------------------------------

/-- Nothing is done. -/
theorem nothing : S.Follows fuel loop 0 j (S.state j σ []) (stop .normal σ) := Leads.here rfl

/-- A course that ends normally and changes the store. -/
theorem change {f : Store → Store} (h : S.Leads (· = S.state j (f σ) []) count m) :
    S.Follows fuel loop count j m (Evaluation.change f σ) := h

theorem withValue {x : Store → Except Failure α} {go : α → Course} {after : α → Machine}
    (h : S.Delivers after σ (x σ) m)
    (h' : ∀ a, x σ = .ok a → S.Follows fuel loop count j (after a) (go a σ)) :
    S.Follows fuel loop count j m (Evaluation.withValue x go σ) := by
  unfold Evaluation.withValue
  unfold Delivers at h
  cases hx : x σ with
  | error e =>
    rw [hx] at h
    exact h
  | ok a =>
    rw [hx] at h
    exact (before h (h' a hx)).fewer (by omega) (by omega)

theorem andThen {first second : Course} (h : S.Follows fuel loop 0 k m (first σ))
    (h' : ∀ σ, S.Follows fuel loop count j (S.state k σ []) (second σ)) :
    S.Follows fuel loop count j m (Evaluation.andThen first second σ) := by
  unfold Evaluation.andThen
  match first σ, h with
  | none, h => exact h
  | some (.normal, σ), h => exact (before h (h' σ)).fewer (by omega) (by omega)
  | some (.leave, σ), h | some (.next, σ), h | some (.result v, σ), h | some (.failure e, σ), h => exact h

/-- A slot is bound to what a computation gives. -/
theorem define {slot : Nat} {x : Store → Except Failure Value}
    (h : S.Delivers (fun v => S.state k σ [v]) σ (x σ) m) (has : S.routine.Has k (.define slot))
    (hslot : slot < S.routine.frameSize) :
    S.Follows fuel loop 0 (k + 1) m (Evaluation.define slot x σ) :=
  withValue h fun _ _ => change ((Stage.define has hslot).fewer (Nat.zero_le 1))

-- ---------------------------------------------------------------------------
-- Choices
-- ---------------------------------------------------------------------------

section Choices

variable {test : JumpTest} {jumpIf : Bool} {target : Nat} {x : Store → Except Failure Value}
  {yes no : Course}

/-- A choice by a jump that takes its condition. -/
theorem choose (h : S.Delivers (fun v => S.state k σ [v]) σ (x σ) m)
    (has : S.routine.Has k (.jump test target))
    (htest : Run.performJump test target = Run.jumpTaking target jumpIf)
    (hyes : S.Follows fuel loop 0 j (S.state (if jumpIf then target else k + 1) σ []) (yes σ))
    (hno : S.Follows fuel loop 0 j (S.state (if jumpIf then k + 1 else target) σ []) (no σ)) :
    S.Follows fuel loop 1 j m (Evaluation.choose x yes no σ) := by
  refine withValue h fun v _ => ?_
  have hjump : S.Leads (· = S.state (if σ.heap.truth v = jumpIf then target else k + 1) σ []) 1
      (S.state k σ [v]) :=
    Stage.jumpTaking has htest
  cases htruth : σ.heap.truth v <;> cases jumpIf <;> rw [htruth] at hjump
  · exact from_step hjump hno
  · exact from_step hjump hno
  · exact from_step hjump hyes
  · exact from_step hjump hyes

end Choices

-- ---------------------------------------------------------------------------
-- Loops
-- ---------------------------------------------------------------------------

/-- The body of a loop whose next round starts where the body ends normally. -/
theorem again {body : Course} {exit elsewhere : Nat}
    (h : S.Follows fuel (some (exit, j)) 0 j m (body σ)) :
    S.Follows fuel (some (exit, elsewhere)) 0 j m (Evaluation.again body σ) := by
  unfold Evaluation.again
  match body σ, h with
  | none, h => exact h
  | some (.normal, σ), h => exact h
  | some (.leave, σ), ⟨_, rfl, h⟩ => exact ⟨_, rfl, h⟩
  | some (.next, σ), ⟨_, rfl, h⟩ => exact h.fewer (Nat.zero_le 1)
  | some (.result v, σ), h => exact h
  | some (.failure e, σ), h => exact h

/-- A loop whose rounds take at least one step each. -/
theorem rounds {round : Course} {limit : Nat}
    (h : ∀ σ, S.Follows limit (some (j, i)) 1 i (S.state i σ []) (round σ)) (hfuel : fuel ≤ limit) :
    S.Follows fuel loop 0 j (S.state i σ []) (Evaluation.rounds round fuel σ) := by
  induction fuel generalizing σ with
  | zero => exact .here (S.state_active ..)
  | succ fuel ih =>
    have ih (σ : Store) := ih (σ := σ) (by omega)
    have hround := h σ
    rw [Evaluation.rounds]
    dsimp only
    cases hr : round σ with
    | none =>
      rw [hr] at hround
      exact Leads.fewer hround hfuel
    | some ended =>
      obtain ⟨outcome, σ'⟩ := ended
      rw [hr] at hround
      cases outcome with
      | normal => exact (before hround (ih σ')).fewer (by omega) (by omega)
      | next =>
        obtain ⟨_, hloop, hround⟩ := hround
        cases hloop
        exact (before hround (ih σ')).fewer (by omega) (by omega)
      | leave =>
        obtain ⟨_, hloop, hround⟩ := hround
        cases hloop
        exact hround
      | result v => exact hround
      | failure e => exact hround

end Follows

end Rill.Evaluation.Stage
