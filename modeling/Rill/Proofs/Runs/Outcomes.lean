-- SUMMARY: Computations in sequence, and what holds when a computation ends.
import Rill.Machine.Step

/-!
# Outcomes

A computation that is started in a machine has a result and leaves a machine, or fails and leaves one. What
holds then is found from the first part of the computation to the last.
-/

namespace Rill

-- ---------------------------------------------------------------------------
-- Sequences
-- ---------------------------------------------------------------------------

namespace Run

variable {x : Run α} {f : α → Run β} {m m' : Machine}

theorem bind_of_ok {a : α} (h : x m = .ok a m') : (x >>= f) m = f a m' := by
  change EStateM.bind x f m = _
  simp only [EStateM.bind, h]

theorem bind_of_error {e : Failure} (h : x m = .error e m') : (x >>= f) m = .error e m' := by
  change EStateM.bind x f m = _
  simp only [EStateM.bind, h]

theorem ok_of_bind {b : β} {m'' : Machine} (h : (x >>= f) m = .ok b m'') :
    ∃ a m', x m = .ok a m' ∧ f a m' = .ok b m'' := by
  cases hx : x m with
  | ok a m' => exact ⟨a, m', rfl, (bind_of_ok hx).symm.trans h⟩
  | error e m' => cases (bind_of_error hx).symm.trans h

theorem bind_congr {y : Run α} (h : x m = y m) : (x >>= f) m = (y >>= f) m := by
  change EStateM.bind x f m = EStateM.bind y f m
  simp only [EStateM.bind, h]

theorem get_run (m : Machine) : (get : Run Machine) m = .ok m m := rfl

theorem bind_get (f : Machine → Run α) (m : Machine) : (get >>= f) m = f m m := rfl

theorem bind_heap (f : Heap → Run α) (m : Machine) : (heap >>= f) m = f m.heap m := rfl

end Run

-- ---------------------------------------------------------------------------
-- Outcomes
-- ---------------------------------------------------------------------------

/-- Started in a machine, the computation ends where `Q` holds of its result, or fails where `E` holds. -/
def Ends (x : Run α) (m : Machine) (Q : α → Machine → Prop) (E : Machine → Prop) : Prop :=
  match x m with
  | .ok a m' => Q a m'
  | .error _ m' => E m'

namespace Ends

variable {m : Machine} {x : Run α} {Q Q' : α → Machine → Prop} {E : Machine → Prop}

theorem of_ok {a : α} {m' : Machine} (h : Ends x m Q E) (hx : x m = .ok a m') : Q a m' := by
  simpa [Ends, hx] using h

theorem of_error {e : Failure} {m' : Machine} (h : Ends x m Q E) (hx : x m = .error e m') : E m' := by
  simpa [Ends, hx] using h

theorem congr {y : Run α} (h : x m = y m) : Ends x m Q E = Ends y m Q E := by
  unfold Ends
  rw [h]

instance [∀ a m', Decidable (Q a m')] [∀ m', Decidable (E m')] : Decidable (Ends x m Q E) :=
  match h : x m with
  | .ok a m' => decidable_of_iff (Q a m') (by rw [Ends, h])
  | .error _ m' => decidable_of_iff (E m') (by rw [Ends, h])

/-- A computation that does not fail has a result. -/
theorem exists_ok (h : Ends x m Q fun _ => False) : ∃ a m', x m = .ok a m' ∧ Q a m' := by
  cases hx : x m with
  | ok a m' => exact ⟨a, m', rfl, h.of_ok hx⟩
  | error e m' => exact (h.of_error hx).elim

theorem of_outcome (hok : ∀ a m', x m = .ok a m' → Q a m') (herror : ∀ e m', x m = .error e m' → E m') :
    Ends x m Q E := by
  unfold Ends
  split
  · exact hok _ _ ‹_›
  · exact herror _ _ ‹_›

theorem after (h : Ends x m Q E) (hQ : ∀ a m', Q a m' → Q' a m') : Ends x m Q' E :=
  of_outcome (fun a m' hx => hQ a m' (h.of_ok hx)) fun _ _ hx => h.of_error hx

theorem bind {f : α → Run β} {R : β → Machine → Prop} (h : Ends x m (fun a m' => Ends (f a) m' R E) E) :
    Ends (x >>= f) m R E := by
  change match EStateM.bind x f m with
    | .ok b m' => R b m'
    | .error _ m' => E m'
  cases hx : x m with
  | ok a m' =>
    simp only [EStateM.bind, hx]
    exact h.of_ok hx
  | error e m' =>
    simp only [EStateM.bind, hx]
    exact h.of_error hx

theorem map {g : α → β} {R : β → Machine → Prop} (h : Ends x m (fun a m' => R (g a) m') E) :
    Ends (g <$> x) m R E := by
  change match EStateM.map g x m with
    | .ok b m' => R b m'
    | .error _ m' => E m'
  cases hx : x m with
  | ok a m' =>
    simp only [EStateM.map, hx]
    exact h.of_ok hx
  | error e m' =>
    simp only [EStateM.map, hx]
    exact h.of_error hx

theorem ite {c : Prop} [Decidable c] {y : Run α} (hx : c → Ends x m Q E) (hy : ¬c → Ends y m Q E) :
    Ends (if c then x else y) m Q E := by
  split
  · exact hx ‹_›
  · exact hy ‹_›

theorem pure {a : α} (h : Q a m) : Ends (Pure.pure a) m Q E := h

theorem fail {fault : Fault} (h : E m) : Ends (Run.fail fault : Run α) m Q E := h

theorem lift {y : Except Failure α} (hQ : ∀ a, y = .ok a → Q a m) (hE : E m) : Ends (monadLift y : Run α) m Q E := by
  cases y with
  | ok a => exact hQ a rfl
  | error e => exact hE

theorem heap {Q : Heap → Machine → Prop} (h : Q m.heap m) : Ends Run.heap m Q E := h

theorem get {Q : Machine → Machine → Prop} (h : Q m m) : Ends MonadState.get m Q E := h

theorem modify {f : Machine → Machine} {Q : PUnit → Machine → Prop} (h : Q ⟨⟩ (f m)) :
    Ends (modify f : Run PUnit) m Q E := h

theorem pop {Q : Value → Machine → Prop} (hE : E m)
    (hQ : ∀ v, m.stack.back? = some v → Q v { m with stack := m.stack.pop }) : Ends Run.pop m Q E := by
  refine .bind (.get ?_)
  split
  · next v hv => exact .bind (.modify (hQ v hv))
  · exact hE

theorem popMany {count : Nat} {Q : Array Value → Machine → Prop} (hE : E m)
    (hQ : ∀ vs, count ≤ m.stack.size → Q vs { m with stack := m.stack.shrink (m.stack.size - count) }) :
    Ends (Run.popMany count) m Q E := by
  refine .bind (.get ?_)
  dsimp only
  split
  · exact hE
  · next hsize => exact .bind (.modify (hQ _ (Nat.le_of_not_lt hsize)))

theorem push {v : Value} {Q : PUnit → Machine → Prop} (hE : E m) (hQ : Q ⟨⟩ { m with stack := m.stack.push v }) :
    Ends (Run.push v) m Q E := by
  refine .bind (.get ?_)
  split
  · exact hE
  · exact hQ

theorem peek {depth : Nat} {Q : Value → Machine → Prop} (hE : E m) (hQ : ∀ v, Q v m) : Ends (Run.peek depth) m Q E := by
  refine .bind (.get ?_)
  dsimp only
  split
  · exact hQ _
  · exact hE

theorem local? {f : Frame} {i : Nat} {Q : Value → Machine → Prop} (hE : E m)
    (hQ : ∀ v, m.stack[f.base + i]? = some v → Q v m) : Ends (Run.local? f i) m Q E := by
  refine .bind (.get ?_)
  split
  · next v hv => exact hQ v hv
  · exact hE

theorem capturedCell {f : Frame} {k : Nat} {Q : CellId → Machine → Prop} (hE : E m) (hQ : ∀ c, Q c m) :
    Ends (Run.capturedCell f k) m Q E := by
  unfold Run.capturedCell
  split
  · exact hQ _
  · exact hE

theorem constant {f : Frame} {k : Nat} {Q : String → Machine → Prop} (hE : E m) (hQ : ∀ s, Q s m) :
    Ends (Run.constant f k) m Q E := by
  unfold Run.constant
  split
  · exact hQ _
  · exact hE

end Ends

end Rill
