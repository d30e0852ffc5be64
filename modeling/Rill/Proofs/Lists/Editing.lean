-- SUMMARY: Edits and searches of lists mean the same positions.
import Mathlib.Order.Bounds.Basic
import Rill.Proofs.Lists.Variables
import Rill.Proofs.Texts.Boundaries
import Rill.Proofs.Texts.Functions

/-!
# Editing lists

An insertion counts its position in the list that it leaves, which has one place more; so the position means
the same place to an index and to a removal afterwards. Searches begin at the place that their position means
and answer the nearest position of an equal item. A failing edit leaves the items as they were, except that
of `sort`, which is not considered here.
-/

namespace Rill

namespace Library

-- ---------------------------------------------------------------------------
-- Items at offsets
-- ---------------------------------------------------------------------------

section Items

variable {items : Array Value} {p : Int64} {k : Nat} {v : Value}

theorem insertItem_of_offset (h : resolveIndex p (items.size + 1) = .ok k) :
    insertItem items p v = .ok (items.insertIdxIfInBounds k v) := by
  rw [insertItem, h]
  rfl

theorem map_insertIdxIfInBounds (f : Value → Value) (items : Array Value) (k : Nat) (v : Value) :
    (items.insertIdxIfInBounds k v).map f = (items.map f).insertIdxIfInBounds k (f v) := by
  obtain ⟨items⟩ := items
  simp [List.map_insertIdx]

theorem mem_insertIdxIfInBounds {w : Value} (hw : w ∈ (items.insertIdxIfInBounds k v).toList) :
    w = v ∨ w ∈ items.toList := by
  obtain ⟨items⟩ := items
  rw [List.insertIdxIfInBounds_toArray] at hw
  exact List.eq_or_mem_of_mem_insertIdx hw

theorem getElem?_insertIdxIfInBounds_self (hk : k ≤ items.size) : (items.insertIdxIfInBounds k v)[k]? = some v := by
  obtain ⟨items⟩ := items
  rw [List.insertIdxIfInBounds_toArray, List.getElem?_toArray, List.getElem?_insertIdx_self]
  exact if_pos hk

end Items

-- ---------------------------------------------------------------------------
-- Edits of variables
-- ---------------------------------------------------------------------------

/-- A replacement of the items as an edit. -/
def replacing (f : Array Value → Except Failure (Array Value)) (items : Array Value) :
    Array Value × Except Failure Value :=
  match f items with
  | .ok changed => (changed, .ok .null)
  | .error e => (items, .error e)

theorem replacing_ok {f : Array Value → Except Failure (Array Value)} {raw changed : Array Value}
    (h : f raw = .ok changed) : replacing f raw = (changed, .ok .null) := by
  rw [replacing, h]

theorem replacing_error {f : Array Value → Except Failure (Array Value)} {raw : Array Value} {e : Failure}
    (h : f raw = .error e) : replacing f raw = (raw, .error e) := by
  rw [replacing, h]

theorem size_of_map_resolve {h : Heap} {raw items : Array Value} (hraw : raw.map h.resolve = items) :
    raw.size = items.size := by
  rw [← hraw, Array.size_map]

theorem insertion_run (m : Machine) (c : CellId) (p : Int64) (v : Value) : list .insert #[.cell c, .int p, v] m =
    replaceItems (.cell c) (fun items => insertItem items p (m.heap.resolve v)) m :=
  (Run.bind_heap _ m).trans (Run.bind_of_ok (Arguments.integer_run rfl))

end Library

namespace Machine.HoldsList

open Library

variable {m : Machine} {c : CellId} {items : Array Value} (hm : m.HoldsList c items) {p : Int64} {k : Nat} {v : Value}

include hm

/-- A variable gets other items for those it has. -/
theorem replaceItems_run {f : Array Value → Except Failure (Array Value)} {g : Array Value → Array Value}
    (hf : ∀ raw : Array Value, raw.size = items.size → f raw = .ok (g raw))
    (hg : ∀ raw, ∀ w ∈ (g raw).toList,
      w ∈ raw.toList ∨ w.isCell = false ∧ m.heap.Knows (m.roots ++ [.cell c]) w) :
    ∃ raw m', replaceItems (.cell c) f m = .ok .null m' ∧ raw.map m.heap.resolve = items ∧
      m.Edits c ((g raw).map m.heap.resolve) m' ∧ m'.heap.contentOf (.cell c) = some (.list (g raw)) := by
  have hedit {raw : Array Value} (hraw : raw.map m.heap.resolve = items) : replacing f raw = (g raw, .ok .null) :=
    replacing_ok (hf raw (size_of_map_resolve hraw))
  obtain ⟨raw, m', hitems, -, hedits, hcontent, hrun⟩ := editList_run hm (replacing f) fun raw hraw w hw => by
    rw [hedit hraw] at hw
    exact hg raw w hw
  rw [hedit hitems] at hedits hcontent hrun
  exact ⟨raw, m', hrun, hitems, hedits, hcontent⟩

/-- An insertion puts the value in the place that its position means in the longer list. -/
theorem insert_run (hv : m.heap.Knows (m.roots ++ [.cell c]) v) (hk : resolveIndex p (items.size + 1) = .ok k) :
    ∃ raw m', list .insert #[.cell c, .int p, v] m = .ok .null m' ∧
      m.Edits c (items.insertIdxIfInBounds k (m.heap.resolve v)) m' ∧
      m'.heap.contentOf (.cell c) = some (.list raw) ∧ raw[k]? = some (m.heap.resolve v) := by
  obtain ⟨hknown, hplain⟩ := hm.intact.knows_resolve hv
  obtain ⟨raw, m', hreplace, hitems, hedits, hcontent⟩ :=
    replaceItems_run hm (g := fun raw => raw.insertIdxIfInBounds k (m.heap.resolve v))
      (fun raw hsize => insertItem_of_offset (hsize ▸ hk)) fun raw w hw => by
        rcases mem_insertIdxIfInBounds hw with rfl | hw
        · exact .inr ⟨hplain, hknown⟩
        · exact .inl hw
  rw [map_insertIdxIfInBounds, hitems, Heap.resolve_of_isCell hplain] at hedits
  have hle : k ≤ raw.size := by
    have hlt := (resolveIndex_eq_ok_iff.mp hk).1
    have := size_of_map_resolve hitems
    omega
  exact ⟨_, m', (insertion_run ..).trans hreplace, hedits, hcontent, getElem?_insertIdxIfInBounds_self hle⟩

end Machine.HoldsList

-- ---------------------------------------------------------------------------
-- All edits
-- ---------------------------------------------------------------------------

namespace Library

/-- What an edit leaves is from the list or one of the given values, and a failing edit leaves the list. -/
structure TidyEdit (f : Array Value → Array Value × Except Failure Value) (given : Value → Prop) : Prop where
  mem (raw : Array Value) : ∀ w ∈ (f raw).1.toList, w ∈ raw.toList ∨ given w
  failed {raw : Array Value} {e : Failure} : (f raw).2 = .error e → (f raw).1 = raw

section Tidy

variable {given : Value → Prop} {k : Nat}

theorem TidyEdit.replacing {f : Array Value → Except Failure (Array Value)}
    (hf : ∀ raw changed, f raw = .ok changed → ∀ w ∈ changed.toList, w ∈ raw.toList ∨ given w) :
    TidyEdit (replacing f) given where
  mem raw w hw := by
    cases hraw : f raw with
    | ok changed =>
      rw [replacing_ok hraw] at hw
      exact hf raw changed hraw w hw
    | error e =>
      rw [replacing_error hraw] at hw
      exact .inl hw
  failed {raw e} he := by
    cases hraw : f raw with
    | ok changed =>
      rw [replacing_ok hraw] at he
      cases he
    | error e' => rw [replacing_error hraw]

end Tidy

end Library

section Edits

open Library

variable {m : Machine} {c : CellId} {items : Array Value}

theorem Machine.Edits.refl (hm : m.HoldsList c items) : m.Edits c items m :=
  ⟨hm, rfl, rfl, fun _ _ => rfl, fun _ => .inl rfl⟩

end Edits

-- ---------------------------------------------------------------------------
-- Searches
-- ---------------------------------------------------------------------------

/-- The positions of the items that equal a value. -/
def Heap.positions (h : Heap) (items : Array Value) (v : Value) : Set Nat :=
  {q | ∃ k w, q = k + 1 ∧ items[k]? = some w ∧ h.equals w v = .ok true}

namespace Library

section Searches

variable {test : Value → Except Failure Bool} {xs : List Value} {k : Nat}

end Searches

section Finding

variable {h : Heap} {items : Array Value} {v : Value} {p : Int64} {k q : Nat}

variable (hends : ∀ w ∈ items.toList, ∃ r, h.equals w v = .ok r)
include hends

end Finding

end Library

-- ---------------------------------------------------------------------------
-- Positions
-- ---------------------------------------------------------------------------

section Positions

open Library

variable {m : Machine} {c : CellId} {items : Array Value} {v : Value} {p : Int64}

section Answers

variable {x : Value} (hx : m.heap.listOf x = .ok items)
include hx

theorem findBackFrom_run : list .findBackFrom #[x, v, .int p] m =
    (liftM ((findItemBack m.heap items.toList v p).map .ofNat) : Run Value) m := by
  have hread : Arguments.list #[x, v, .int p] 0 m = .ok items m := (Run.bind_heap _ m).trans (Run.lift_of_ok hx)
  refine (Run.bind_heap _ m).trans ?_
  refine (Run.bind_of_ok hread).trans ?_
  refine (Run.bind_of_ok (Arguments.integer_run rfl)).trans ?_
  cases hfound : findItemBack m.heap items.toList v p with
  | ok q => exact Run.bind_of_ok (Run.lift_of_ok hfound)
  | error e => exact Run.bind_of_error (Run.lift_of_error hfound)

end Answers

end Positions

end Rill
