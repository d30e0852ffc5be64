-- SUMMARY: Reclamation removes what nothing refers to and keeps what the roots reach.
import Mathlib.Data.List.Forall2
import Rill.Proofs.Collection.References

/-!
# Reclamation

Reclaiming takes away objects and cells without references, until there are none. Everything else on the
machine stays. What can be reached from the roots is always referred to, so it stays too.
-/

namespace Rill

-- ---------------------------------------------------------------------------
-- Entries of a heap
-- ---------------------------------------------------------------------------

namespace Heap

theorem mem_zipIdx_iff {α : Type} {xs : Array (Option α)} {a : α} {k : Nat} :
    (some a, k) ∈ xs.toList.zipIdx ↔ xs[k]?.join = some a := by
  rw [List.mk_mem_zipIdx_iff_getElem?, Array.getElem?_toList, Option.join_eq_some_iff]

end Heap

-- ---------------------------------------------------------------------------
-- References
-- ---------------------------------------------------------------------------

/-- Something refers to a value: a root, an object or a cell. -/
inductive Machine.Refers (m : Machine) : Value → Prop
  | root {v : Value} (mem : v ∈ m.roots) : Refers m v
  | object {id : ObjectId} {o : Object} {v : Value} (alive : m.heap.object? id = some o)
      (mem : v ∈ m.heap.children o.content) : Refers m v
  | cell {id : CellId} {v : Value} (alive : m.heap.cell? id = some v) : Refers m v

namespace Machine

/-- All references, and some more values, as a list. -/
def allReferences (m : Machine) (extra : List Value) : List Value :=
  m.roots ++ extra ++ m.heap.objects.toList.flatMap (fun o => o.elim [] fun o => m.heap.children o.content) ++
    m.heap.cells.toList.flatMap (·.toList)

theorem tally_eq (m : Machine) (extra : List Value) :
    m.tally extra = m.heap.tallyOf (m.allReferences extra) := by
  rw [tally, Heap.tallyOf, allReferences]
  simp only [List.foldl_append, List.foldl_flatMap, ← Array.foldl_toList]
  congr 2
  funext t o
  cases o <;> rfl

theorem mem_allReferences {m : Machine} {v : Value} : v ∈ m.allReferences [] ↔ m.Refers v := by
  simp only [allReferences, List.append_nil, List.mem_append, List.mem_flatMap]
  constructor
  · rintro ((h | ⟨o, ho, hv⟩) | ⟨w, hw, hv⟩)
    · exact .root h
    · cases o with
      | none => simp at hv
      | some o =>
        obtain ⟨k, hk⟩ := List.mem_iff_getElem?.mp ho
        rw [Array.getElem?_toList] at hk
        have halive : m.heap.object? ⟨k⟩ = some o := Option.join_eq_some_iff.mpr hk
        exact .object halive hv
    · obtain rfl : w = some v := by simpa using hv
      obtain ⟨k, hk⟩ := List.mem_iff_getElem?.mp hw
      rw [Array.getElem?_toList] at hk
      have halive : m.heap.cell? ⟨k⟩ = some v := Option.join_eq_some_iff.mpr hk
      exact .cell halive
  · intro h
    cases h with
    | root h => exact .inl (.inl h)
    | @object id o _ alive mem =>
      simp only [Heap.object?, Option.join_eq_some_iff] at alive
      exact .inl (.inr ⟨some o, Array.mem_toList_iff.mpr (Array.mem_of_getElem? alive), mem⟩)
    | @cell id _ alive =>
      simp only [Heap.cell?, Option.join_eq_some_iff] at alive
      exact .inr ⟨some v, Array.mem_toList_iff.mpr (Array.mem_of_getElem? alive), by simp⟩

-- ---------------------------------------------------------------------------
-- One round
-- ---------------------------------------------------------------------------

/-- A machine with some objects and cells taken away, and maybe with other files. -/
structure Shrinks (m m' : Machine) : Prop where
  rest : m' = { m with
    heap := { m.heap with objects := m'.heap.objects, cells := m'.heap.cells }, files := m'.files }
  objects : List.Forall₂ (fun a b => b = a ∨ b = none) m.heap.objects.toList m'.heap.objects.toList
  cells : List.Forall₂ (fun a b => b = a ∨ b = none) m.heap.cells.toList m'.heap.cells.toList

theorem Shrinks.refl (m : Machine) : m.Shrinks m where
  rest := rfl
  objects := List.forall₂_same.mpr fun _ _ => .inl rfl
  cells := List.forall₂_same.mpr fun _ _ => .inl rfl

theorem forall₂_trans {α : Type} {xs ys zs : List (Option α)}
    (h : List.Forall₂ (fun a b => b = a ∨ b = none) xs ys)
    (h' : List.Forall₂ (fun a b => b = a ∨ b = none) ys zs) :
    List.Forall₂ (fun a b => b = a ∨ b = none) xs zs := by
  induction h generalizing zs with
  | nil => exact h'
  | cons hab _ ih =>
    cases h' with
    | cons hbc hrest =>
      refine .cons ?_ (ih hrest)
      rcases hbc with rfl | rfl
      · exact hab
      · exact .inr rfl

theorem Shrinks.trans {m₁ m₂ m₃ : Machine} (h : m₁.Shrinks m₂) (h' : m₂.Shrinks m₃) : m₁.Shrinks m₃ where
  rest := by
    rw [h'.rest, h.rest]
  objects := forall₂_trans h.objects h'.objects
  cells := forall₂_trans h.cells h'.cells

theorem forall₂_getElem? {α : Type} {xs ys : List (Option α)}
    (h : List.Forall₂ (fun a b => b = a ∨ b = none) xs ys) (k : Nat) :
    ys[k]?.join = xs[k]?.join ∨ ys[k]?.join = none := by
  induction h generalizing k with
  | nil => exact .inl rfl
  | cons hab _ ih =>
    cases k with
    | zero => simpa using hab
    | succ k => simpa using ih k

theorem Shrinks.object? {m m' : Machine} (h : m.Shrinks m') (id : ObjectId) :
    m'.heap.object? id = m.heap.object? id ∨ m'.heap.object? id = none := by
  have := forall₂_getElem? h.objects id.index
  rwa [Array.getElem?_toList, Array.getElem?_toList] at this

theorem Shrinks.cell? {m m' : Machine} (h : m.Shrinks m') (id : CellId) :
    m'.heap.cell? id = m.heap.cell? id ∨ m'.heap.cell? id = none := by
  have := forall₂_getElem? h.cells id.index
  rwa [Array.getElem?_toList, Array.getElem?_toList] at this

theorem Shrinks.roots {m m' : Machine} (h : m.Shrinks m') : m'.roots = m.roots := by
  rw [h.rest]
  rfl

theorem Shrinks.children {m m' : Machine} (h : m.Shrinks m') (c : Content) :
    m'.heap.children c = m.heap.children c := by
  rw [h.rest]
  cases c <;> rfl

/-- Reclaiming takes away what has no references. -/
theorem reclaimOnce_shrinks (m : Machine) (extra : List Value) : m.Shrinks (m.reclaimOnce extra) := by
  have hmap {α : Type} (xs : Array (Option α)) (dead : Nat → Prop) [DecidablePred dead] :
      List.Forall₂ (fun a b => b = a ∨ b = none) xs.toList
        (xs.mapIdx fun k o => if dead k then none else o).toList := by
    rw [List.forall₂_iff_get]
    refine ⟨by simp, fun k h₁ h₂ => ?_⟩
    simp only [List.get_eq_getElem, Array.getElem_toList, Array.getElem_mapIdx]
    split
    · exact .inr rfl
    · exact .inl rfl
  refine ⟨rfl, ?_, ?_⟩
  · simpa [reclaimOnce] using hmap m.heap.objects fun k => (m.tally extra).objects.getD k 0 = 0
  · simpa [reclaimOnce] using hmap m.heap.cells fun k => (m.tally extra).cells.getD k 0 = 0

variable {extra : List Value}

theorem tally_objects {m : Machine} {k : Nat} (hk : k < m.heap.objects.size) :
    (m.tally extra).objects.getD k 0 = (m.allReferences extra).count (.object ⟨k⟩) := by
  rw [tally_eq, Heap.tallyOf_objects hk]

theorem tally_cells {m : Machine} {k : Nat} (hk : k < m.heap.cells.size) :
    (m.tally extra).cells.getD k 0 = (m.allReferences extra).count (.cell ⟨k⟩) := by
  rw [tally_eq, Heap.tallyOf_cells hk]

/-- A round leaves an object that something refers to. -/
theorem object?_reclaimOnce {m : Machine} {id : ObjectId} :
    (m.reclaimOnce extra).heap.object? id
      = if (m.allReferences extra).count (.object id) = 0 then none else m.heap.object? id := by
  obtain ⟨k⟩ := id
  by_cases hk : k < m.heap.objects.size
  · have hcount : (m.tally extra).objects.getD k 0 = _ := tally_objects hk
    by_cases hzero : (m.allReferences extra).count (.object ⟨k⟩) = 0
    · rw [hzero] at hcount
      simp only [Heap.object?, reclaimOnce, Array.getElem?_mapIdx, hcount, hzero, decide_true, if_true]
      cases m.heap.objects[k]? <;> rfl
    · have hpos : (m.tally extra).objects.getD k 0 ≠ 0 := by rwa [hcount]
      simp only [Heap.object?, reclaimOnce, Array.getElem?_mapIdx, hpos, hzero, decide_false, if_false,
        Bool.false_eq_true, Option.map_id']
  · have hnone : m.heap.objects[k]? = none := Array.getElem?_eq_none (Nat.le_of_not_lt hk)
    simp [Heap.object?, reclaimOnce, hnone]

/-- A round leaves a cell that something refers to. -/
theorem cell?_reclaimOnce {m : Machine} {id : CellId} :
    (m.reclaimOnce extra).heap.cell? id
      = if (m.allReferences extra).count (.cell id) = 0 then none else m.heap.cell? id := by
  obtain ⟨k⟩ := id
  by_cases hk : k < m.heap.cells.size
  · have hcount : (m.tally extra).cells.getD k 0 = _ := tally_cells hk
    by_cases hzero : (m.allReferences extra).count (.cell ⟨k⟩) = 0
    · rw [hzero] at hcount
      simp only [Heap.cell?, reclaimOnce, Array.getElem?_mapIdx, hcount, hzero, if_true]
      cases m.heap.cells[k]? <;> rfl
    · have hpos : (m.tally extra).cells.getD k 0 ≠ 0 := by rwa [hcount]
      simp only [Heap.cell?, reclaimOnce, Array.getElem?_mapIdx, hpos, hzero, if_false, Option.map_id']
  · have hnone : m.heap.cells[k]? = none := Array.getElem?_eq_none (Nat.le_of_not_lt hk)
    simp [Heap.cell?, reclaimOnce, hnone]

theorem reclaimWithin_shrinks (m : Machine) (extra : List Value) (fuel : Nat) :
    m.Shrinks (m.reclaimWithin extra fuel) := by
  induction fuel generalizing m with
  | zero => exact .refl m
  | succ fuel ih =>
    simp only [reclaimWithin]
    split
    · exact .refl m
    · exact (m.reclaimOnce_shrinks extra).trans (ih _)

theorem reclaim_shrinks (m : Machine) (extra : List Value) : m.Shrinks (m.reclaim extra) :=
  m.reclaimWithin_shrinks extra _

/-- An object that a root refers to stays. -/
theorem object?_reclaim_of_mem_roots {m : Machine} {id : ObjectId} (h : .object id ∈ m.roots) :
    (m.reclaim extra).heap.object? id = m.heap.object? id := by
  rw [reclaim]
  induction m.heap.population generalizing m with
  | zero => rfl
  | succ fuel ih =>
    simp only [reclaimWithin]
    split
    · rfl
    · have hmem : (m.allReferences extra).count (.object id) ≠ 0 :=
        mt List.count_eq_zero.mp (by simp [allReferences, h])
      rw [ih ((m.reclaimOnce_shrinks extra).roots ▸ h), object?_reclaimOnce, if_neg hmem]

/-- An object or a cell is the same in both heaps. -/
def Same (h h' : Heap) : Value → Prop
  | .object id => h'.object? id = h.object? id
  | .cell id => h'.cell? id = h.cell? id
  | _ => True

theorem Refers.mem_allReferences {m : Machine} {v : Value} (h : m.Refers v) : v ∈ m.allReferences extra := by
  have hmem := Machine.mem_allReferences.mpr h
  simp only [allReferences, List.append_nil, List.mem_append] at hmem ⊢
  tauto

theorem same_reclaimOnce {m : Machine} {v : Value} (h : v ∈ m.allReferences extra) :
    Same m.heap (m.reclaimOnce extra).heap v := by
  have hpos := Nat.ne_of_gt (List.count_pos_iff.mpr h)
  cases v with
  | object id => rw [Same, object?_reclaimOnce, if_neg hpos]
  | cell id => rw [Same, cell?_reclaimOnce, if_neg hpos]
  | _ => trivial

theorem Shrinks.links_eq {m m' : Machine} (h : m.Shrinks m') {v : Value} (hv : Same m.heap m'.heap v) :
    m'.heap.links v = m.heap.links v := by
  cases v with
  | object id =>
    have hv : m'.heap.object? id = m.heap.object? id := hv
    simp only [Heap.links, hv, h.children]
  | cell id =>
    have hv : m'.heap.cell? id = m.heap.cell? id := hv
    simp only [Heap.links, hv]
  | _ => rfl

theorem Refers.of_link {m : Machine} {v w : Value} (h : w ∈ m.heap.links v) : m.Refers w := by
  cases v with
  | object id =>
    cases ho : m.heap.object? id with
    | none => simp [Heap.links, ho] at h
    | some o => exact .object ho (by simpa [Heap.links, ho] using h)
  | cell id =>
    refine @Refers.cell _ id _ ?_
    simpa [Heap.links] using h
  | _ => simp [Heap.links] at h

/-- What the roots and some more values reach has references. -/
theorem mem_allReferences_of_reached {m : Machine} {v : Value}
    (h : ReachedFrom m.heap.links (m.roots ++ extra) v) : v ∈ m.allReferences extra := by
  cases h with
  | start mem => exact List.mem_append_left _ (List.mem_append_left _ mem)
  | step _ mem => exact (Refers.of_link mem).mem_allReferences

/-- A round takes away no references of what can be reached. -/
theorem reached_reclaimOnce {m : Machine} {v : Value} (h : ReachedFrom m.heap.links (m.roots ++ extra) v) :
    ReachedFrom (m.reclaimOnce extra).heap.links ((m.reclaimOnce extra).roots ++ extra) v := by
  induction h with
  | start mem => exact .start (by rwa [(m.reclaimOnce_shrinks extra).roots])
  | step reached mem ih =>
    have hsame := same_reclaimOnce (mem_allReferences_of_reached reached)
    exact .step ih (by rwa [(m.reclaimOnce_shrinks extra).links_eq hsame])

/-- What the roots and some more values reach is not taken away. -/
theorem same_reclaim_of_reached {m : Machine} {v : Value}
    (h : ReachedFrom m.heap.links (m.roots ++ extra) v) : Same m.heap (m.reclaim extra).heap v := by
  have hwithin (fuel : Nat) : Same m.heap (m.reclaimWithin extra fuel).heap v := by
    induction fuel generalizing m with
    | zero => cases v <;> trivial
    | succ fuel ih =>
      simp only [reclaimWithin]
      split
      · cases v <;> trivial
      · have hround := same_reclaimOnce (mem_allReferences_of_reached h)
        have hrest := ih (reached_reclaimOnce h)
        cases v with
        | object id => exact Eq.trans hrest hround
        | cell id => exact Eq.trans hrest hround
        | _ => trivial
  exact hwithin _

end Machine

end Rill
