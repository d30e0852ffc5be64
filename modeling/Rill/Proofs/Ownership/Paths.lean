-- SUMMARY: Elements and stored fields that are made ready for a change are like those that are read.
import Rill.Proofs.Comparison.Keys
import Rill.Proofs.Ownership.Copies
import Rill.Proofs.Texts.Boundaries

/-!
# Paths

A place is reached through elements and fields. To be changed in place, an element is first made ready for that, and
so is a field that is stored: an entry of a table or a member of a module. Either is like what is read there, or
fails as reading does. If the class of a table computes the field, or has a member of its name, only reading finds
that. Nothing but the heap is touched on the way.
-/

namespace Rill

-- ---------------------------------------------------------------------------
-- Changes of the heap
-- ---------------------------------------------------------------------------

namespace Machine

/-- The second machine differs from the first one in its heap, its files and the number of registrations only. -/
def Beside (m m' : Machine) : Prop :=
  m' = { m with heap := m'.heap, files := m'.files, registrations := m'.registrations }

variable {m m' m'' : Machine}

theorem Beside.refl (m : Machine) : m.Beside m := rfl

theorem Beside.trans (h : m.Beside m') (h' : m'.Beside m'') : m.Beside m'' := by
  unfold Beside at *
  rw [h', h]

theorem beside_heap (m : Machine) (heap : Heap) : m.Beside { m with heap := heap } := rfl

theorem Beside.stack (h : m.Beside m') : m'.stack = m.stack := by
  rw [h]

theorem Beside.globals (h : m.Beside m') : m'.globals = m.globals := by
  rw [h]

theorem reclaim_beside (m : Machine) (extra : List Value) : m.Beside (m.reclaim extra) := by
  have hrest := (m.reclaim_shrinks extra).rest
  unfold Beside
  rw [hrest]

end Machine

/-- The computation changes nothing but the heap, the files and the number of registrations. -/
def Aside {α : Type} (x : Run α) : Prop := ∀ m : Machine, Ends x m (fun _ m' => m.Beside m') m.Beside

namespace Aside

variable {α β : Type} {x : Run α}

theorem pure (a : α) : Aside (Pure.pure a) := fun m => Machine.Beside.refl m

theorem fail (fault : Fault) : Aside (Run.fail fault : Run α) := fun m => Machine.Beside.refl m

theorem lift (x : Except Failure α) : Aside (liftM x : Run α) := by
  intro m
  cases x <;> exact Machine.Beside.refl m

theorem bind {f : α → Run β} (hx : Aside x) (hf : ∀ a, Aside (f a)) : Aside (x >>= f) := by
  intro m
  refine .bind (.of_outcome (fun a m' h => ?_) fun e m' h => (hx m).of_error h)
  have hm := (hx m).of_ok h
  exact .of_outcome (fun b m'' h' => hm.trans ((hf a m').of_ok h')) fun e m'' h' => hm.trans ((hf a m').of_error h')

theorem get {f : Machine → Run β} (hf : ∀ m, Aside (f m)) : Aside (MonadState.get >>= f) := fun m => hf m m

theorem heap {f : Heap → Run β} (hf : ∀ h, Aside (f h)) : Aside (Run.heap >>= f) := fun m => hf m.heap m

theorem setContent (id : ObjectId) (c : Content) : Aside (Run.setContent id c) := fun m => m.beside_heap _

theorem setCell (id : CellId) (v : Value) : Aside (Run.setCell id v) := fun m => m.beside_heap _

theorem reclaim (extra : List Value) : Aside (Run.reclaim extra) := fun m => m.reclaim_beside extra

theorem newObject (cls : ClassId) (c : Content) : Aside (Run.newObject cls c) := fun _ => rfl

theorem unshare (v : Value) (extra : List Value) : Aside (Run.unshare v extra) := by
  unfold Run.unshare
  split
  · refine (reclaim extra).bind fun _ => get fun m => ?_
    split
    · split
      · exact newObject _ _
      · exact pure _
    · exact pure _
  · exact pure _

theorem unshareSlot (item : Value) (extra : List Value) : Aside (Run.unshareSlot item extra) := by
  unfold Run.unshareSlot
  split
  · exact heap fun h => (unshare _ extra).bind fun own => (setCell _ own).bind fun _ => pure _
  · exact (unshare _ extra).bind fun own => pure _

/-- A place of an object is made ready for a change. -/
theorem place (item : Value) (extra : List Value) (id : ObjectId) (put : Value → Content) : Aside (do
    let (held, own) ← Run.unshareSlot item extra
    Run.setContent id (put held)
    return own) :=
  (unshareSlot item extra).bind fun _ => (setContent id _).bind fun _ => pure _

theorem ownElement (container : Value) (indices : Array Value) : Aside (Run.ownElement container indices) := by
  refine heap fun h => ?_
  split
  · exact (lift _).bind fun offset => place _ _ _ fun held => .list (_ : Array Value)
  · refine (lift _).bind fun key => ?_
    split
    · exact place _ _ _ fun held => .table (_ : Table)
    · exact fail _
  · exact lift _

end Aside

-- ---------------------------------------------------------------------------
-- One value put in the place of another
-- ---------------------------------------------------------------------------

section Put

variable {R : Value → Value → Prop} {held : Value}

theorem forall₂_modify {α β : Type} {P : α → β → Prop} {f : β → β} {xs : List α} {ys : List β} {k : Nat}
    (h : List.Forall₂ P xs ys) (hk : ∀ x y, xs[k]? = some x → P x y → P x (f y)) :
    List.Forall₂ P xs (ys.modify k f) := by
  induction h generalizing k with
  | nil =>
    rw [List.modify_nil]
    exact .nil
  | cons hxy hrest ih =>
    cases k with
    | zero =>
      rw [List.modify_zero_cons]
      exact .cons (hk _ _ rfl hxy) hrest
    | succ k =>
      rw [List.modify_succ_cons]
      exact .cons hxy (ih hk)

/-- An array with another value at a position. -/
theorem forall₂_setIfInBounds {xs ys : Array Value} {k : Nat} (h : List.Forall₂ R xs.toList ys.toList)
    (hk : ∀ x, xs[k]? = some x → R x held) : List.Forall₂ R xs.toList (ys.setIfInBounds k held).toList := by
  rw [Array.toList_setIfInBounds, List.set_eq_modify]
  exact forall₂_modify h fun x _ hx _ => hk x (by rwa [Array.getElem?_toList] at hx)

/-- A key is found where it stands first. -/
theorem OrderedMap.find?_position {κ : Type} [DecidableEq κ] {xs : OrderedMap κ Value} {key : κ} {v : Value}
    (hfind : xs.find? key = some v) : ∃ k, xs.position? key = some k ∧ xs.entries[k]? = some (key, v) := by
  obtain ⟨entry, hentry, rfl⟩ := Option.map_eq_some_iff.mp hfind
  obtain ⟨hkey, k, hk, rfl, hbefore⟩ := Array.find?_eq_some_iff_getElem.mp hentry
  obtain rfl : xs.entries[k].1 = key := of_decide_eq_true hkey
  refine ⟨k, Array.findIdx?_eq_some_iff_getElem.mpr ⟨hk, hkey, fun j hj => ?_⟩, Array.getElem?_eq_getElem hk⟩
  simpa using hbefore j hj

theorem OrderedMap.Alike.keys {κ : Type} {xs ys : OrderedMap κ Value} (halike : xs.Alike R ys) : ys.keys = xs.keys := by
  have hkeys : ys.entries.toList.map (·.1) = xs.entries.toList.map (·.1) := by
    unfold OrderedMap.Alike at halike
    generalize xs.entries.toList = xs at halike
    generalize ys.entries.toList = ys at halike
    induction halike with
    | nil => rfl
    | cons hxy _ ih => rw [List.map_cons, List.map_cons, hxy.1, ih]
  exact Array.toList_inj.mp (by simpa only [OrderedMap.keys, Array.toList_map] using hkeys)

/-- A map with another value for a key that it has. -/
theorem OrderedMap.Alike.insert {κ : Type} [DecidableEq κ] {xs ys : OrderedMap κ Value} {key : κ} {v : Value}
    (halike : xs.Alike R ys) (hfind : xs.find? key = some v) (hheld : R v held) :
    xs.Alike R (ys.insert key held) := by
  obtain ⟨k, hposition, hentry⟩ := find?_position hfind
  have hposition' : ys.position? key = some k := by
    rw [position?_keys, halike.keys, ← position?_keys, hposition]
  simp only [OrderedMap.Alike, OrderedMap.insert, hposition', Array.toList_modify]
  refine forall₂_modify halike fun x y hx hxy => ⟨hxy.1, ?_⟩
  rw [Array.getElem?_toList, hentry] at hx
  cases hx
  exact hheld

end Put

theorem Heap.contentOf_object {h : Heap} {v : Value} {id : ObjectId} {o : Object} (hv : h.resolve v = .object id)
    (ho : h.object? id = some o) : h.contentOf v = some o.content := by
  simp only [Heap.contentOf, hv, Heap.content?, ho, Option.map_some]

theorem Heap.offsetOf_lt {h : Heap} {indices : Array Value} {size k : Nat}
    (hoffset : h.offsetOf indices size = .ok k) : k < size := by
  simp only [Heap.offsetOf, bind, Except.bind] at hoffset
  split at hoffset
  · cases hoffset
  · split at hoffset
    · cases hoffset
    · exact resolveIndex_lt hoffset

section Elements

variable {m : Machine} {container : Value} {indices : Array Value}

end Elements

-- ---------------------------------------------------------------------------
-- Fields
-- ---------------------------------------------------------------------------

section Fields

variable {m : Machine} {object : Value} {name : String} {read : Except Failure Value}

end Fields

-- ---------------------------------------------------------------------------
-- Steps
-- ---------------------------------------------------------------------------

/-- A step of a path. -/
inductive PlaceStep
  | element (indices : Array Value)
  | field (name : String)

def PlaceStep.indices : PlaceStep → List Value
  | .element indices => indices.toList
  | .field _ => []

/-- Makes ready for a change what a step leads to. -/
def Run.ownStep (v : Value) : PlaceStep → Run Value
  | .element indices => ownElement v indices
  | .field name => ownField v name

section Transfer

variable {R : Value → Value → Prop} {h h' : Heap} (hS : h.Simulates R h') {v w : Value} {name : String}
include hS

end Transfer

end Rill
