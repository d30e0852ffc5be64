-- SUMMARY: Making values ready for a change in place shows nowhere.
import Rill.Proofs.Ownership.Likeness
import Rill.Proofs.Runs.Outcomes

/-!
# Own copies

Before an element is changed in place, it is copied if anything else refers to it. What nothing refers to is
reclaimed on this occasion, the copy goes into the place of the element, and its cells are replaced by what
they hold. None of that shows: the machine afterwards is like the one before.
-/

namespace Rill

section Copies

variable {h h' : Heap} {start : List Value} {v own : Value}

-- ---------------------------------------------------------------------------
-- Copies
-- ---------------------------------------------------------------------------

/-- Whatever is known in the first heap is the same in the second one. -/
structure Heap.Retains (h : Heap) (start : List Value) (h' : Heap) : Prop where
  classes : h'.classes = h.classes
  same {v : Value} : h.Knows start v → Machine.Same h h' v

/-- The value itself, or a new object of the second heap with a copy of what the object holds in the first
one. -/
inductive Heap.IsOwn (h h' : Heap) : Value → Value → Prop
  | shared {v : Value} : IsOwn h h' v v
  | copied {i j : ObjectId} {o : Object} (old : h.object? i = some o) (container : o.content.isContainer)
      (fresh : h.object? j = none) (new : h'.object? j = some ⟨o.cls, Run.copyContent h.resolve o.content⟩) :
    IsOwn h h' (.object i) (.object j)

/-- Known values are as before, and what is behind a cell may stand for it; the copy stands for the value. -/
def Heap.Owning (h : Heap) (start : List Value) (v own x y : Value) : Prop :=
  h.Knows start x ∧ (y = x ∨ y = h.resolve x ∨ h.resolve x = v ∧ y = own)

theorem Heap.Retains.resolve (hr : h.Retains start h') {x : Value} (hx : h.Knows start x) :
    h'.resolve x = h.resolve x := by
  cases x with
  | cell c =>
    have hsame : h'.cell? c = h.cell? c := hr.same hx
    exact congrArg (·.getD .null) hsame
  | _ => rfl

theorem Heap.IsOwn.isCell (hown : h.IsOwn h' v own) (hv : v.isCell = false) : own.isCell = false := by
  cases hown with
  | shared => exact hv
  | copied => rfl

theorem Heap.resolve_of_isCell {x : Value} (hx : x.isCell = false) : h.resolve x = x := by
  cases x with
  | cell c => cases hx
  | _ => rfl

theorem OrderedMap.alike_map {κ : Type} {R : Value → Value → Prop} {f : Value → Value} {xs : OrderedMap κ Value}
    (hf : ∀ z ∈ xs.values.toList, R z (f z)) : xs.Alike R (xs.map f) := by
  obtain ⟨⟨xs⟩⟩ := xs
  simp only [OrderedMap.values, List.map_toArray] at hf
  change List.Forall₂ _ xs _
  simp only [OrderedMap.map, List.map_toArray, List.forall₂_map_right_iff]
  exact List.forall₂_same.mpr fun x hx => ⟨rfl, hf _ (List.mem_map_of_mem hx)⟩

/-- A copy of a container is like the container. -/
theorem Content.alike_copy {R : Value → Value → Prop} {c : Content} (hc : c.isContainer)
    (hchildren : ∀ z ∈ h.children c, R z (h.resolve z)) : c.Alike R h (Run.copyContent h.resolve c) := by
  cases c with
  | list items =>
    refine .list ?_
    rw [Array.toList_map, List.forall₂_map_right_iff]
    exact List.forall₂_same.mpr hchildren
  | table entries => exact .table (OrderedMap.alike_map hchildren)
  | set _ | array _ => exact .same nofun
  | _ => cases hc

theorem Heap.Intact.agree_known (hi : h.Intact start) (hr : h.Retains start h') {x : Value}
    (hx : h.Knows start x) (hcell : x.isCell = false) : h.Agree (h.Owning start v own) h' x x := by
  cases x with
  | object i =>
    obtain ⟨o, ho⟩ := hi.knows_object hx
    have hsame : h'.object? i = h.object? i := hr.same hx
    exact .object ho (hsame.trans ho) rfl (.same fun z hz => ⟨hx.child ho hz, .inl rfl⟩)
  | cell c => cases hcell
  | _ => exact .scalar rfl

/-- A cell stands for itself only. -/
theorem Heap.Owning.eq_cell (hi : h.Intact start) (hown : own.isCell = false) {x : Value} {c : CellId}
    (hx : h.Owning start v own x (.cell c)) : x = .cell c := by
  obtain ⟨hx, rfl | hy | ⟨-, rfl⟩⟩ := hx
  · rfl
  · have hplain := (hi.knows_resolve hx).2
    rw [← hy] at hplain
    cases hplain
  · cases hown

/-- Afterwards the heap is like the one before. -/
theorem Heap.Intact.simulates (hi : h.Intact start) (hr : h.Retains start h') (hv : h.Knows start v)
    (hcell : v.isCell = false) (hown : h.IsOwn h' v own) : h.Simulates (h.Owning start v own) h' where
  classes := hr.classes
  scalar hx := ⟨.inl hx, .inl rfl⟩
  cell := by
    intro x c hx
    obtain rfl := hx.eq_cell hi (hown.isCell hcell)
    obtain ⟨w, hw, hplain, -⟩ := hi.knows_cell hx.1
    have hsame : h'.cell? c = h.cell? c := hr.same hx.1
    exact ⟨w, hsame.trans hw, hplain⟩
  resolve := by
    rintro x y ⟨hx, hy⟩
    obtain ⟨hknown, hplain⟩ := hi.knows_resolve hx
    refine ⟨hknown, ?_⟩
    rcases hy with rfl | rfl | ⟨hxv, rfl⟩
    · exact .inl (hr.resolve hx)
    · exact .inl (hr.resolve hknown ▸ resolve_of_isCell hplain)
    · exact .inr (.inr ⟨by rw [hxv, resolve_of_isCell hcell], resolve_of_isCell (hown.isCell hcell)⟩)
  agree := by
    rintro x y ⟨hx, hy⟩
    obtain ⟨hknown, hplain⟩ := hi.knows_resolve hx
    have hself : h.Agree (h.Owning start v own) h' (h.resolve x) (h.resolve x) :=
      hi.agree_known hr hknown hplain
    rcases hy with rfl | rfl | ⟨hxv, rfl⟩
    · rwa [hr.resolve hx]
    · rwa [hr.resolve hknown, resolve_of_isCell hplain]
    · rw [hxv, resolve_of_isCell (hown.isCell hcell)]
      cases hown with
      | shared => rwa [hxv] at hself
      | copied old container fresh new =>
        refine .object old new rfl (Content.alike_copy container fun z hz => ?_)
        exact ⟨hv.child old hz, .inr (.inl rfl)⟩

end Copies

-- ---------------------------------------------------------------------------
-- Unsharing
-- ---------------------------------------------------------------------------

section Unsharing

theorem Heap.object?_allocate (h : Heap) (cls : ClassId) (c : Content) (id : ObjectId) :
    (h.allocate cls c).2.object? id = if id.index = h.objects.size then some ⟨cls, c⟩ else h.object? id := by
  simp only [allocate, object?, Array.getElem?_push]
  split <;> rfl

theorem Heap.index_lt_of_object? {h : Heap} {i : ObjectId} {o : Object} (ho : h.object? i = some o) :
    i.index < h.objects.size := by
  have hsome := Option.join_eq_some_iff.mp ho
  exact (Array.getElem?_eq_some_iff.mp hsome).1

/-- A value that is made ready for a change in place. -/
structure Machine.Unshares (m after : Machine) (extra : List Value) (v own : Value) : Prop where
  roots : after.roots = m.roots
  retains : m.heap.Retains (m.roots ++ extra) after.heap
  own : m.heap.IsOwn after.heap v own

variable {m : Machine} {extra : List Value} {v : Value}

theorem Machine.retains_reclaim : m.heap.Retains (m.roots ++ extra) (m.reclaim extra).heap where
  classes := by rw [(m.reclaim_shrinks extra).rest]
  same {x} hx := by
    rcases hx with hx | hx
    · cases x with
      | object _ | cell _ => cases hx
      | _ => trivial
    · exact Machine.same_reclaim_of_reached hx

theorem Heap.Retains.refl (h : Heap) (start : List Value) : h.Retains start h where
  classes := rfl
  same {x} _ := by cases x <;> trivial

/-- A known object has an identity that a new one does not get. -/
theorem Heap.Intact.retains_allocate {h h' : Heap} {start : List Value} (hi : h.Intact start)
    (hr : h.Retains start h') (cls : ClassId) (c : Content) : h.Retains start (h'.allocate cls c).2 where
  classes := hr.classes
  same {x} hx := by
    have hsame := hr.same hx
    cases x with
    | object i =>
      obtain ⟨o, ho⟩ := hi.knows_object hx
      have hi' : h'.object? i = h.object? i := hsame
      have hlt := Heap.index_lt_of_object? (hi'.trans ho)
      exact (Heap.object?_allocate h' cls c i).trans ((if_neg (Nat.ne_of_lt hlt)).trans hi')
    | cell _ => exact hsame
    | _ => trivial

theorem copyContent_congr {f g : Value → Value} {h : Heap} {c : Content} (hfg : ∀ z ∈ h.children c, f z = g z) :
    Run.copyContent f c = Run.copyContent g c := by
  cases c with
  | list items =>
    have hitems : items.map f = items.map g := Array.map_congr_left fun z hz => hfg z (Array.mem_toList_iff.mpr hz)
    exact congrArg Content.list hitems
  | table entries =>
    have hentries : entries.map f = entries.map g := by
      refine congrArg OrderedMap.mk (Array.map_congr_left fun x hx => ?_)
      have hmem : x.2 ∈ entries.values.toList := by
        rw [OrderedMap.values, Array.toList_map]
        exact List.mem_map_of_mem (Array.mem_toList_iff.mpr hx)
      exact congrArg (Prod.mk x.1) (hfg x.2 hmem)
    exact congrArg Content.table hentries
  | _ => rfl

/-- A known value is made ready for a change by leaving it as it is, or by a copy. -/
theorem unshare_ends (hi : m.heap.Intact (m.roots ++ extra)) (hv : m.heap.Knows (m.roots ++ extra) v) :
    ∃ own after, Run.unshare v extra m = .ok own after ∧ m.Unshares after extra v own := by
  cases v with
  | object id =>
    obtain ⟨o, ho⟩ := hi.knows_object hv
    have hr : m.heap.Retains (m.roots ++ extra) (m.reclaim extra).heap := Machine.retains_reclaim
    have hroots := (m.reclaim_shrinks extra).roots
    have ho' : (m.reclaim extra).heap.object? id = some o := (hr.same hv : _ = _).trans ho
    have hrun : Run.unshare (.object id) extra m =
        (if o.content.isContainer && ((m.reclaim extra).tally extra).objects.getD id.index 0 > 1 then
          Run.newObject o.cls (Run.copyContent (m.reclaim extra).heap.resolve o.content)
        else pure (.object id)) (m.reclaim extra) := by
      have hreclaim : Run.reclaim extra m = .ok () (m.reclaim extra) := rfl
      rw [Run.unshare, Run.bind_of_ok hreclaim, Run.bind_get, ho']
    rw [hrun]
    split
    · next hshared =>
      have hcopy : Run.copyContent (m.reclaim extra).heap.resolve o.content =
          Run.copyContent m.heap.resolve o.content :=
        copyContent_congr fun z hz => hr.resolve (hv.child ho hz)
      rw [hcopy]
      have hsize : (m.reclaim extra).heap.objects.size = m.heap.objects.size := by
        simpa using (m.reclaim_shrinks extra).objects.length_eq.symm
      refine ⟨_, _, rfl, hroots, hi.retains_allocate hr _ _, .copied ho (Bool.and_eq_true_iff.mp hshared).1 ?_ ?_⟩
      · simp [Heap.object?, hsize]
      · exact (Heap.object?_allocate _ _ _ _).trans (if_pos rfl)
    · exact ⟨_, _, rfl, hroots, hr, .shared⟩
  | _ => exact ⟨_, m, rfl, rfl, .refl _ _, .shared⟩

/-- A container that is not copied has one reference after the reclamation. -/
theorem count_of_unshare {after : Machine} {id : ObjectId} {o : Object} (ho : m.heap.object? id = some o)
    (hcontainer : o.content.isContainer) (hknown : m.heap.Knows (m.roots ++ extra) (.object id))
    (hrun : Run.unshare (.object id) extra m = .ok (.object id) after) :
    after = m.reclaim extra ∧ ((m.reclaim extra).allReferences extra).count (.object id) ≤ 1 := by
  have hr : m.heap.Retains (m.roots ++ extra) (m.reclaim extra).heap := Machine.retains_reclaim
  have ho' : (m.reclaim extra).heap.object? id = some o := (hr.same hknown : _ = _).trans ho
  have hsize := Heap.index_lt_of_object? ho'
  have htally : ((m.reclaim extra).tally extra).objects.getD id.index 0 =
      ((m.reclaim extra).allReferences extra).count (.object id) := Machine.tally_objects hsize
  have hreclaim : Run.reclaim extra m = .ok () (m.reclaim extra) := rfl
  rw [Run.unshare, Run.bind_of_ok hreclaim, Run.bind_get, ho'] at hrun
  simp only [hcontainer, htally, Bool.true_and, decide_eq_true_eq] at hrun
  split at hrun
  · cases hrun
    simp at hsize
  · next hcount =>
    cases hrun
    exact ⟨rfl, by omega⟩

end Unsharing

-- ---------------------------------------------------------------------------
-- Changes that do not show
-- ---------------------------------------------------------------------------

section Changes

variable {R : Value → Value → Prop} {h h' : Heap}

theorem Heap.object?_setContent (h : Heap) (id other : ObjectId) (c : Content) :
    (h.setContent id c).object? other =
      if id = other then (h.object? other).map fun o => { o with content := if o.content.sameKind c then c else o.content }
      else h.object? other := by
  obtain ⟨i⟩ := id
  obtain ⟨j⟩ := other
  simp only [setContent, modifyContent, object?, Array.getElem?_modify, ObjectId.mk.injEq]
  split
  · cases h.objects[j]? with
    | none => rfl
    | some o => cases o <;> rfl
  · rfl

theorem Heap.cell?_setCell {h : Heap} {c : CellId} {old : Value} (hold : h.cell? c = some old) (d : CellId)
    (w : Value) : (h.setCell c w).cell? d = if d = c then some (h.resolve w) else h.cell? d := by
  have hlt := (Array.getElem?_eq_some_iff.mp (Option.join_eq_some_iff.mp hold)).1
  obtain ⟨c⟩ := c
  obtain ⟨d⟩ := d
  simp only [setCell, cell?, Array.getElem?_setIfInBounds, CellId.mk.injEq]
  by_cases hcd : c = d
  · subst hcd
    simp [hlt]
  · simp [hcd, Ne.symm hcd]

theorem Heap.Simulates.resolve_resolve (hS : h.Simulates R h') {v w : Value} (hvw : R v w) :
    h.resolve (h.resolve v) = h.resolve v := by
  rcases hS.cases hvw with ⟨u, hu, hv, -⟩ | ⟨i, j, o, p, hv, -⟩
  · rw [hv]
    cases u <;> first | rfl | cases hu
  · rw [hv]
    rfl

/-- A cell gets another value that is related to the same values. -/
theorem Heap.Simulates.setCell (hS : h.Simulates R h') {c : CellId} {old w : Value} (hold : h'.cell? c = some old)
    (hw : w.isCell = false) (hc : ∀ x, R x (.cell c) → R (h.resolve x) w) : h.Simulates R (h'.setCell c w) := by
  have hcell (d : CellId) : (h'.setCell c w).cell? d = if d = c then some w else h'.cell? d := by
    rw [Heap.cell?_setCell hold, Heap.resolve_of_isCell hw]
  have hresolve {y : Value} : (h'.setCell c w).resolve y = if y = .cell c then w else h'.resolve y := by
    cases y with
    | cell d =>
      have hvalue : (h'.setCell c w).resolve (.cell d) = ((h'.setCell c w).cell? d).getD .null := rfl
      rw [hvalue, hcell]
      by_cases hd : d = c
      · simp [hd]
      · simp only [hd, if_false, Value.cell.injEq]
        rfl
    | _ => rfl
  have hobject {v w' : Value} (hagree : h.Agree R h' v w') : h.Agree R (h'.setCell c w) v w' := by
    cases hagree with
    | scalar plain => exact .scalar plain
    | object left right cls content => exact .object left right cls content
  refine ⟨hS.classes, hS.scalar, ?_, ?_, ?_⟩
  · intro v d hvd
    rw [hcell]
    split
    · exact ⟨w, rfl, hw⟩
    · exact hS.cell hvd
  · intro v y hvy
    rw [hresolve]
    split
    · next hy => exact hc v (hy ▸ hvy)
    · exact hS.resolve hvy
  · intro v y hvy
    rw [hresolve]
    split
    · next hy =>
      have hagree := hS.agree (hc v (hy ▸ hvy))
      rw [hS.resolve_resolve hvy, Heap.resolve_of_isCell hw] at hagree
      exact hobject hagree
    · exact hobject (hS.agree hvy)

/-- An object gets another content that is like the contents of related objects. -/
theorem Heap.Simulates.setContent (hS : h.Simulates R h') {id : ObjectId} {p : Object} {c : Content}
    (hp : h'.object? id = some p) (hkind : p.content.sameKind c)
    (hc : ∀ {i o}, R (.object i) (.object id) → h.object? i = some o → o.content.Alike R h c) :
    h.Simulates R (h'.setContent id c) := by
  refine ⟨hS.classes, hS.scalar, hS.cell, hS.resolve, fun {v w} hvw => ?_⟩
  change h.Agree R _ (h.resolve v) (h'.resolve w)
  have hresolve := hS.resolve hvw
  have hagree := hS.agree hvw
  generalize h.resolve v = v' at hresolve hagree
  generalize h'.resolve w = w' at hresolve hagree
  cases hagree with
  | scalar plain => exact .scalar plain
  | @object i j o q left right cls content =>
    by_cases hj : id = j
    · subst hj
      cases right.symm.trans hp
      refine .object left (p := { p with content := c }) ?_ cls (hc hresolve left)
      rw [Heap.object?_setContent, if_pos rfl, hp, Option.map_some, if_pos hkind]
    · exact .object left (by rwa [Heap.object?_setContent, if_neg hj]) cls content

end Changes

-- ---------------------------------------------------------------------------
-- Places
-- ---------------------------------------------------------------------------

/-- The second machine has the roots of the first one and is like it, and whatever was known stands for
itself. -/
structure Machine.Mirrors (R : Value → Value → Prop) (m after : Machine) (extra : List Value) : Prop where
  roots : after.roots = m.roots
  simulates : m.heap.Simulates R after.heap
  known {x : Value} : m.heap.Knows (m.roots ++ extra) x → R x x

section Places

variable {m : Machine} {extra : List Value} {v own : Value}

/-- The outcome of making ready for a change what would be read otherwise. -/
def Machine.Owns (m : Machine) (extra : List Value) (read : Except Failure Value)
    (own : EStateM.Result Failure Machine Value) : Prop :=
  match read, own with
  | .ok v, .ok w after => ∃ R, m.Mirrors R after extra ∧ R v w
  | .error e, .error e' after => e' = e ∧ after = m
  | _, _ => False

theorem Machine.Owns.of_ok {result : EStateM.Result Failure Machine Value} (h : m.Owns extra (.ok v) result) :
    ∃ w after R, result = .ok w after ∧ m.Mirrors R after extra ∧ R v w := by
  cases result with
  | ok w after =>
    obtain ⟨R, hR, hvw⟩ := h
    exact ⟨w, after, R, rfl, hR, hvw⟩
  | error e after => exact h.elim

theorem Machine.Owns.of_error {e : Failure} {result : EStateM.Result Failure Machine Value}
    (h : m.Owns extra (.error e) result) : result = .error e m := by
  cases result with
  | ok w after => exact h.elim
  | error e' after => rw [h.1, h.2]

/-- Where nothing is changed, the machine is like itself. -/
theorem Machine.mirrors_self (hi : m.heap.Intact (m.roots ++ extra)) :
    m.Mirrors (m.heap.Owning (m.roots ++ extra) .null .null) m extra where
  roots := rfl
  simulates := hi.simulates (.refl _ _) (.inl rfl) rfl .shared
  known hx := ⟨hx, .inl rfl⟩

end Places

end Rill
