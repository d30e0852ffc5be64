-- SUMMARY: Where values are held, and what is reached without one of these places.
import Rill.Proofs.Comparison.Keys
import Rill.Proofs.Lists.Variables
import Rill.Proofs.Ownership.Paths

/-!
# Seats

A seat holds a value: a slot of the operand stack, a global, or a place in an object or a cell. What is reached
without a seat shows no change behind it. If the only reference to an object is in the seat, the object is not
reached without it.
-/

namespace Rill

/-- A place that holds a value. -/
inductive Seat
  | slot (k : Nat)
  | global (name : String)
  | inside (holder : Value) (k : Nat)

/-- The object or the cell that a seat is in. -/
def Seat.holder? : Seat → Option Value
  | .inside holder _ => some holder
  | _ => none

namespace Machine

/-- What a seat holds. -/
def held? (m : Machine) : Seat → Option Value
  | .slot k => m.stack[k]?
  | .global name => m.globals.find? name
  | .inside holder k => (m.heap.links holder)[k]?

/-- The roots besides the one that is the seat. -/
def rootsBut (m : Machine) : Seat → List Value
  | .slot k => { m with stack := m.stack.eraseIdxIfInBounds k }.roots
  | .global name => { m with globals := m.globals.erase name }.roots
  | .inside .. => m.roots

/-- What a value refers to besides what is in the seat. -/
def linksBut (m : Machine) (s : Seat) (v : Value) : List Value :=
  match s with
  | .inside holder k => if v = holder then (m.heap.links v).eraseIdx k else m.heap.links v
  | _ => m.heap.links v

/-- The value is reached without the seat. -/
def Without (m : Machine) (s : Seat) (v : Value) : Prop := ReachedFrom (m.linksBut s) (m.rootsBut s) v

variable {m m' : Machine} {s : Seat} {v w : Value}

-- ---------------------------------------------------------------------------
-- Sole references
-- ---------------------------------------------------------------------------

theorem count_eraseIdx {l : List Value} {k : Nat} (hk : l[k]? = some v) : l.count v = (l.eraseIdx k).count v + 1 := by
  obtain ⟨hlt, rfl⟩ := List.getElem?_eq_some_iff.mp hk
  rw [← (List.getElem_cons_eraseIdx_perm hlt).count_eq, List.count_cons_self]

theorem linksBut_subset (s : Seat) (v : Value) : m.linksBut s v ⊆ m.heap.links v := by
  unfold linksBut
  split
  · split
    · exact List.eraseIdx_subset
    · exact List.Subset.refl _
  · exact List.Subset.refl _

/-- The values that a place for an object refers to. -/
def childrenAt (m : Machine) (o : Option Object) : List Value := o.elim [] fun o => m.heap.children o.content

/-- The references from objects and cells. -/
def innerReferences (m : Machine) : List Value :=
  m.heap.objects.toList.flatMap m.childrenAt ++ m.heap.cells.toList.flatMap Option.toList

theorem count_allReferences (extra : List Value) (v : Value) :
    (m.allReferences extra).count v = m.roots.count v + extra.count v + m.innerReferences.count v := by
  have hall : m.allReferences extra = m.roots ++ extra ++ m.heap.objects.toList.flatMap m.childrenAt ++
      m.heap.cells.toList.flatMap Option.toList := rfl
  simp only [hall, innerReferences, List.count_append]
  omega

theorem links_sublist_innerReferences (v : Value) : (m.heap.links v).Sublist m.innerReferences := by
  have hplace {α : Type} {f : α → List Value} {xs : List α} {a : α} (ha : a ∈ xs) : (f a).Sublist (xs.flatMap f) :=
    List.sublist_flatten_of_mem (List.mem_map_of_mem ha)
  cases v with
  | object id =>
    cases ho : m.heap.object? id with
    | none => simp [Heap.links, ho]
    | some o =>
      have hmem : some o ∈ m.heap.objects.toList :=
        Array.mem_toList_iff.mpr (Array.mem_of_getElem? (Option.join_eq_some_iff.mp ho))
      have hlinks : m.heap.links (.object id) = m.childrenAt (some o) := by simp [Heap.links, childrenAt, ho]
      rw [hlinks]
      exact (hplace hmem).trans (List.sublist_append_left _ _)
  | cell c =>
    cases hc : m.heap.cell? c with
    | none => simp [Heap.links, hc]
    | some w =>
      have hmem : some w ∈ m.heap.cells.toList :=
        Array.mem_toList_iff.mpr (Array.mem_of_getElem? (Option.join_eq_some_iff.mp hc))
      have hlinks : m.heap.links (.cell c) = (some w).toList := by simp [Heap.links, hc]
      rw [hlinks]
      exact (hplace hmem).trans (List.sublist_append_right _ _)
  | _ => exact List.nil_sublist _

/-- A value that is referred to once from inside the heap has one holder. -/
theorem eq_of_mem_links (hcount : m.innerReferences.count v ≤ 1) {x y : Value} (hx : v ∈ m.heap.links x)
    (hy : v ∈ m.heap.links y) : x = y := by
  simp only [innerReferences, List.count_append] at hcount
  have hobject {id : ObjectId} (hv : v ∈ m.heap.links (.object id)) :
      ∃ o, m.heap.objects.toList[id.index]? = some o ∧ v ∈ m.childrenAt o := by
    cases ho : m.heap.object? id with
    | none => simp [Heap.links, ho] at hv
    | some o =>
      refine ⟨some o, ?_, by simpa [Heap.links, childrenAt, ho] using hv⟩
      rw [Array.getElem?_toList]
      exact Option.join_eq_some_iff.mp ho
  have hcell {c : CellId} (hv : v ∈ m.heap.links (.cell c)) :
      ∃ w, m.heap.cells.toList[c.index]? = some w ∧ v ∈ w.toList := by
    cases hc : m.heap.cell? c with
    | none => simp [Heap.links, hc] at hv
    | some w =>
      refine ⟨some w, ?_, by simpa [Heap.links, hc] using hv⟩
      rw [Array.getElem?_toList]
      exact Option.join_eq_some_iff.mp hc
  have hpos {α : Type} {f : α → List Value} {xs : List α} {i : Nat} {a : α} (ha : xs[i]? = some a) (hv : v ∈ f a) :
      0 < (xs.flatMap f).count v :=
    List.count_pos_iff.mpr (List.mem_flatMap.mpr ⟨a, List.mem_of_getElem? ha, hv⟩)
  cases x with
  | object i =>
    obtain ⟨o, ho, hvo⟩ := hobject hx
    have hfirst := hpos ho hvo
    cases y with
    | object j =>
      obtain ⟨p, hp, hvp⟩ := hobject hy
      obtain ⟨i⟩ := i
      obtain ⟨j⟩ := j
      have hij : i = j := eq_of_count_flatMap_le_one (by omega) ho hp hvo hvp
      rw [hij]
    | cell d =>
      obtain ⟨w, hw, hvw⟩ := hcell hy
      have hsecond := hpos hw hvw
      omega
    | _ => cases hy
  | cell c =>
    obtain ⟨w, hw, hvw⟩ := hcell hx
    have hfirst := hpos hw hvw
    cases y with
    | object j =>
      obtain ⟨p, hp, hvp⟩ := hobject hy
      have hsecond := hpos hp hvp
      omega
    | cell d =>
      obtain ⟨u, hu, hvu⟩ := hcell hy
      obtain ⟨c⟩ := c
      obtain ⟨d⟩ := d
      have hcd : c = d := eq_of_count_flatMap_le_one (by omega) hw hu hvw hvu
      rw [hcd]
    | _ => cases hy
  | _ => cases hx

theorem count_roots_slot {k : Nat} (hk : m.stack[k]? = some v) :
    m.roots.count v = (m.rootsBut (.slot k)).count v + 1 := by
  have hstack : m.stack.toList.count v = (m.stack.toList.eraseIdx k).count v + 1 :=
    count_eraseIdx (by rwa [Array.getElem?_toList])
  simp only [rootsBut, roots, List.count_append, Array.toList_eraseIdxIfInBounds]
  omega

theorem count_roots_global {name : String} (hname : m.globals.find? name = some v) :
    m.roots.count v = (m.rootsBut (.global name)).count v + 1 := by
  obtain ⟨k, hposition, hvalue⟩ := OrderedMap.value_at_position hname
  have hglobals : m.globals.values.toList.count v = ((m.globals.erase name).values.toList).count v + 1 := by
    rw [count_eraseIdx hvalue, OrderedMap.values_erase, hposition]
  simp only [rootsBut, roots, List.count_append]
  omega

/-- What is referred to once is not referred to without the seat that refers to it. -/
theorem held_sole {extra : List Value} (hheld : m.held? s = some v) (hcount : (m.allReferences extra).count v ≤ 1) :
    v ∉ m.rootsBut s ∧ ∀ x, v ∉ m.linksBut s x := by
  rw [count_allReferences] at hcount
  have hnone : m.innerReferences.count v = 0 → ∀ x, v ∉ m.linksBut s x := fun hzero x hx =>
    List.count_eq_zero.mp hzero ((links_sublist_innerReferences x).subset (linksBut_subset s x hx))
  cases s with
  | slot k =>
    have hroots := count_roots_slot hheld
    exact ⟨List.count_eq_zero.mp (by omega), hnone (by omega)⟩
  | global name =>
    have hroots := count_roots_global hheld
    exact ⟨List.count_eq_zero.mp (by omega), hnone (by omega)⟩
  | inside holder k =>
    have hlinks := count_eraseIdx hheld
    have hle := (links_sublist_innerReferences (m := m) holder).count_le v
    refine ⟨List.count_eq_zero.mp (show m.roots.count v = 0 by omega), fun x hx => ?_⟩
    simp only [linksBut] at hx
    split at hx
    · next hholder =>
      subst hholder
      have := List.count_pos_iff.mpr hx
      omega
    · next hne => exact hne (eq_of_mem_links (by omega) hx (List.mem_of_getElem? hheld))

/-- What is referred to once, by the seat, is not reached without it. -/
theorem not_without_of_count {extra : List Value} (hheld : m.held? s = some v)
    (hcount : (m.allReferences extra).count v ≤ 1) : ¬m.Without s v := by
  obtain ⟨hroots, hlinks⟩ := held_sole hheld hcount
  intro hv
  cases hv with
  | start mem => exact hroots mem
  | step _ mem => exact hlinks _ mem

-- ---------------------------------------------------------------------------
-- What is reached without a seat
-- ---------------------------------------------------------------------------

theorem rootsBut_subset (s : Seat) : m.rootsBut s ⊆ m.roots := by
  intro v hv
  cases s with
  | slot k =>
    simp only [rootsBut, roots, Array.toList_eraseIdxIfInBounds, List.mem_append] at hv ⊢
    rcases hv with (((hv | hv) | hv) | hv) | hv
    · exact .inl (.inl (.inl (.inl (List.mem_of_mem_eraseIdx hv))))
    all_goals tauto
  | global name =>
    have hglobals : (m.globals.erase name).values.toList ⊆ m.globals.values.toList := by
      rw [OrderedMap.values_erase]
      split
      · exact List.eraseIdx_subset
      · exact List.Subset.refl _
    simp only [rootsBut, roots, List.mem_append] at hv ⊢
    rcases hv with (((hv | hv) | hv) | hv) | hv
    · tauto
    · exact .inl (.inl (.inl (.inr (hglobals hv))))
    all_goals tauto
  | inside holder k => exact hv

theorem Without.reached (h : m.Without s v) : ReachedFrom m.heap.links m.roots v := by
  refine ReachedFrom.trans (fun w hw => .start (rootsBut_subset s hw)) (fun u hu w hw => ?_) h
  exact .step hu (linksBut_subset s u hw)

/-- The holder of a seat is reached without it. -/
theorem without_holder {holder : Value} {k : Nat} (h : ReachedFrom m.heap.links m.roots holder) :
    m.Without (.inside holder k) holder := by
  have hway {v : Value} (hv : ReachedFrom m.heap.links m.roots v) :
      m.Without (.inside holder k) v ∨ m.Without (.inside holder k) holder := by
    induction hv with
    | start mem => exact .inl (.start mem)
    | @step v w _ mem ih =>
      by_cases hholder : v = holder
      · exact .inr (ih.elim (fun hv => hholder ▸ hv) id)
      · refine ih.imp (fun hv => ReachedFrom.step hv ?_) id
        simpa only [linksBut, if_neg hholder] using mem
  exact (hway h).elim id id

/-- Behind a seat are further seats: what is not reached without the first is not passed on a way without it. -/
theorem Without.inner {holder : Value} {k : Nat} (hholder : ¬m.Without s holder) (h : m.Without s v) :
    m.Without (.inside holder k) v := by
  induction h with
  | start mem => exact .start (rootsBut_subset s mem)
  | @step v w hv mem ih =>
    have hne : v ≠ holder := fun heq => hholder (heq ▸ hv)
    exact .step ih (by simpa only [linksBut, if_neg hne] using linksBut_subset s v mem)

/-- What another seat holds is reached without the seat, if that other one is. -/
theorem held_without {t : Seat} (hne : t ≠ s) (ht : m.held? t = some v)
    (hholder : ∀ x, t.holder? = some x → m.Without s x ∧ s.holder? ≠ some x) : m.Without s v := by
  cases t with
  | slot j =>
    refine .start ?_
    have hstack : m.stack.toList[j]? = some v := by rwa [Array.getElem?_toList]
    cases s with
    | slot k =>
      have hmem : v ∈ m.stack.toList.eraseIdx k :=
        List.mem_eraseIdx_iff_getElem?.mpr ⟨j, fun hjk => hne (congrArg Seat.slot hjk), hstack⟩
      simp only [rootsBut, roots, Array.toList_eraseIdxIfInBounds, List.mem_append]
      tauto
    | _ =>
      have hmem := List.mem_of_getElem? hstack
      simp only [rootsBut, roots, List.mem_append]
      tauto
  | global name =>
    refine .start ?_
    cases s with
    | global other =>
      obtain ⟨j, hposition, hvalue⟩ := OrderedMap.value_at_position ht
      have hmem : v ∈ (m.globals.erase other).values.toList := by
        rw [OrderedMap.values_erase]
        cases hother : m.globals.position? other with
        | none => exact List.mem_of_getElem? hvalue
        | some k =>
          refine List.mem_eraseIdx_iff_getElem?.mpr ⟨j, fun hjk => hne ?_, hvalue⟩
          exact congrArg Seat.global (OrderedMap.position?_inj hposition (hjk ▸ hother))
      simp only [rootsBut, roots, List.mem_append]
      tauto
    | _ =>
      have hmem := OrderedMap.find?_mem_values ht
      simp only [rootsBut, roots, List.mem_append]
      tauto
  | inside holder k =>
    obtain ⟨hwithout, hother⟩ := hholder holder rfl
    refine .step hwithout ?_
    have hmem : v ∈ m.heap.links holder := List.mem_of_getElem? ht
    cases s with
    | inside holder' k' =>
      have hne : holder ≠ holder' := fun heq => hother (congrArg some heq.symm)
      simpa only [linksBut, if_neg hne] using hmem
    | _ => exact hmem

end Machine

end Rill
