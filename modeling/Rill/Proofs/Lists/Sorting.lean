-- SUMMARY: Sorting rearranges a list, stably and into order where the items have one; a failing sort does so, too.
import Mathlib.Data.List.Basic
import Rill.Proofs.Lists.Variables
import Rill.Proofs.Texts.Functions

/-!
# Sorting

Sorting puts one value after the other into those before it. Whatever the comparisons say, what is left is a
rearrangement of the values, and a failure is that of comparing two of them. Where all comparisons have a
result and the results are coherent, the values get into order, and those that tie stay in the order they had.
A failed comparison does not end the sort, so a sort that fails may have moved values.
-/

namespace Rill

namespace Heap

-- ---------------------------------------------------------------------------
-- Placing a value
-- ---------------------------------------------------------------------------

section Placing

variable {compare : Comparison} {v w : Value} {before : List Value} {failure : Option Failure}

theorem place_lt (h : compare v w = .ok (some .lt)) : place compare v (w :: before) failure =
    (w :: (place compare v before failure).1, (place compare v before failure).2) := by
  rw [place, h]

theorem place_ok {o : Option Ordering} (h : compare v w = .ok o) (ho : o ≠ some .lt) :
    place compare v (w :: before) failure = (v :: w :: before, failure) := by
  rw [place, h]
  rcases o with _ | (_ | _ | _)
  · rfl
  · exact (ho rfl).elim
  · rfl
  · rfl

theorem place_error {e : Failure} (h : compare v w = .error e) :
    place compare v (w :: before) failure = (v :: w :: before, failure <|> some e) := by
  rw [place, h]

/-- A value is placed among the others by what its comparison with the first of them says. -/
theorem place_cases (compare : Comparison) (v w : Value) (before : List Value) (failure : Option Failure) :
    (compare v w = .ok (some .lt) ∧ place compare v (w :: before) failure =
      (w :: (place compare v before failure).1, (place compare v before failure).2)) ∨
    (compare v w ≠ .ok (some .lt) ∧ (place compare v (w :: before) failure).1 = v :: w :: before ∧
      ((place compare v (w :: before) failure).2 = failure ∨
        ∃ e, compare v w = .error e ∧ (place compare v (w :: before) failure).2 = (failure <|> some e))) := by
  cases h : compare v w with
  | error e =>
    rw [place_error h]
    exact .inr ⟨nofun, rfl, .inr ⟨e, rfl, rfl⟩⟩
  | ok o =>
    by_cases ho : o = some .lt
    · subst ho
      exact .inl ⟨rfl, place_lt h⟩
    · rw [place_ok h ho]
      exact .inr ⟨fun heq => ho (Except.ok.inj heq), rfl, .inl rfl⟩

theorem place_perm (compare : Comparison) (v : Value) (before : List Value) (failure : Option Failure) :
    (place compare v before failure).1.Perm (v :: before) := by
  induction before with
  | nil => exact .refl _
  | cons w before ih =>
    rcases place_cases compare v w before failure with ⟨-, hplace⟩ | ⟨-, hplace, -⟩
    · rw [hplace]
      exact (ih.cons w).trans (.swap v w before)
    · rw [hplace]

/-- Renamed values are placed in the same way. -/
theorem place_map {f : Value → Value} (hf : ∀ w ∈ before, compare (f v) (f w) = compare v w) :
    place compare (f v) (before.map f) failure =
      ((place compare v before failure).1.map f, (place compare v before failure).2) := by
  induction before with
  | nil => rfl
  | cons w before ih =>
    have hw := hf w List.mem_cons_self
    have ih := ih fun u hu => hf u (List.mem_cons_of_mem w hu)
    rw [List.map_cons]
    cases h : compare v w with
    | error e => rw [place_error h, place_error (hw.trans h)]; rfl
    | ok o =>
      by_cases ho : o = some .lt
      · subst ho
        rw [place_lt h, place_lt (hw.trans h), ih]
        rfl
      · rw [place_ok h ho, place_ok (hw.trans h) ho]
        rfl

/-- Values that do not tie with the one placed keep their order among themselves, and the others stay behind
it. -/
theorem filter_place {p : Value → Bool} (hp : ∀ w ∈ before, compare v w = .ok (some .lt) → p v → ¬p w) :
    (place compare v before failure).1.filter p = (v :: before).filter p := by
  induction before with
  | nil => rfl
  | cons w before ih =>
    rcases place_cases compare v w before failure with ⟨hlt, hplace⟩ | ⟨-, hplace, -⟩
    · have ih := ih fun u hu => hp u (List.mem_cons_of_mem w hu)
      have hw := hp w List.mem_cons_self hlt
      rw [hplace]
      simp only [List.filter_cons, ih]
      by_cases hv : p v
      · simp [hv, hw hv]
      · simp [hv]
    · rw [hplace]

end Placing

-- ---------------------------------------------------------------------------
-- Placing one value after the other
-- ---------------------------------------------------------------------------

/-- The values placed one after the other, the last one first, and the first failure of a comparison. -/
def placed (compare : Comparison) (items : List Value) : List Value × Option Failure :=
  items.foldl (fun found v => place compare v found.1 found.2) ([], none)

section Placed

variable {compare : Comparison} {items : List Value}

theorem sorted_eq (compare : Comparison) (items : List Value) :
    sorted compare items = ((placed compare items).1.reverse, (placed compare items).2) := rfl

theorem placed_concat (compare : Comparison) (items : List Value) (v : Value) :
    placed compare (items ++ [v]) = place compare v (placed compare items).1 (placed compare items).2 := by
  rw [placed, List.foldl_append]
  rfl

theorem placed_perm (compare : Comparison) (items : List Value) : (placed compare items).1.Perm items := by
  induction items using List.reverseRecOn with
  | nil => exact .refl _
  | append_singleton items v ih =>
    rw [placed_concat]
    exact (place_perm ..).trans ((ih.cons v).trans (List.perm_append_singleton v items).symm)

/-- Sorting rearranges the values, whatever the comparisons say. -/
theorem sorted_perm (compare : Comparison) (items : List Value) : (sorted compare items).1.Perm items :=
  (List.reverse_perm _).trans (placed_perm compare items)

/-- Renamed values are sorted in the same way. -/
theorem sorted_map {f : Value → Value} (hf : ∀ a ∈ items, ∀ b ∈ items, compare (f a) (f b) = compare a b) :
    sorted compare (items.map f) = ((sorted compare items).1.map f, (sorted compare items).2) := by
  have hplaced : placed compare (items.map f) = ((placed compare items).1.map f, (placed compare items).2) := by
    induction items using List.reverseRecOn with
    | nil => rfl
    | append_singleton items v ih =>
      have ih := ih fun a ha b hb => hf a (List.mem_append_left _ ha) b (List.mem_append_left _ hb)
      rw [List.map_append, List.map_singleton, placed_concat, placed_concat, ih]
      refine place_map fun w hw => hf v (by simp) w (List.mem_append_left _ ?_)
      exact (placed_perm compare items).mem_iff.mp hw
  rw [sorted_eq, sorted_eq, hplaced, List.map_reverse]

/-- The sort is stable: values that satisfy a test stay in the order they had, if none comes before another. -/
theorem filter_sorted {p : Value → Bool}
    (hp : ∀ v ∈ items, ∀ w ∈ items, compare v w = .ok (some .lt) → p v → ¬p w) :
    (sorted compare items).1.filter p = items.filter p := by
  have hplaced : (placed compare items).1.filter p = (items.filter p).reverse := by
    induction items using List.reverseRecOn with
    | nil => rfl
    | append_singleton items v ih =>
      have hmem {w : Value} (hw : w ∈ items) := List.mem_append_left [v] hw
      have ih := ih fun a ha b hb => hp a (hmem ha) b (hmem hb)
      rw [placed_concat, filter_place fun w hw => hp v (by simp) w (hmem ((placed_perm compare items).mem_iff.mp hw))]
      rw [List.filter_cons, List.filter_append, List.reverse_append, ih]
      by_cases hv : p v <;> simp [hv]
  rw [sorted_eq, List.filter_reverse, hplaced, List.reverse_reverse]

end Placed

-- ---------------------------------------------------------------------------
-- Order
-- ---------------------------------------------------------------------------

/-- The value comes before the other one, or ties with it. -/
def Comparison.AtMost (compare : Comparison) (a b : Value) : Prop := ∃ o, compare a b = .ok (some o) ∧ o.isLE

/-- The results of comparing some values are coherent, as far as there are any. -/
structure Comparison.Coherent (compare : Comparison) (data : Value → Prop) : Prop where
  swap {a b : Value} {o : Ordering} : data a → data b → compare a b = .ok (some o) → compare b a = .ok (some o.swap)
  trans {a b c : Value} {o o' : Ordering} : data a → data b → data c → compare a b = .ok (some o) →
    compare b c = .ok (some o') → o.isLE → o'.isLE → compare a c = .ok (some (o.then o'))

section Order

variable {compare : Comparison} {data : Value → Prop} (hc : compare.Coherent data) {a b d v w : Value}
  {items before : List Value}
include hc

theorem Comparison.Coherent.atMost_trans (ha : data a) (hb : data b) (hd : data d) (hab : compare.AtMost a b)
    (hbd : compare.AtMost b d) : compare.AtMost a d := by
  obtain ⟨o, ho, hle⟩ := hab
  obtain ⟨o', ho', hle'⟩ := hbd
  refine ⟨o.then o', hc.trans ha hb hd ho ho' hle hle', ?_⟩
  cases o with
  | lt => rfl
  | eq => exact hle'
  | gt => cases hle

/-- Of two values that can be compared, one comes before the other one or ties with it. -/
theorem Comparison.Coherent.atMost_of_not_lt (ha : data a) (hb : data b) {o : Ordering}
    (ho : compare a b = .ok (some o)) (hne : o ≠ .lt) : compare.AtMost b a := by
  refine ⟨o.swap, hc.swap ha hb ho, ?_⟩
  cases o with
  | lt => exact (hne rfl).elim
  | eq => rfl
  | gt => rfl

/-- A value that is placed among values in order is in order with them. -/
theorem place_pairwise (hv : data v) (hbefore : ∀ w ∈ before, data w)
    (hcompare : ∀ w ∈ before, ∃ o, compare v w = .ok (some o))
    (hordered : before.Pairwise fun a b => compare.AtMost b a) (failure : Option Failure) :
    (place compare v before failure).1.Pairwise (fun a b => compare.AtMost b a) ∧
      (place compare v before failure).2 = failure := by
  induction before with
  | nil => exact ⟨List.pairwise_singleton .., rfl⟩
  | cons w before ih =>
    obtain ⟨o, ho⟩ := hcompare w List.mem_cons_self
    have hw := hbefore w List.mem_cons_self
    obtain ⟨hfirst, hrest⟩ := List.pairwise_cons.mp hordered
    by_cases hlt : o = .lt
    · subst hlt
      obtain ⟨hpairwise, hfailure⟩ := ih (fun u hu => hbefore u (List.mem_cons_of_mem w hu))
        (fun u hu => hcompare u (List.mem_cons_of_mem w hu)) hrest
      rw [place_lt ho]
      refine ⟨List.pairwise_cons.mpr ⟨fun u hu => ?_, hpairwise⟩, hfailure⟩
      rcases List.mem_cons.mp ((place_perm ..).mem_iff.mp hu) with rfl | hu
      · exact ⟨.lt, ho, rfl⟩
      · exact hfirst u hu
    · rw [place_ok ho fun heq => hlt (Option.some.inj heq)]
      have hwv := hc.atMost_of_not_lt hv hw ho hlt
      refine ⟨List.pairwise_cons.mpr ⟨fun u hu => ?_, hordered⟩, rfl⟩
      rcases List.mem_cons.mp hu with rfl | hmem
      · exact hwv
      · exact hc.atMost_trans (hbefore u hu) hw hv (hfirst u hmem) hwv

variable (hitems : ∀ v ∈ items, data v)
include hitems

/-- Values that are in order stay where they are. -/
theorem sorted_of_pairwise (hordered : items.Pairwise compare.AtMost) : sorted compare items = (items, none) := by
  have hplaced : placed compare items = (items.reverse, none) := by
    induction items using List.reverseRecOn with
    | nil => rfl
    | append_singleton items v ih =>
      obtain ⟨hinit, -, hlast⟩ := List.pairwise_append.mp hordered
      have hmem {w : Value} (hw : w ∈ items) : data w := hitems w (List.mem_append_left _ hw)
      rw [placed_concat, ih (fun w hw => hmem hw) hinit, List.reverse_append]
      cases hrev : items.reverse with
      | nil => rfl
      | cons w before =>
        have hw : w ∈ items := List.mem_reverse.mp (hrev ▸ List.mem_cons_self)
        obtain ⟨o, ho, hle⟩ := hlast w hw v List.mem_cons_self
        have hvw := hc.swap (hmem hw) (hitems v (by simp)) ho
        have hne : some o.swap ≠ some .lt := by
          cases o with
          | gt => cases hle
          | _ => nofun
        rw [place_ok hvw hne]
        rfl
  rw [sorted_eq, hplaced, List.reverse_reverse]

variable (hpairs : items.Pairwise fun a b => ∃ o, compare a b = .ok (some o))
include hpairs

theorem placed_pairwise : (placed compare items).1.Pairwise (fun a b => compare.AtMost b a) ∧
    (placed compare items).2 = none := by
  induction items using List.reverseRecOn with
  | nil => exact ⟨.nil, rfl⟩
  | append_singleton items v ih =>
    obtain ⟨hinit, -, hlast⟩ := List.pairwise_append.mp hpairs
    have hmem {w : Value} (hw : w ∈ items) : data w := hitems w (List.mem_append_left _ hw)
    obtain ⟨hordered, hnone⟩ := ih (fun w hw => hmem hw) hinit
    have hv := hitems v (by simp)
    have hperm := placed_perm compare items
    rw [placed_concat, ← hnone]
    refine place_pairwise hc hv (fun w hw => hmem (hperm.mem_iff.mp hw)) (fun w hw => ?_) hordered _
    have hw := hperm.mem_iff.mp hw
    obtain ⟨o, ho⟩ := hlast w hw v List.mem_cons_self
    exact ⟨_, hc.swap (hmem hw) hv ho⟩

/-- Values that can be compared get into order. -/
theorem sorted_pairwise : (sorted compare items).1.Pairwise compare.AtMost ∧ (sorted compare items).2 = none := by
  obtain ⟨hordered, hnone⟩ := placed_pairwise hc hitems hpairs
  exact ⟨List.pairwise_reverse.mpr hordered, hnone⟩

/-- The test compares neighbours only, but it is passed by values in order and by no others. -/
theorem isSorted_iff : ∃ r, isSorted compare items = .ok r ∧ (r = true ↔ items.Pairwise compare.AtMost) := by
  induction items with
  | nil => exact ⟨true, rfl, by simp⟩
  | cons a items ih =>
    cases items with
    | nil => exact ⟨true, rfl, by simp⟩
    | cons b rest =>
      obtain ⟨hfirst, hrest⟩ := List.pairwise_cons.mp hpairs
      obtain ⟨o, ho⟩ := hfirst b List.mem_cons_self
      have ha := hitems a List.mem_cons_self
      have hb := hitems b (List.mem_cons_of_mem a List.mem_cons_self)
      obtain ⟨r, hr, hiff⟩ := ih (fun v hv => hitems v (List.mem_cons_of_mem a hv)) hrest
      by_cases hgt : o = .gt
      · subst hgt
        refine ⟨false, by simp [isSorted, ho, bind, Except.bind, pure, Except.pure], by simp, fun hordered => ?_⟩
        obtain ⟨o', ho', hle⟩ := (List.pairwise_cons.mp hordered).1 b List.mem_cons_self
        cases ho.symm.trans ho'
        cases hle
      · have hab : compare.AtMost a b := ⟨o, ho, by cases o <;> first | rfl | exact (hgt rfl).elim⟩
        refine ⟨r, by simp [isSorted, ho, hgt, hr, bind, Except.bind], hiff.trans ?_⟩
        rw [List.pairwise_cons (a := a)]
        refine ⟨fun hordered => ⟨fun x hx => ?_, hordered⟩, And.right⟩
        rcases List.mem_cons.mp hx with rfl | hmem
        · exact hab
        · exact hc.atMost_trans ha hb (hitems x (List.mem_cons_of_mem a hx)) hab
            ((List.pairwise_cons.mp hordered).1 x hmem)

end Order

-- ---------------------------------------------------------------------------
-- Sorting variables
-- ---------------------------------------------------------------------------

/-- What stands for a value compares like the value. -/
theorem order_resolve {h : Heap} {a b : Value} (ha : (h.resolve a).isCell = false) (hb : (h.resolve b).isCell = false) :
    h.order (h.resolve a) (h.resolve b) = h.order a b := by
  have hname {v : Value} (hv : (h.resolve v).isCell = false) : h.typeName (h.resolve v) = h.typeName v := by
    rw [typeName, typeName, classOf, classOf, resolve_of_isCell hv]
  rw [order, order, pairBound, orderWithin, orderWithin, resolve_of_isCell ha, resolve_of_isCell hb, hname ha, hname hb]

end Heap

section Variables

open Library

variable {m : Machine} {c : CellId} {items : Array Value}

theorem sortItems_eq (h : Heap) (items : Array Value) : sortItems h items =
    ((Heap.sorted h.order items.toList).1.toArray,
      (Heap.sorted h.order items.toList).2.elim (.ok .null) .error) := by
  rw [sortItems]
  rcases Heap.sorted h.order items.toList with ⟨sorted, _ | e⟩ <;> rfl

/-- The variable has the values in the order that the sort of its items comes to, also if the sort fails. -/
theorem Machine.HoldsList.sort_run (hm : m.HoldsList c items) :
    ∃ m', m.Edits c (Heap.sorted m.heap.order items.toList).1.toArray m' ∧
      match (Heap.sorted m.heap.order items.toList).2 with
      | none => list .sort #[.cell c] m = .ok .null m'
      | some e => list .sort #[.cell c] m = .error e m' := by
  have hmem (raw : Array Value) : ∀ w ∈ (sortItems m.heap raw).1.toList, w ∈ raw.toList := by
    intro w hw
    rw [sortItems_eq] at hw
    exact (Heap.sorted_perm ..).mem_iff.mp hw
  obtain ⟨raw, m', hitems, -, hedits, -, hrun⟩ :=
    editList_run hm (sortItems m.heap) fun raw _ w hw => .inl (hmem raw w hw)
  have hplain {w : Value} (hw : w ∈ raw.toList) : (m.heap.resolve w).isCell = false := by
    have hmem : m.heap.resolve w ∈ items.toList := by
      rw [← hitems, Array.toList_map]
      exact List.mem_map_of_mem hw
    exact (hm.items_known hmem).2
  have hsorted : Heap.sorted m.heap.order items.toList =
      ((Heap.sorted m.heap.order raw.toList).1.map m.heap.resolve, (Heap.sorted m.heap.order raw.toList).2) := by
    rw [← hitems, Array.toList_map]
    exact Heap.sorted_map fun a ha b hb => Heap.order_resolve (hplain ha) (hplain hb)
  have hsort : list .sort #[.cell c] m = editList (.cell c) (sortItems m.heap) m := Run.bind_heap _ m
  rw [sortItems_eq] at hedits hrun
  rw [hsorted, hsort, hrun]
  refine ⟨m', by simpa using hedits, ?_⟩
  cases (Heap.sorted m.heap.order raw.toList).2 <;> rfl

end Variables

end Rill
