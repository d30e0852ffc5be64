-- SUMMARY: Comparisons end unless both values contain something that contains itself.
import Mathlib.Data.Fintype.Card
import Mathlib.Data.Fintype.Prod
import Mathlib.Order.WellFounded
import Rill.Heap.Compare

/-!
# The end of comparisons

Equality and order go through what two values hold side by side and remember no pair that they have been
at. The bound on open pairs is exact: what it cuts off would not end with any other bound, and what it does
not cut off comes out as without it. A comparison ends if one of its sides does not contain itself.
-/

namespace Rill

/-- The values that containers are compared by. -/
def Content.parts : Content → List Value
  | .list items => items.toList
  | .table entries => entries.values.toList
  | _ => []

namespace Heap

-- ---------------------------------------------------------------------------
-- Rounds on a finite type
-- ---------------------------------------------------------------------------

section Rounds

variable {α V : Type} {undecided : V} {f g k : α → V}

/-- The second function agrees with the first one on what that has decided. -/
def Refines (undecided : V) (f g : α → V) : Prop := ∀ a, f a ≠ undecided → g a = f a

theorem Refines.trans (hfg : Refines undecided f g) (hgk : Refines undecided g k) :
    Refines undecided f k := by
  intro a ha
  have hg := hfg a ha
  exact (hgk a (hg ▸ ha)).trans hg

theorem Refines.of_le {f : Nat → α → V} (h : ∀ n, Refines undecided (f n) (f (n + 1))) {n m : Nat}
    (hle : n ≤ m) : Refines undecided (f n) (f m) := by
  induction m, hle using Nat.le_induction with
  | base => exact fun _ _ => rfl
  | succ m _ ih => exact ih.trans (h m)

variable [Fintype α]

open Classical in
/-- What a function on a finite type has decided. -/
noncomputable def decided (undecided : V) (f : α → V) : Finset α :=
  Finset.univ.filter fun a => f a ≠ undecided

@[simp]
theorem mem_decided {a : α} : a ∈ decided undecided f ↔ f a ≠ undecided := by
  simp [decided]

theorem Refines.subset (h : Refines undecided f g) : decided undecided f ⊆ decided undecided g := by
  intro a ha
  rw [mem_decided] at ha ⊢
  exact (h a ha).symm ▸ ha

theorem Refines.eq_of_card (h : Refines undecided f g)
    (hcard : (decided undecided g).card ≤ (decided undecided f).card) : f = g := by
  have heq := Finset.eq_of_subset_of_card_le h.subset hcard
  funext a
  by_cases ha : f a = undecided
  · have hnot : a ∉ decided undecided g := by simp [← heq, ha]
    rw [mem_decided, not_not] at hnot
    exact ha.trans hnot.symm
  · exact (h a ha).symm

/-- Rounds of which each refines the one before, and which change nothing any more once a round has changed
nothing, are over after as many rounds as there are elements. -/
theorem Refines.settled {f : Nat → α → V} (hgrows : ∀ n, Refines undecided (f n) (f (n + 1)))
    (hnext : ∀ n, f n = f (n + 1) → f (n + 1) = f (n + 2)) {n : Nat} (hn : Fintype.card α ≤ n) :
    f n = f (Fintype.card α) := by
  have hmono : Monotone fun n => (decided undecided (f n)).card :=
    monotone_nat_of_le_succ fun n => Finset.card_le_card (hgrows n).subset
  have hcard : (decided undecided (f n)).card = (decided undecided (f (Fintype.card α))).card := by
    refine Nat.stabilises_of_monotone hmono (fun m => Finset.card_le_univ _) (fun m hm => ?_) hn
    rw [hnext m ((hgrows m).eq_of_card hm.ge)]
  exact ((Refines.of_le hgrows hn).eq_of_card hcard.le).symm

end Rounds

-- ---------------------------------------------------------------------------
-- Values that contain themselves
-- ---------------------------------------------------------------------------

/-- The second object holds the first one as a part. -/
def Inside (h : Heap) (j i : ObjectId) : Prop :=
  ∃ c, h.content? i = some c ∧ ∃ v ∈ c.parts, h.resolve v = .object j

/-- Somewhere in the value there is an object that contains itself. -/
def Cyclic (h : Heap) (v : Value) : Prop :=
  ∃ i, h.resolve v = .object i ∧ ∃ j, Relation.ReflTransGen h.Inside j i ∧ Relation.TransGen h.Inside j j

/-- Whichever way one goes from the value into its parts, there is an end. -/
def Founded (h : Heap) (v : Value) : Prop := ∀ i, h.resolve v = .object i → Acc h.Inside i

theorem content?_outside {h : Heap} {i : ObjectId} (hi : ¬i.index < h.objects.size) : h.content? i = none := by
  simp [content?, object?, hi]

/-- A heap is finite, so that a way that has no end comes back to an object. -/
theorem founded_of_not_cyclic {h : Heap} {v : Value} (hv : ¬h.Cyclic v) : h.Founded v := by
  intro i hi
  let Below := { j : ObjectId // Relation.ReflTransGen h.Inside j i ∧ j.index < h.objects.size }
  have hempty {j : ObjectId} (hj : ¬j.index < h.objects.size) : Acc h.Inside j := by
    refine ⟨_, fun k hk => ?_⟩
    obtain ⟨c, hc, -⟩ := hk
    rw [content?_outside hj] at hc
    cases hc
  have hfinite : Finite Below :=
    Finite.of_injective (fun j : Below => (⟨j.1.index, j.2.2⟩ : Fin h.objects.size)) fun j k hjk => by
      have hindex : j.1.index = k.1.index := congrArg Fin.val hjk
      exact Subtype.ext (by cases hj : j.1; cases hk : k.1; simp_all)
  have hwf : WellFounded fun j k : Below => Relation.TransGen h.Inside j.1 k.1 := by
    refine @Finite.wellFounded_of_trans_of_irrefl _ hfinite _ ⟨fun _ _ _ => .trans⟩ ⟨fun j hj => ?_⟩
    exact hv ⟨i, hi, j.1, j.2.1, hj⟩
  have hbelow (j : Below) : Acc h.Inside j.1 := by
    induction j using hwf.induction with
    | _ j ih =>
      refine ⟨_, fun k hk => ?_⟩
      by_cases hsize : k.index < h.objects.size
      · exact ih ⟨k, .head hk j.2.1, hsize⟩ (.single hk)
      · exact hempty hsize
  by_cases hsize : i.index < h.objects.size
  · exact hbelow ⟨i, .refl, hsize⟩
  · exact hempty hsize

-- ---------------------------------------------------------------------------
-- Comparisons with a bound
-- ---------------------------------------------------------------------------

/-- A comparison, by the number of pairs of objects that may be open. -/
structure IsComparison (h : Heap) {V : Type} (undecided : V) (compare : Nat → Value → Value → V) : Prop where
  /-- What is decided with some bound is decided so with a greater one. -/
  grows : ∀ n a, Refines undecided (compare n a) (compare (n + 1) a)
  /-- A greater bound matters only if it matters one level down. -/
  next : ∀ n, compare n = compare (n + 1) → compare (n + 1) = compare (n + 2)
  /-- All depends on the pairs of objects that there are. -/
  pairs : ∀ n m, (∀ i j, i.index < h.objects.size → j.index < h.objects.size →
    compare (n + 1) (.object i) (.object j) = compare (m + 1) (.object i) (.object j)) →
    compare (n + 1) = compare (m + 1)
  /-- Only a pair of objects can be undecided. -/
  objects : ∀ n a b, compare n a b = undecided →
    ∃ i j, h.resolve a = .object i ∧ h.resolve b = .object j ∧ compare n (.object i) (.object j) = undecided
  /-- A pair of objects is undecided on account of a pair inside them. -/
  inside : ∀ n i j, compare (n + 1) (.object i) (.object j) = undecided →
    ∃ i' j', h.Inside i' i ∧ h.Inside j' j ∧ compare n (.object i') (.object j') = undecided

section Comparison

variable {h : Heap} {V : Type} {undecided : V} {compare : Nat → Value → Value → V}

/-- The bound is great enough. -/
theorem IsComparison.settled (hcompare : h.IsComparison undecided compare) {n : Nat} (hn : h.pairBound ≤ n) :
    compare n = compare h.pairBound := by
  let onPairs (n : Nat) (p : Fin h.objects.size × Fin h.objects.size) : V :=
    compare (n + 1) (.object ⟨p.1⟩) (.object ⟨p.2⟩)
  have hwhole {n m : Nat} (heq : onPairs n = onPairs m) : compare (n + 1) = compare (m + 1) :=
    hcompare.pairs n m fun i j hi hj => congrFun heq (⟨i.index, hi⟩, ⟨j.index, hj⟩)
  have hgrows (n : Nat) : Refines undecided (onPairs n) (onPairs (n + 1)) :=
    fun p => hcompare.grows (n + 1) (.object ⟨p.1⟩) (.object ⟨p.2⟩)
  have hnext (n : Nat) (heq : onPairs n = onPairs (n + 1)) : onPairs (n + 1) = onPairs (n + 2) := by
    funext p
    exact congrFun₂ (hcompare.next (n + 1) (hwhole heq)) _ _
  have hcard : Fintype.card (Fin h.objects.size × Fin h.objects.size) = h.objects.size * h.objects.size := by
    simp
  unfold pairBound at hn ⊢
  obtain ⟨m, rfl⟩ : ∃ m, n = m + 1 := ⟨n - 1, by omega⟩
  refine hwhole ?_
  rw [← hcard]
  exact Refines.settled hgrows hnext (by omega)

/-- What some bound decides, the bound of the heap decides the same way. -/
theorem IsComparison.decides (hcompare : h.IsComparison undecided compare) {n : Nat} {a b : Value}
    (hn : compare n a b ≠ undecided) : compare h.pairBound a b = compare n a b := by
  rcases Nat.le_total n h.pairBound with hle | hle
  · exact Refines.of_le (fun n => hcompare.grows n a) hle b hn
  · rw [hcompare.settled hle]

theorem IsComparison.undecided_iff (hcompare : h.IsComparison undecided compare) {a b : Value} :
    compare h.pairBound a b = undecided ↔ ∀ n, compare n a b = undecided := by
  refine ⟨fun hundecided n => ?_, fun hall => hall _⟩
  by_contra hn
  exact hn ((hcompare.decides hn).symm.trans hundecided)

/-- An undecided pair of objects has an undecided pair inside it, with the same bound. -/
theorem IsComparison.descends (hcompare : h.IsComparison undecided compare) {i j : ObjectId}
    (hij : compare h.pairBound (.object i) (.object j) = undecided) :
    ∃ i' j', h.Inside i' i ∧ h.Inside j' j ∧ compare h.pairBound (.object i') (.object j') = undecided :=
  hcompare.inside _ i j ((congrFun₂ (hcompare.settled (Nat.le_succ _)) _ _).trans hij)

/-- A comparison is decided if one of its sides is founded. -/
theorem IsComparison.ends (hcompare : h.IsComparison undecided compare) {a b : Value}
    (hab : h.Founded a ∨ h.Founded b) : compare h.pairBound a b ≠ undecided := by
  intro hundecided
  obtain ⟨i, j, ha, hb, hij⟩ := hcompare.objects _ a b hundecided
  rcases hab with hleft | hright
  · have hacc := hleft i ha
    clear ha hb
    induction hacc generalizing j with
    | intro i _ ih =>
      obtain ⟨i', j', hi, -, hinside⟩ := hcompare.descends hij
      exact ih i' hi j' hinside
  · have hacc := hright j hb
    clear ha hb
    induction hacc generalizing i with
    | intro j _ ih =>
      obtain ⟨i', j', -, hj, hinside⟩ := hcompare.descends hij
      exact ih j' hj i' hinside

end Comparison

-- ---------------------------------------------------------------------------
-- Equality
-- ---------------------------------------------------------------------------

section Equality

variable {h : Heap} {n m : Nat} {a b : Value} {i j : ObjectId}

/-- Where one side is no object, the bound does not matter. -/
theorem equalsWithin_scalar (hab : ¬∃ i j, h.resolve a = .object i ∧ h.resolve b = .object j) :
    h.equalsWithin n a b = some (scalarEquals (h.resolve a) (h.resolve b)) := by
  cases n <;> unfold equalsWithin <;> split
  · exact (hab ⟨_, _, ‹_›, ‹_›⟩).elim
  · rfl
  · exact (hab ⟨_, _, ‹_›, ‹_›⟩).elim
  · rfl

theorem equalsWithin_self : h.equalsWithin n (.object i) (.object i) = some true := by
  cases n <;> exact if_pos rfl

theorem equalsWithin_zero (hij : i ≠ j) : h.equalsWithin 0 (.object i) (.object j) = none := if_neg hij

/-- Two different objects are equal if what they hold is. -/
theorem equalsWithin_succ (hij : i ≠ j) :
    h.equalsWithin (n + 1) (.object i) (.object j) =
      match h.content? i, h.content? j with
      | some x, some y => contentEquals (h.equalsWithin n) x y
      | _, _ => some false := by
  exact if_neg hij

theorem allDecided_refines {α : Type} {test test' : α → Option Bool} {as : List α}
    (hrefines : Refines none test test') (has : allDecided test as ≠ none) :
    allDecided test' as = allDecided test as := by
  induction as with
  | nil => rfl
  | cons a as ih =>
    cases ha : test a with
    | none => simp [allDecided, ha] at has
    | some decided =>
      have ha' : test' a = some decided := (hrefines a (by simp [ha])).trans ha
      cases decided with
      | false => simp [allDecided, ha, ha']
      | true =>
        simp only [allDecided, ha, ha'] at has ⊢
        exact ih has

/-- The contents of objects are compared as far as the values in them are. -/
theorem contentEquals_refines {equal equal' : Value → Value → Option Bool}
    (hrefines : ∀ a, Refines none (equal a) (equal' a)) (x : Content) :
    Refines none (contentEquals equal x) (contentEquals equal' x) := by
  intro y hxy
  cases x with
  | list xs =>
    cases y with
    | list ys =>
      simp only [contentEquals] at hxy ⊢
      split at hxy
      · rw [if_pos ‹_›, if_pos ‹_›]
        exact allDecided_refines (fun p => hrefines p.1 p.2) hxy
      · rw [if_neg ‹_›, if_neg ‹_›]
    | _ => rfl
  | table xs =>
    cases y with
    | table ys =>
      simp only [contentEquals] at hxy ⊢
      split at hxy
      · rw [if_pos ‹_›, if_pos ‹_›]
        refine allDecided_refines (fun p hp => ?_) hxy
        cases hfind : OrderedMap.find? ys p.1 with
        | none => rfl
        | some w =>
          simp only [hfind, Option.elim] at hp ⊢
          exact hrefines _ _ hp
      · rw [if_neg ‹_›, if_neg ‹_›]
    | _ => rfl
  | set xs => cases y <;> rfl
  | array m => cases y <;> rfl
  | _ => rfl

theorem allDecided_none {α : Type} {test : α → Option Bool} {as : List α} (has : allDecided test as = none) :
    ∃ a ∈ as, test a = none := by
  induction as with
  | nil => cases has
  | cons a as ih =>
    cases ha : test a with
    | none => exact ⟨a, List.mem_cons_self, ha⟩
    | some decided =>
      cases decided with
      | false => simp [allDecided, ha] at has
      | true =>
        simp only [allDecided, ha] at has
        obtain ⟨b, hb, hnone⟩ := ih has
        exact ⟨b, List.mem_cons_of_mem a hb, hnone⟩

theorem mem_values {entries : Table} {entry : Key × Value} (hmem : entry ∈ entries.entries.toList) :
    entry.2 ∈ (Content.table entries).parts := by
  rw [Content.parts, OrderedMap.values, Array.toList_map]
  exact List.mem_map.mpr ⟨_, hmem, rfl⟩

theorem find?_mem_values {entries : Table} {key : Key} {v : Value} (hfind : entries.find? key = some v) :
    v ∈ (Content.table entries).parts := by
  obtain ⟨entry, hentry, rfl⟩ := Option.map_eq_some_iff.mp hfind
  exact mem_values (Array.mem_toList_iff.mpr (Array.mem_of_find?_eq_some hentry))

theorem contentEquals_none {equal : Value → Value → Option Bool} {x y : Content}
    (hxy : contentEquals equal x y = none) : ∃ a ∈ x.parts, ∃ b ∈ y.parts, equal a b = none := by
  unfold contentEquals at hxy
  split at hxy
  · split at hxy
    · obtain ⟨⟨a, b⟩, hmem, hab⟩ := allDecided_none hxy
      rw [Array.toList_zip] at hmem
      exact ⟨a, (List.of_mem_zip hmem).1, b, (List.of_mem_zip hmem).2, hab⟩
    · cases hxy
  · rename_i xs ys
    split at hxy
    · obtain ⟨⟨key, a⟩, hmem, hab⟩ := allDecided_none hxy
      cases hfind : ys.find? key with
      | none => simp [hfind] at hab
      | some b =>
        simp only [hfind, Option.elim] at hab
        exact ⟨a, mem_values hmem, b, find?_mem_values hfind, hab⟩
    · cases hxy
  · cases hxy
  · cases hxy
  · cases hxy

/-- Two bounds give the same result if they do for the different objects that the values are. -/
theorem equalsWithin_congr (hpairs : ∀ i j, i ≠ j → h.resolve a = .object i → h.resolve b = .object j →
    h.equalsWithin n (.object i) (.object j) = h.equalsWithin m (.object i) (.object j)) :
    h.equalsWithin n a b = h.equalsWithin m a b := by
  by_cases hobjects : ∃ i j, h.resolve a = .object i ∧ h.resolve b = .object j
  · obtain ⟨i, j, ha, hb⟩ := hobjects
    rw [equalsWithin_objects ha hb, equalsWithin_objects ha hb]
    by_cases hij : i = j
    · rw [hij, equalsWithin_self, equalsWithin_self]
    · exact hpairs i j hij ha hb
  · rw [equalsWithin_scalar hobjects, equalsWithin_scalar hobjects]

theorem equalsWithin_none (hnone : h.equalsWithin n a b = none) :
    ∃ i j, h.resolve a = .object i ∧ h.resolve b = .object j ∧
      h.equalsWithin n (.object i) (.object j) = none := by
  by_cases hobjects : ∃ i j, h.resolve a = .object i ∧ h.resolve b = .object j
  · obtain ⟨i, j, ha, hb⟩ := hobjects
    exact ⟨i, j, ha, hb, equalsWithin_objects ha hb ▸ hnone⟩
  · rw [equalsWithin_scalar hobjects] at hnone
    cases hnone

theorem equalsWithin_grows (n : Nat) (a : Value) :
    Refines none (h.equalsWithin n a) (h.equalsWithin (n + 1) a) := by
  induction n generalizing a with
  | zero =>
    intro b hab
    refine equalsWithin_congr fun i j hij ha hb => ?_
    rw [equalsWithin_objects ha hb] at hab
    exact (hab (equalsWithin_zero hij)).elim
  | succ n ih =>
    intro b hab
    refine equalsWithin_congr fun i j hij ha hb => ?_
    rw [equalsWithin_objects ha hb, equalsWithin_succ hij] at hab
    rw [equalsWithin_succ hij, equalsWithin_succ hij]
    split at hab
    · exact contentEquals_refines ih _ _ hab
    · rfl

theorem equalsWithin_comparison : h.IsComparison none h.equalsWithin where
  grows := equalsWithin_grows
  next n heq := by
    funext a b
    refine equalsWithin_congr fun i j hij _ _ => ?_
    rw [equalsWithin_succ hij, equalsWithin_succ hij, heq]
  pairs n m hpairs := by
    funext a b
    refine equalsWithin_congr fun i j hij _ _ => ?_
    by_cases hi : i.index < h.objects.size
    · by_cases hj : j.index < h.objects.size
      · exact hpairs i j hi hj
      · rw [equalsWithin_succ hij, equalsWithin_succ hij, content?_outside hj]
        cases h.content? i <;> rfl
    · rw [equalsWithin_succ hij, equalsWithin_succ hij, content?_outside hi]
  objects n a b := equalsWithin_none
  inside n i j hnone := by
    have hij : i ≠ j := by
      rintro rfl
      rw [equalsWithin_self] at hnone
      cases hnone
    rw [equalsWithin_succ hij] at hnone
    split at hnone
    · rename_i x y hx hy
      obtain ⟨a, ha, b, hb, hab⟩ := contentEquals_none hnone
      obtain ⟨i', j', hi', hj', hinside⟩ := equalsWithin_none hab
      exact ⟨i', j', ⟨x, hx, a, ha, hi'⟩, ⟨y, hy, b, hb, hj'⟩, hinside⟩
    · cases hnone

end Equality

-- ---------------------------------------------------------------------------
-- Order
-- ---------------------------------------------------------------------------

section Order

variable {h : Heap} {n m : Nat} {a b : Value} {i j : ObjectId}

/-- A comparison that is cut off. -/
abbrev cutOff : Except Failure (Option Ordering) := .error Fault.endless

/-- Where one side is no object, the bound does not matter. -/
theorem orderWithin_scalar (hab : ¬∃ i j, h.resolve a = .object i ∧ h.resolve b = .object j) :
    h.orderWithin n a b = h.orderWithin 0 a b := by
  cases n with
  | zero => rfl
  | succ n =>
    simp only [orderWithin]
    cases ha : h.resolve a <;> cases hb : h.resolve b
    case object.object i j => exact (hab ⟨i, j, ha, hb⟩).elim
    all_goals rfl

/-- Where one side is no object, the values have an order or none is given to their types. -/
theorem orderWithin_scalar_cases (hab : ¬∃ i j, h.resolve a = .object i ∧ h.resolve b = .object j) :
    (∃ o, h.orderWithin n a b = .ok o) ∨
      h.orderWithin n a b = .error (Fault.invalidOperands "<=>" (h.typeName a) (h.typeName b)) := by
  rw [orderWithin_scalar hab]
  simp only [orderWithin]
  split
  case h_7 i j ha hb => exact (hab ⟨i, j, ha, hb⟩).elim
  case h_8 => exact .inr rfl
  all_goals exact .inl ⟨_, rfl⟩

/-- Two lists are in the order of what they hold, or cut off; other objects have no order. -/
theorem orderWithin_pair (n : Nat) :
    h.orderWithin n (.object i) (.object j) =
      match h.content? i, h.content? j with
      | some (.list x), some (.list y) =>
        match n with
        | 0 => cutOff
        | n + 1 => listOrder (h.orderWithin n) x.toList y.toList
      | _, _ => .error (Fault.invalidOperands "<=>" (h.typeName (.object i)) (h.typeName (.object j))) := by
  cases n <;> (unfold orderWithin; rfl)

theorem orderWithin_succ :
    h.orderWithin (n + 1) (.object i) (.object j) =
      match h.content? i, h.content? j with
      | some (.list x), some (.list y) => listOrder (h.orderWithin n) x.toList y.toList
      | _, _ => .error (Fault.invalidOperands "<=>" (h.typeName (.object i)) (h.typeName (.object j))) :=
  orderWithin_pair (n + 1)

theorem orderWithin_zero :
    h.orderWithin 0 (.object i) (.object j) =
      match h.content? i, h.content? j with
      | some (.list _), some (.list _) => cutOff
      | _, _ => .error (Fault.invalidOperands "<=>" (h.typeName (.object i)) (h.typeName (.object j))) :=
  orderWithin_pair 0

theorem listOrder_refines {order order' : Value → Value → Except Failure (Option Ordering)}
    (hrefines : ∀ a, Refines cutOff (order a) (order' a)) (x : List Value) :
    Refines cutOff (listOrder order x) (listOrder order' x) := by
  induction x with
  | nil => intro y _; cases y <;> rfl
  | cons a x ih =>
    intro y hxy
    cases y with
    | nil => rfl
    | cons b y =>
      have hab : order a b ≠ cutOff := by
        intro hcut
        simp [listOrder, hcut, cutOff, bind, Except.bind] at hxy
      simp only [listOrder, hrefines a b hab] at hxy ⊢
      cases horder : order a b with
      | error e => rfl
      | ok o =>
        simp only [horder, bind, Except.bind] at hxy ⊢
        split at hxy
        · exact ih y hxy
        · rfl

theorem listOrder_error {order : Value → Value → Except Failure (Option Ordering)} {x y : List Value} {e : Failure}
    (hxy : listOrder order x y = .error e) : ∃ a ∈ x, ∃ b ∈ y, order a b = .error e := by
  induction x generalizing y with
  | nil => cases y <;> cases hxy
  | cons a x ih =>
    cases y with
    | nil => cases hxy
    | cons b y =>
      simp only [listOrder] at hxy
      cases horder : order a b with
      | error e' =>
        rw [horder] at hxy
        exact ⟨a, List.mem_cons_self, b, List.mem_cons_self, horder.trans hxy⟩
      | ok o =>
        simp only [horder, bind, Except.bind] at hxy
        split at hxy
        · obtain ⟨a', ha', b', hb', he⟩ := ih hxy
          exact ⟨a', List.mem_cons_of_mem a ha', b', List.mem_cons_of_mem b hb', he⟩
        · cases hxy

/-- Two bounds give the same result if they do for the objects that the values are. -/
theorem orderWithin_congr (hpairs : ∀ i j, h.resolve a = .object i → h.resolve b = .object j →
    h.orderWithin n (.object i) (.object j) = h.orderWithin m (.object i) (.object j)) :
    h.orderWithin n a b = h.orderWithin m a b := by
  by_cases hobjects : ∃ i j, h.resolve a = .object i ∧ h.resolve b = .object j
  · obtain ⟨i, j, ha, hb⟩ := hobjects
    rw [orderWithin_objects ha hb, orderWithin_objects ha hb]
    exact hpairs i j ha hb
  · rw [orderWithin_scalar hobjects, orderWithin_scalar (n := m) hobjects]

theorem orderWithin_cutOff (hcut : h.orderWithin n a b = cutOff) :
    ∃ i j, h.resolve a = .object i ∧ h.resolve b = .object j ∧
      h.orderWithin n (.object i) (.object j) = cutOff := by
  by_cases hobjects : ∃ i j, h.resolve a = .object i ∧ h.resolve b = .object j
  · obtain ⟨i, j, ha, hb⟩ := hobjects
    exact ⟨i, j, ha, hb, orderWithin_objects ha hb ▸ hcut⟩
  · rcases orderWithin_scalar_cases (n := n) hobjects with ⟨o, hok⟩ | herror
    · cases hcut.symm.trans hok
    · cases hcut.symm.trans herror

theorem orderWithin_grows (n : Nat) (a : Value) :
    Refines cutOff (h.orderWithin n a) (h.orderWithin (n + 1) a) := by
  induction n generalizing a with
  | zero =>
    intro b hab
    refine orderWithin_congr fun i j ha hb => ?_
    rw [orderWithin_objects ha hb, orderWithin_zero] at hab
    rw [orderWithin_zero, orderWithin_succ]
    split at hab
    · exact (hab rfl).elim
    · rfl
  | succ n ih =>
    intro b hab
    refine orderWithin_congr fun i j ha hb => ?_
    rw [orderWithin_objects ha hb, orderWithin_succ] at hab
    rw [orderWithin_succ, orderWithin_succ]
    split at hab
    · exact listOrder_refines ih _ _ hab
    · rfl

theorem orderWithin_comparison : h.IsComparison cutOff h.orderWithin where
  grows := orderWithin_grows
  next n heq := by
    funext a b
    refine orderWithin_congr fun i j _ _ => ?_
    rw [orderWithin_succ, orderWithin_succ, heq]
  pairs n m hpairs := by
    funext a b
    refine orderWithin_congr fun i j _ _ => ?_
    by_cases hi : i.index < h.objects.size
    · by_cases hj : j.index < h.objects.size
      · exact hpairs i j hi hj
      · rw [orderWithin_succ, orderWithin_succ, content?_outside hj]
        rcases h.content? i with _ | ⟨_ | _⟩ <;> rfl
    · rw [orderWithin_succ, orderWithin_succ, content?_outside hi]
  objects n a b := orderWithin_cutOff
  inside n i j hcut := by
    rw [orderWithin_succ] at hcut
    split at hcut
    · rename_i x y hx hy
      obtain ⟨a, ha, b, hb, hab⟩ := listOrder_error hcut
      obtain ⟨i', j', hi', hj', hinside⟩ := orderWithin_cutOff hab
      exact ⟨i', j', ⟨_, hx, a, ha, hi'⟩, ⟨_, hy, b, hb, hj'⟩, hinside⟩
    · cases hcut

/-- An order that is not cut off is only refused to values that have none. -/
theorem orderWithin_error {e : Failure} (he : h.orderWithin n a b = .error e) :
    e = Fault.endless ∨ ∃ left right, e = Fault.invalidOperands "<=>" left right := by
  induction n generalizing a b with
  | zero =>
    by_cases hobjects : ∃ i j, h.resolve a = .object i ∧ h.resolve b = .object j
    · obtain ⟨i, j, ha, hb⟩ := hobjects
      rw [orderWithin_objects ha hb, orderWithin_zero] at he
      split at he
      · exact .inl (Except.error.inj he).symm
      · exact .inr ⟨_, _, (Except.error.inj he).symm⟩
    · rcases orderWithin_scalar_cases hobjects with ⟨o, hok⟩ | herror
      · cases he.symm.trans hok
      · exact .inr ⟨_, _, Except.error.inj (he.symm.trans herror)⟩
  | succ n ih =>
    by_cases hobjects : ∃ i j, h.resolve a = .object i ∧ h.resolve b = .object j
    · obtain ⟨i, j, ha, hb⟩ := hobjects
      rw [orderWithin_objects ha hb, orderWithin_succ] at he
      split at he
      · obtain ⟨a', -, b', -, hpart⟩ := listOrder_error he
        exact ih hpart
      · exact .inr ⟨_, _, (Except.error.inj he).symm⟩
    · rcases orderWithin_scalar_cases hobjects with ⟨o, hok⟩ | herror
      · cases he.symm.trans hok
      · exact .inr ⟨_, _, Except.error.inj (he.symm.trans herror)⟩

end Order

-- ---------------------------------------------------------------------------
-- Which comparisons end
-- ---------------------------------------------------------------------------

section Ending

variable {h : Heap} {a b : Value}

/-- Equality comes out as it does with any bound that decides it. -/
theorem equals_ok_iff {r : Bool} : h.equals a b = .ok r ↔ ∃ n, h.equalsWithin n a b = some r := by
  refine ⟨fun hr => ⟨h.pairBound, ?_⟩, fun ⟨n, hn⟩ => ?_⟩
  · unfold equals at hr
    split at hr <;> cases hr
    assumption
  · have hbound := equalsWithin_comparison.decides (h := h) (n := n) (a := a) (b := b) (by simp [hn])
    rw [equals, hbound, hn]

/-- Equality is refused to no values; it only can be cut off. -/
theorem equals_error {e : Failure} (he : h.equals a b = .error e) : e = Fault.endless := by
  unfold equals at he
  split at he <;> cases he
  rfl

/-- Equality is cut off if it would not end with any bound, and only then. -/
theorem equals_cutOff_iff : h.equals a b = .error Fault.endless ↔ ∀ n, h.equalsWithin n a b = none := by
  rw [← equalsWithin_comparison.undecided_iff]
  unfold equals
  split <;> simp [*]

/-- The order of two values comes out as it does with any bound that decides it. -/
theorem order_decides {n : Nat} (hn : h.orderWithin n a b ≠ cutOff) : h.order a b = h.orderWithin n a b :=
  orderWithin_comparison.decides hn

/-- The order of two values is cut off if it would not end with any bound, and only then. -/
theorem order_cutOff_iff : h.order a b = cutOff ↔ ∀ n, h.orderWithin n a b = cutOff :=
  orderWithin_comparison.undecided_iff

/-- Two values of which one does not contain itself are equal or not. -/
theorem equals_ends (hab : ¬h.Cyclic a ∨ ¬h.Cyclic b) : ∃ r, h.equals a b = .ok r := by
  have hends := equalsWithin_comparison.ends (hab.imp founded_of_not_cyclic founded_of_not_cyclic)
  obtain ⟨r, hr⟩ := Option.ne_none_iff_exists'.mp hends
  exact ⟨r, equals_ok_iff.mpr ⟨_, hr⟩⟩

/-- Two values of which one does not contain itself have an order, or are of types that have none. -/
theorem order_ends (hab : ¬h.Cyclic a ∨ ¬h.Cyclic b) :
    (∃ o, h.order a b = .ok o) ∨ ∃ left right, h.order a b = .error (Fault.invalidOperands "<=>" left right) := by
  have hends := orderWithin_comparison.ends (hab.imp founded_of_not_cyclic founded_of_not_cyclic)
  cases horder : h.order a b with
  | ok o => exact .inl ⟨o, rfl⟩
  | error e =>
    rcases orderWithin_error horder with rfl | ⟨left, right, rfl⟩
    · exact (hends horder).elim
    · exact .inr ⟨left, right, rfl⟩

/-- Equality and order of any two values come out after finitely many steps, or order is refused to their types.
The exception are two values that both contain something that contains itself. What is cut off with these would
not come out with any bound. -/
theorem comparisons_end (h : Heap) (a b : Value) :
    ((∃ n r, h.equalsWithin n a b = some r ∧ h.equals a b = .ok r) ∨
      (h.Cyclic a ∧ h.Cyclic b) ∧ h.equals a b = .error Fault.endless ∧ ∀ n, h.equalsWithin n a b = none) ∧
    ((∃ n o, h.orderWithin n a b = .ok o ∧ h.order a b = .ok o) ∨
      (∃ left right, h.order a b = .error (Fault.invalidOperands "<=>" left right)) ∨
      (h.Cyclic a ∧ h.Cyclic b) ∧ h.order a b = cutOff ∧ ∀ n, h.orderWithin n a b = cutOff) := by
  have hcyclic (hnot : ¬(¬h.Cyclic a ∨ ¬h.Cyclic b)) : h.Cyclic a ∧ h.Cyclic b := by
    simpa [not_or] using hnot
  constructor
  · cases hequals : h.equals a b with
    | ok r =>
      obtain ⟨n, hn⟩ := equals_ok_iff.mp hequals
      exact .inl ⟨n, r, hn, rfl⟩
    | error e =>
      obtain rfl := equals_error hequals
      refine .inr ⟨hcyclic fun hab => ?_, rfl, equals_cutOff_iff.mp hequals⟩
      obtain ⟨r, hr⟩ := equals_ends hab
      cases hequals.symm.trans hr
  · by_cases hab : ¬h.Cyclic a ∨ ¬h.Cyclic b
    · rcases order_ends hab with ⟨o, ho⟩ | hrefused
      · exact .inl ⟨_, o, ho, ho⟩
      · exact .inr (.inl hrefused)
    · cases horder : h.order a b with
      | ok o => exact .inl ⟨_, o, horder, rfl⟩
      | error e =>
        rcases orderWithin_error horder with rfl | ⟨left, right, rfl⟩
        · exact .inr (.inr ⟨hcyclic hab, rfl, order_cutOff_iff.mp horder⟩)
        · exact .inr (.inl ⟨left, right, rfl⟩)

end Ending

/-- Two lists that contain themselves are neither equal nor different, and have no order. -/
example :
    let h : Heap := { objects := #[some ⟨.list, .list #[.object ⟨0⟩]⟩, some ⟨.list, .list #[.object ⟨1⟩]⟩] }
    h.equals (.object ⟨0⟩) (.object ⟨1⟩) = .error Fault.endless ∧ h.order (.object ⟨0⟩) (.object ⟨1⟩) = cutOff :=
  ⟨by cbv, by cbv⟩

end Heap

end Rill
