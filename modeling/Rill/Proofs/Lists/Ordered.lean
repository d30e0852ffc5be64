-- SUMMARY: Items that have an order are sorted stably; edits leave the order of values that do not contain the list.
import Rill.Proofs.Comparison.Order
import Rill.Proofs.Lists.Sorting

/-!
# Sorted variables

Integers, texts, booleans and lists without floats are sorted into order, and equal ones keep their order. An
edit of a variable does not change how two values compare, unless its list is somewhere inside one of them;
and no list without floats is inside its own items. So the items compare as before, the list passes for
sorted, and sorting it again changes nothing.
-/

namespace Rill

-- ---------------------------------------------------------------------------
-- Values apart from a variable
-- ---------------------------------------------------------------------------

/-- The value can be reached, and the list of the variable is nowhere inside it. -/
structure Machine.Apart (m : Machine) (c : CellId) (v : Value) : Prop where
  known : m.heap.Knows (m.roots ++ [.cell c]) v
  outside {i id : ObjectId} : m.heap.resolve v = .object i → m.heap.cell? c = some (.object id) →
    ¬Relation.ReflTransGen m.heap.Inside id i

section Apart

variable {m m' : Machine} {c : CellId} {items items' : Array Value} {a b v w : Value} {i : ObjectId}

theorem parts_subset_children (h : Heap) {content : Content} (hw : w ∈ content.parts) : w ∈ h.children content := by
  cases content with
  | list _ | table _ => exact hw
  | _ => cases hw

theorem Machine.Apart.part (hv : m.Apart c v) (hm : m.HoldsList c items) (hi : m.heap.resolve v = .object i)
    {content : Content} (hcontent : m.heap.content? i = some content) (hw : w ∈ content.parts) : m.Apart c w where
  known := by
    obtain ⟨o, ho, rfl⟩ := Option.map_eq_some_iff.mp hcontent
    have hobject := (hm.intact.knows_resolve hv.known).1
    rw [hi] at hobject
    exact hobject.child ho (parts_subset_children m.heap hw)
  outside {j id} hj hcell hinside := hv.outside hi hcell (hinside.tail ⟨content, hcontent, w, hw, hj⟩)

variable (hm : m.HoldsList c items) (h : m.Edits c items' m')
include hm h

theorem Machine.Edits.resolve_apart (hv : m.Apart c v) : m'.heap.resolve v = m.heap.resolve v := by
  cases v with
  | cell d =>
    have hne : d ≠ c := by
      rintro rfl
      obtain ⟨id, cls, raw, hcell, -⟩ := hm.exists_list
      have hresolve : m.heap.resolve (.cell d) = .object id := congrArg (·.getD .null) hcell
      exact hv.outside hresolve hcell .refl
    exact congrArg (·.getD .null) (h.cell hv.known hne)
  | _ => rfl

theorem Machine.Edits.object?_apart (hv : m.Apart c v) (hi : m.heap.resolve v = .object i) :
    m'.heap.object? i = m.heap.object? i := by
  have hobject := (hm.intact.knows_resolve hv.known).1
  rw [hi] at hobject
  exact (h.object hobject).resolve_right fun hsole => hv.outside hi hsole.cell .refl

theorem Machine.Edits.content?_apart (hv : m.Apart c v) (hi : m.heap.resolve v = .object i) :
    m'.heap.content? i = m.heap.content? i :=
  congrArg (Option.map Object.content) (h.object?_apart hm hv hi)

theorem Machine.Edits.typeName_apart (hv : m.Apart c v) : m'.heap.typeName v = m.heap.typeName v := by
  simp only [Heap.typeName, Heap.classOf, h.classes, h.resolve_apart hm hv]
  cases hi : m.heap.resolve v with
  | object i => simp only [h.object?_apart hm hv hi]
  | _ => rfl

omit hm h in
theorem listOrder_congr {order order' : Heap.Comparison} {xs ys : List Value}
    (hsame : ∀ x ∈ xs, ∀ y ∈ ys, order' x y = order x y) :
    Heap.listOrder order' xs ys = Heap.listOrder order xs ys := by
  induction xs generalizing ys with
  | nil => cases ys <;> rfl
  | cons x xs ih =>
    cases ys with
    | nil => rfl
    | cons y ys =>
      have ih := ih fun u hu w hw => hsame u (List.mem_cons_of_mem x hu) w (List.mem_cons_of_mem y hw)
      simp only [Heap.listOrder, hsame x List.mem_cons_self y List.mem_cons_self, ih]

/-- Values that the list of the variable is not inside compare as before, within any bound. -/
theorem Machine.Edits.orderWithin_apart (n : Nat) (ha : m.Apart c a) (hb : m.Apart c b) :
    m'.heap.orderWithin n a b = m.heap.orderWithin n a b := by
  induction n generalizing a b with
  | zero =>
    simp only [Heap.orderWithin, h.resolve_apart hm ha, h.resolve_apart hm hb, h.typeName_apart hm ha,
      h.typeName_apart hm hb]
    cases hi : m.heap.resolve a <;> cases hj : m.heap.resolve b
    case object.object i j => simp only [h.content?_apart hm ha hi, h.content?_apart hm hb hj]
    all_goals rfl
  | succ n ih =>
    simp only [Heap.orderWithin, h.resolve_apart hm ha, h.resolve_apart hm hb, h.typeName_apart hm ha,
      h.typeName_apart hm hb]
    cases hi : m.heap.resolve a <;> cases hj : m.heap.resolve b
    case object.object i j =>
      simp only [h.content?_apart hm ha hi, h.content?_apart hm hb hj]
      split
      · next xs ys hx hy =>
        exact listOrder_congr fun x hmem y hmem' => ih (ha.part hm hi hx hmem) (hb.part hm hj hy hmem')
      · rfl
    all_goals rfl

/-- How they compare does not depend on how many objects there are, if the comparison ends. -/
theorem Machine.Edits.order_apart (ha : m.Apart c a) (hb : m.Apart c b) (hends : m.heap.order a b ≠ Heap.cutOff) :
    m'.heap.order a b = m.heap.order a b := by
  have hwithin : m'.heap.orderWithin m.heap.pairBound a b = m.heap.order a b := h.orderWithin_apart hm _ ha hb
  exact (Heap.order_decides (hwithin ▸ hends)).trans hwithin

/-- Data without floats is data without floats as before. -/
theorem Machine.Edits.floatless_apart (hv : m.heap.Floatless v) (ha : m.Apart c v) : m'.heap.Floatless v := by
  induction hv with
  | scalar hexact => exact .scalar (by rwa [h.resolve_apart hm ha])
  | list hi hcontent _ ih =>
    refine .list ((h.resolve_apart hm ha).trans hi) ((h.content?_apart hm ha hi).trans hcontent) fun x hx => ?_
    exact ih x hx (ha.part hm hi hcontent hx)
  | table hi hcontent hkeys _ ih =>
    refine .table ((h.resolve_apart hm ha).trans hi) ((h.content?_apart hm ha hi).trans hcontent) hkeys
      fun entry hentry => ?_
    exact ih entry hentry (ha.part hm hi hcontent (Heap.mem_values hentry))
  | set hi hcontent helements =>
    exact .set ((h.resolve_apart hm ha).trans hi) ((h.content?_apart hm ha hi).trans hcontent) helements

end Apart

-- ---------------------------------------------------------------------------
-- Lists that can be sorted
-- ---------------------------------------------------------------------------

/-- Items of one kind that have an order: integers, texts, booleans, or lists without floats of which any two can
be compared. -/
inductive Heap.Sortable (h : Heap) (items : List Value) : Prop
  | integers (all : ∀ v ∈ items, ∃ n, v = .int n)
  | texts (all : ∀ v ∈ items, ∃ s, v = .text s)
  | booleans (all : ∀ v ∈ items, ∃ b, v = .bool b)
  | lists (all : ∀ v ∈ items, h.Floatless v ∧ ∃ i xs, v = .object i ∧ h.content? i = some (.list xs))
      (comparable : items.Pairwise fun a b => ∃ o, h.order a b = .ok o)

/-- The second value compares as equal to the first one. -/
def Heap.ties (h : Heap) (a b : Value) : Bool :=
  match h.order a b with
  | .ok (some .eq) => true
  | _ => false

section Sortable

variable {h : Heap} {items : List Value} {a b v w : Value}

theorem Heap.Sortable.floatless (hs : h.Sortable items) : ∀ v ∈ items, h.Floatless v := by
  intro v hv
  cases hs with
  | integers all =>
    obtain ⟨n, rfl⟩ := all v hv
    exact .scalar rfl
  | texts all =>
    obtain ⟨s, rfl⟩ := all v hv
    exact .scalar rfl
  | booleans all =>
    obtain ⟨b, rfl⟩ := all v hv
    exact .scalar rfl
  | lists all => exact (all v hv).1

theorem Heap.Sortable.comparable (hs : h.Sortable items) :
    items.Pairwise fun a b => ∃ o, h.order a b = .ok (some o) := by
  have hscalar (horder : ∀ a ∈ items, ∀ b ∈ items, ∃ o, Heap.scalarOrder (h.resolve a) (h.resolve b) = some o) :
      items.Pairwise fun a b => ∃ o, h.order a b = .ok (some o) := by
    refine List.pairwise_of_forall_mem_list fun a ha b hb => ?_
    obtain ⟨o, ho⟩ := horder a ha b hb
    exact ⟨o, Heap.order_scalar ho⟩
  cases hs with
  | integers all =>
    refine hscalar fun a ha b hb => ?_
    obtain ⟨n, rfl⟩ := all a ha
    obtain ⟨k, rfl⟩ := all b hb
    exact ⟨_, rfl⟩
  | texts all =>
    refine hscalar fun a ha b hb => ?_
    obtain ⟨s, rfl⟩ := all a ha
    obtain ⟨t, rfl⟩ := all b hb
    exact ⟨_, rfl⟩
  | booleans all =>
    refine hscalar fun a ha b hb => ?_
    obtain ⟨x, rfl⟩ := all a ha
    obtain ⟨y, rfl⟩ := all b hb
    exact ⟨_, rfl⟩
  | lists all comparable =>
    refine comparable.imp_of_mem fun {a b} ha hb hab => ?_
    obtain ⟨o, ho⟩ := hab
    obtain ⟨r, rfl⟩ := (all a ha).1.order_some (all b hb).1 ho
    exact ⟨r, ho⟩

theorem Heap.order_coherent (h : Heap) : Heap.Comparison.Coherent h.order h.Floatless :=
  ⟨fun ha hb ho => ha.order_swap hb ho, fun ha hb hd ho ho' hle hle' => ha.order_trans hb hd ho ho' hle hle'⟩

theorem Heap.ties_iff : h.ties a b ↔ h.order a b = .ok (some .eq) := by
  unfold Heap.ties
  split <;> simp_all

/-- Of two values one of which comes before the other one, not both tie with the same value. -/
theorem Heap.Floatless.not_ties (ha : h.Floatless a) (hv : h.Floatless v) (hw : h.Floatless w)
    (hvw : h.order v w = .ok (some .lt)) (hav : h.ties a v) : ¬h.ties a w := by
  intro haw
  have hva := ha.order_swap hv (Heap.ties_iff.mp hav)
  have htie := hv.order_trans ha hw hva (Heap.ties_iff.mp haw) rfl rfl
  cases hvw.symm.trans htie

theorem Heap.Floatless.order_ne_cutOff (ha : h.Floatless a) : h.order a b ≠ Heap.cutOff :=
  Heap.orderWithin_comparison.ends (.inl ha.founded)

end Sortable

section Items

variable {m : Machine} {c : CellId} {items : Array Value}

theorem not_rel_self_of_acc {α : Type} {r : α → α → Prop} {a : α} (ha : Acc r a) : ¬r a a := by
  induction ha with
  | intro a _ ih => exact fun haa => ih a haa haa

/-- No list is inside its items if these have no floats in them. -/
theorem Machine.HoldsList.items_apart (hm : m.HoldsList c items)
    (hdata : ∀ v ∈ items.toList, m.heap.Floatless v) : ∀ v ∈ items.toList, m.Apart c v := by
  intro v hv
  obtain ⟨hknown, hplain⟩ := hm.items_known hv
  refine ⟨hknown, fun {i id} hi hcell hinside => ?_⟩
  obtain ⟨id', cls, raw, hcell', ho, rfl, -⟩ := hm.exists_list
  cases hcell.symm.trans hcell'
  have hobject : v = .object i := (Heap.resolve_of_isCell hplain).symm.trans hi
  have hitem : m.heap.Inside i id := by
    rw [Array.toList_map, List.mem_map] at hv
    obtain ⟨w, hw, hwv⟩ := hv
    exact ⟨_, congrArg (Option.map Object.content) ho, w, hw, hwv.trans hobject⟩
  exact not_rel_self_of_acc ((hdata v hv).founded i hi).transGen (.head' hitem hinside)

/-- The variables that shared the list with the edited one have the same items as before, if the list is not
inside its items. -/
theorem Machine.Edits.shared {m' : Machine} {items' : Array Value} (hm : m.HoldsList c items) (h : m.Edits c items' m')
    (hapart : ∀ v ∈ items.toList, m.Apart c v) {d : CellId} (hne : d ≠ c)
    (hd : m.heap.Knows (m.roots ++ [.cell c]) (.cell d)) (hshared : m.heap.cell? d = m.heap.cell? c) :
    m'.heap.listOf (.cell d) = .ok items := by
  obtain ⟨id, cls, raw, hcell, ho, rfl, hid⟩ := hm.exists_list
  have hcontent : m.heap.contentOf (.cell d) = some (.list raw) := Heap.contentOf_cell (hshared.trans hcell) ho
  have hcontent' := (h.keepsOthers hm (.cell d) (fun heq => hne (Value.cell.inj heq)) (.inr ⟨rfl, hd⟩)).2
  have hitems : raw.map m'.heap.resolve = raw.map m.heap.resolve := by
    refine Array.map_congr_left fun w hw => ?_
    have hmem : m.heap.resolve w ∈ (raw.map m.heap.resolve).toList := by
      rw [Array.toList_map]
      exact List.mem_map_of_mem (Array.mem_toList_iff.mpr hw)
    cases w with
    | cell e =>
      have hknown := hid.child ho (Array.mem_toList_iff.mpr hw)
      have hec : e ≠ c := by
        rintro rfl
        have hresolve : m.heap.resolve (.cell e) = .object id := congrArg (·.getD .null) hcell
        rw [hresolve] at hmem
        exact (hapart _ hmem).outside rfl hcell .refl
      exact congrArg (·.getD .null) (h.cell hknown hec)
    | _ => rfl
  simp only [Heap.listOf, hcontent', hcontent, hitems]

end Items

-- ---------------------------------------------------------------------------
-- Sorting
-- ---------------------------------------------------------------------------

section Sorting

open Library

variable {m m' : Machine} {c : CellId} {items sorted : Array Value} {x : Value}

theorem isSorted_run (hx : m.heap.listOf x = .ok items) {r : Bool}
    (hr : Heap.isSorted m.heap.order items.toList = .ok r) : list .isSorted #[x] m = .ok (.bool r) m := by
  have hread : Arguments.list #[x] 0 m = .ok items m := (Run.bind_heap _ m).trans (Run.lift_of_ok hx)
  refine (Run.bind_heap _ m).trans ?_
  exact (Run.bind_of_ok hread).trans (Run.bind_of_ok (Run.lift_of_ok hr))

/-- The items of a variable have been sorted. -/
structure Machine.Sorts (m : Machine) (c : CellId) (items sorted : Array Value) (m' : Machine) : Prop where
  edits : m.Edits c sorted m'
  perm : sorted.toList.Perm items.toList
  /-- Each item compares as less than all later ones, or as equal to them. -/
  ordered : sorted.toList.Pairwise fun a b => m.heap.order a b = .ok (some .lt) ∨ m.heap.order a b = .ok (some .eq)
  /-- Equal items keep their relative order. -/
  stable {a : Value} : a ∈ items.toList → sorted.toList.filter (m.heap.ties a) = items.toList.filter (m.heap.ties a)
  /-- The items compare like they did before. -/
  order_eq {a b : Value} : a ∈ items.toList → b ∈ items.toList → m'.heap.order a b = m.heap.order a b
  passes {x : Value} : m'.heap.listOf x = .ok sorted → list .isSorted #[x] m' = .ok (.bool true) m'
  /-- Sorting again leaves the list as it is. -/
  again : ∃ m'', list .sort #[.cell c] m' = .ok .null m'' ∧ m'.Edits c sorted m''
  others : m.KeepsOthers c m'
  /-- A variable that shared the list has the old items. -/
  shared {d : CellId} : d ≠ c → m.heap.Knows (m.roots ++ [.cell c]) (.cell d) → m.heap.cell? d = m.heap.cell? c →
    m'.heap.listOf (.cell d) = .ok items
  /-- A list that sorting changes does not pass for sorted. -/
  unsorted {x : Value} : sorted ≠ items → m.heap.listOf x = .ok items → list .isSorted #[x] m = .ok (.bool false) m

/-- A variable with data of which any two items have an order gets them in the order that the sort comes to. -/
theorem Machine.HoldsList.sort_ok (hm : m.HoldsList c items) (hdata : ∀ v ∈ items.toList, m.heap.Floatless v)
    (hpairs : items.toList.Pairwise fun a b => ∃ o, m.heap.order a b = .ok (some o)) :
    ∃ m', list .sort #[.cell c] m = .ok .null m' ∧
      m.Edits c (Heap.sorted m.heap.order items.toList).1.toArray m' := by
  obtain ⟨m', hedits, hrun⟩ := hm.sort_run
  rw [(Heap.sorted_pairwise m.heap.order_coherent hdata hpairs).2] at hrun
  exact ⟨m', hrun, hedits⟩

theorem atMost_iff {h : Heap} {a b : Value} : Heap.Comparison.AtMost h.order a b ↔
    h.order a b = .ok (some .lt) ∨ h.order a b = .ok (some .eq) := by
  constructor
  · rintro ⟨o, ho, hle⟩
    cases o with
    | lt => exact .inl ho
    | eq => exact .inr ho
    | gt => cases hle
  · rintro (ho | ho)
    · exact ⟨_, ho, rfl⟩
    · exact ⟨_, ho, rfl⟩

/-- Items of one kind that have an order are sorted stably, for this variable only; the test for sorted lists
says whether sorting would change anything. -/
theorem sort_stable (hm : m.HoldsList c items) (hitems : m.heap.Sortable items.toList) :
    ∃ sorted m', list .sort #[.cell c] m = .ok .null m' ∧ m.Sorts c items sorted m' := by
  have hdata := hitems.floatless
  have hpairs := hitems.comparable
  have hapart := hm.items_apart hdata
  obtain ⟨m', hrun, hedits⟩ := hm.sort_ok hdata hpairs
  have hperm := Heap.sorted_perm m.heap.order items.toList
  have hordered := (Heap.sorted_pairwise m.heap.order_coherent hdata hpairs).1
  -- Afterwards the items compare like before, so that all this holds of the sorted list, too.
  have horder {a b : Value} (ha : a ∈ items.toList) (hb : b ∈ items.toList) :
      m'.heap.order a b = m.heap.order a b :=
    hedits.order_apart hm (hapart a ha) (hapart b hb) (hdata a ha).order_ne_cutOff
  have hdata' : ∀ v ∈ (Heap.sorted m.heap.order items.toList).1, m'.heap.Floatless v := fun v hv =>
    have hv := hperm.mem_iff.mp hv
    hedits.floatless_apart hm (hdata v hv) (hapart v hv)
  have hordered' : (Heap.sorted m.heap.order items.toList).1.Pairwise (Heap.Comparison.AtMost m'.heap.order) := by
    refine hordered.imp_of_mem fun {a b} ha hb ⟨o, ho, hle⟩ => ⟨o, ?_, hle⟩
    rwa [horder (hperm.mem_iff.mp ha) (hperm.mem_iff.mp hb)]
  have hpairs' : (Heap.sorted m.heap.order items.toList).1.Pairwise fun a b => ∃ o, m'.heap.order a b = .ok (some o) :=
    hordered'.imp fun ⟨o, ho, _⟩ => ⟨o, ho⟩
  refine ⟨_, m', hrun, hedits, hperm, hordered.imp atMost_iff.mp, fun {a} ha => ?_, horder, fun {x} hx => ?_, ?_,
    hedits.keepsOthers hm, hedits.shared hm hapart, fun {x} hne hx => ?_⟩
  · exact Heap.filter_sorted fun v hv w hw hlt hav => (hdata a ha).not_ties (hdata v hv) (hdata w hw) hlt hav
  · obtain ⟨r, hr, hiff⟩ := Heap.isSorted_iff m'.heap.order_coherent hdata' hpairs'
    exact hiff.mpr hordered' ▸ isSorted_run hx hr
  · obtain ⟨m'', hrun', hedits'⟩ := hedits.holds.sort_ok hdata' hpairs'
    rw [Heap.sorted_of_pairwise m'.heap.order_coherent hdata' hordered'] at hedits'
    exact ⟨m'', hrun', hedits'⟩
  · obtain ⟨r, hr, hiff⟩ := Heap.isSorted_iff m.heap.order_coherent hdata hpairs
    have hr_false : r = false := by
      by_contra htrue
      have hsame := Heap.sorted_of_pairwise m.heap.order_coherent hdata (hiff.mp (Bool.eq_true_of_not_eq_false htrue))
      exact hne (by rw [hsame])
    exact hr_false ▸ isSorted_run hx hr

/-- Two variables share a list of two lists; sorting the one leaves the other one unsorted. -/
theorem sort_stable_nested :
    let m : Machine := {
      config := {}
      heap := {
        objects := #[
          some ⟨.list, .list #[.object ⟨1⟩, .object ⟨2⟩]⟩,
          some ⟨.list, .list #[.int 2]⟩,
          some ⟨.list, .list #[.int 1, .null]⟩]
        cells := #[some (.object ⟨0⟩), some (.object ⟨0⟩)] }
      held := [.cell ⟨0⟩, .cell ⟨1⟩] }
    m.HoldsList ⟨0⟩ #[.object ⟨1⟩, .object ⟨2⟩] ∧ m.heap.Sortable [.object ⟨1⟩, .object ⟨2⟩] ∧
      ∃ sorted m', list .sort #[.cell ⟨0⟩] m = .ok .null m' ∧ m.Sorts ⟨0⟩ #[.object ⟨1⟩, .object ⟨2⟩] sorted m' ∧
        m'.heap.listOf (.cell ⟨1⟩) = .ok #[.object ⟨1⟩, .object ⟨2⟩] := by
  intro m
  have hroots : m.roots = [.cell ⟨0⟩, .cell ⟨1⟩] := by simp [m, Machine.roots, OrderedMap.values]
  have hintact : m.heap.Intact (m.roots ++ [.cell ⟨0⟩]) :=
    Heap.intact_of_closed [.cell ⟨0⟩, .cell ⟨1⟩, .object ⟨0⟩, .object ⟨1⟩, .object ⟨2⟩, .int 1, .int 2, .null]
      (by rw [hroots]; decide) (by decide)
  have hm : m.HoldsList ⟨0⟩ #[.object ⟨1⟩, .object ⟨2⟩] := Machine.holdsList_of_plain hintact rfl rfl (by decide)
  have hfirst : m.heap.Floatless (.object ⟨1⟩) := .list rfl rfl (List.forall_mem_singleton.mpr (.scalar rfl))
  have hsecond : m.heap.Floatless (.object ⟨2⟩) :=
    .list rfl rfl (List.forall_mem_cons.mpr ⟨.scalar rfl, List.forall_mem_singleton.mpr (.scalar rfl)⟩)
  have hitems : m.heap.Sortable [.object ⟨1⟩, .object ⟨2⟩] := by
    refine .lists (List.forall_mem_cons.mpr ⟨⟨hfirst, _, _, rfl, rfl⟩,
      List.forall_mem_singleton.mpr ⟨hsecond, _, _, rfl, rfl⟩⟩) (List.pairwise_pair.mpr ⟨some .gt, ?_⟩)
    rfl
  obtain ⟨sorted, m', hrun, hsorts⟩ := sort_stable hm hitems
  have hother : m.heap.Knows (m.roots ++ [.cell ⟨0⟩]) (.cell ⟨1⟩) := .inr (.start (by rw [hroots]; decide))
  exact ⟨hm, hitems, sorted, m', hrun, hsorts, hsorts.shared (by decide) hother rfl⟩

end Sorting

end Rill
