-- SUMMARY: The order of data without floats is a total preorder with the equal values as its ties.
import Mathlib
import Rill.Heap.Operators
import Rill.Proofs.Comparison.Equality

/-!
# Order of data

Scalars of one kind are ordered, and lists by their first items that differ; what stands behind those is not
looked at, so that lists can have an order though some of their items have none. Without floats the order is
total as far as it goes, and its ties are the equal values.
-/

namespace Rill.Heap

-- ---------------------------------------------------------------------------
-- Order of lists
-- ---------------------------------------------------------------------------

section Lists

variable {order : Value → Value → Except Failure (Option Ordering)} {xs ys zs : List Value}

/-- The first items order two lists, or the rest does where they tie. -/
theorem listOrder_cons {a b : Value} {o : Ordering} :
    listOrder order (a :: xs) (b :: ys) = .ok (some o) ↔
      (order a b = .ok (some .eq) ∧ listOrder order xs ys = .ok (some o)) ∨
      (order a b = .ok (some o) ∧ o ≠ .eq) := by
  simp only [listOrder]
  cases order a b with
  | error e => simp [bind, Except.bind]
  | ok first =>
    rcases first with _ | first
    · simp [bind, Except.bind, pure, Except.pure]
    · cases first <;> simp [bind, Except.bind, pure, Except.pure] <;> rintro rfl <;> simp

/-- Lists are unordered only on account of unordered items. -/
theorem listOrder_none (hnone : listOrder order xs ys = .ok none) : ∃ a ∈ xs, ∃ b ∈ ys, order a b = .ok none := by
  induction xs generalizing ys with
  | nil => cases ys <;> cases hnone
  | cons a xs ih =>
    cases ys with
    | nil => cases hnone
    | cons b ys =>
      simp only [listOrder] at hnone
      cases hab : order a b with
      | error e => simp [hab, bind, Except.bind] at hnone
      | ok first =>
        simp only [hab, bind, Except.bind] at hnone
        split at hnone
        · obtain ⟨a', ha', b', hb', hab'⟩ := ih hnone
          exact ⟨a', List.mem_cons_of_mem a ha', b', List.mem_cons_of_mem b hb', hab'⟩
        · exact ⟨a, List.mem_cons_self, b, List.mem_cons_self, hab.trans hnone⟩

/-- Lists are ordered the other way round if their items are. -/
theorem listOrder_swap (hswap : ∀ a ∈ xs, ∀ b ∈ ys, ∀ o, order a b = .ok (some o) → order b a = .ok (some o.swap))
    {o : Ordering} (ho : listOrder order xs ys = .ok (some o)) : listOrder order ys xs = .ok (some o.swap) := by
  induction xs generalizing ys with
  | nil => cases ys <;> cases ho <;> rfl
  | cons a xs ih =>
    cases ys with
    | nil =>
      cases ho
      rfl
    | cons b ys =>
      have hfirst := hswap a List.mem_cons_self b List.mem_cons_self
      rw [listOrder_cons] at ho ⊢
      rcases ho with ⟨htie, hrest⟩ | ⟨hab, hne⟩
      · refine .inl ⟨hfirst _ htie, ih (fun a' ha' b' hb' => ?_) hrest⟩
        exact hswap a' (List.mem_cons_of_mem a ha') b' (List.mem_cons_of_mem b hb')
      · refine .inr ⟨hfirst _ hab, fun heq => hne ?_⟩
        exact Ordering.swap_inj.mp heq

theorem lt_of_isLE {o : Ordering} (hle : o.isLE) (hne : o ≠ .eq) : o = .lt := by
  cases o with
  | lt => rfl
  | eq => exact (hne rfl).elim
  | gt => cases hle

/-- What comes after a list that is not before another one comes after it as well, if it is so with the items. -/
theorem listOrder_trans (htrans : ∀ a ∈ xs, ∀ b ∈ ys, ∀ c ∈ zs, ∀ o o', order a b = .ok (some o) →
      order b c = .ok (some o') → o.isLE → o'.isLE → order a c = .ok (some (o.then o')))
    {o o' : Ordering} (ho : listOrder order xs ys = .ok (some o)) (ho' : listOrder order ys zs = .ok (some o'))
    (hle : o.isLE) (hle' : o'.isLE) : listOrder order xs zs = .ok (some (o.then o')) := by
  induction xs generalizing ys zs with
  | nil =>
    cases ys with
    | nil =>
      cases ho
      exact ho'
    | cons b ys =>
      cases ho
      cases zs with
      | nil =>
        cases ho'
        cases hle'
      | cons c zs => rfl
  | cons a xs ih =>
    cases ys with
    | nil =>
      cases ho
      cases hle
    | cons b ys =>
      cases zs with
      | nil =>
        cases ho'
        cases hle'
      | cons c zs =>
        have hfirst := htrans a List.mem_cons_self b List.mem_cons_self c List.mem_cons_self
        rw [listOrder_cons] at ho ho' ⊢
        rcases ho with ⟨htie, hrest⟩ | ⟨hab, hne⟩ <;> rcases ho' with ⟨htie', hrest'⟩ | ⟨hbc, hne'⟩
        · refine .inl ⟨hfirst _ _ htie htie' rfl rfl, ih (fun a' ha' b' hb' c' hc' => ?_) hrest hrest'⟩
          exact htrans a' (List.mem_cons_of_mem a ha') b' (List.mem_cons_of_mem b hb') c' (List.mem_cons_of_mem c hc')
        · obtain rfl := lt_of_isLE hle' hne'
          have hlt : o.then .lt = .lt := by cases o <;> first | rfl | cases hle
          rw [hlt]
          exact .inr ⟨hfirst .eq .lt htie hbc rfl rfl, nofun⟩
        · obtain rfl := lt_of_isLE hle hne
          exact .inr ⟨hfirst .lt .eq hab htie' rfl rfl, nofun⟩
        · obtain rfl := lt_of_isLE hle hne
          exact .inr ⟨hfirst _ _ hab hbc rfl hle', nofun⟩

/-- Lists that are ordered tie if they are equal item by item, where that is what a tie of items means. -/
theorem listOrder_tie {equal : Value → Value → Prop}
    (htie : ∀ a ∈ xs, ∀ b ∈ ys, ∀ o, order a b = .ok (some o) → (o = .eq ↔ equal a b)) {o : Ordering}
    (ho : listOrder order xs ys = .ok (some o)) : o = .eq ↔ List.Forall₂ equal xs ys := by
  induction xs generalizing ys with
  | nil => cases ys <;> cases ho <;> simp
  | cons a xs ih =>
    cases ys with
    | nil =>
      cases ho
      simp
    | cons b ys =>
      have hfirst := htie a List.mem_cons_self b List.mem_cons_self
      rw [List.forall₂_cons]
      rcases listOrder_cons.mp ho with ⟨htied, hrest⟩ | ⟨hab, hne⟩
      · have hequal := (hfirst _ htied).mp rfl
        have hrest' := ih (fun a' ha' b' hb' =>
          htie a' (List.mem_cons_of_mem a ha') b' (List.mem_cons_of_mem b hb')) hrest
        simp only [hequal, true_and]
        exact hrest'
      · exact ⟨fun heq => (hne heq).elim, fun hall => (hne ((hfirst o hab).mpr hall.1)).elim⟩

/-- A list comes before what continues it. -/
theorem listOrder_beginning (hself : ∀ a ∈ xs, ∀ o, order a a = .ok (some o) → o = .eq) (hys : ys ≠ []) {o : Ordering}
    (ho : listOrder order xs (xs ++ ys) = .ok (some o)) : o = .lt := by
  induction xs with
  | nil =>
    cases ys with
    | nil => exact (hys rfl).elim
    | cons b ys =>
      cases ho
      rfl
  | cons a xs ih =>
    rcases listOrder_cons.mp ho with ⟨-, hrest⟩ | ⟨haa, hne⟩
    · exact ih (fun a' ha' => hself a' (List.mem_cons_of_mem a ha')) hrest
    · exact (hne (hself a List.mem_cons_self o haa)).elim

end Lists

-- ---------------------------------------------------------------------------
-- Order of data
-- ---------------------------------------------------------------------------

/-- The order of scalars of one kind. -/
def scalarOrder : Value → Value → Option Ordering
  | .bool a, .bool b => some (compare a b)
  | .int a, .int b => some (compare a b)
  | .text a, .text b => some (compare a b)
  | _, _ => none

theorem compare_then {α : Type} [Ord α] [Std.TransOrd α] {a b c : α} (hab : (compare a b).isLE)
    (hbc : (compare b c).isLE) : compare a c = (compare a b).then (compare b c) := by
  cases h : compare a b with
  | lt => exact Std.TransCmp.lt_of_lt_of_isLE h hbc
  | eq => exact Std.TransCmp.congr_left h
  | gt => simp [h] at hab

section Scalars

variable {s t u : Value} {o o' : Ordering}

theorem scalarOrder_swap (ho : scalarOrder s t = some o) : scalarOrder t s = some o.swap := by
  cases s <;> cases t <;> cases ho <;> exact congrArg some Std.OrientedCmp.eq_swap

theorem scalarOrder_trans (ho : scalarOrder s t = some o) (ho' : scalarOrder t u = some o') (hle : o.isLE)
    (hle' : o'.isLE) : scalarOrder s u = some (o.then o') := by
  cases s <;> cases t <;> cases ho <;> cases u <;> cases ho' <;> exact congrArg some (compare_then hle hle')

theorem scalarOrder_tie (ho : scalarOrder s t = some o) : o = .eq ↔ t = s := by
  cases s <;> cases t <;> cases ho <;>
    rw [Std.LawfulEqCmp.compare_eq_iff_eq] <;> simp [eq_comm]

end Scalars

section Order

variable {h : Heap} {a b c : Value} {i j : ObjectId} {o o' : Ordering}

theorem order_scalar (ho : scalarOrder (h.resolve a) (h.resolve b) = some o) : h.order a b = .ok (some o) := by
  rw [order, pairBound, orderWithin]
  cases ha : h.resolve a <;> cases hb : h.resolve b <;> simp_all [scalarOrder]

theorem order_lists {xs ys : Array Value} (ha : h.resolve a = .object i) (hb : h.resolve b = .object j)
    (hx : h.content? i = some (.list xs)) (hy : h.content? j = some (.list ys)) :
    h.order a b = listOrder h.order xs.toList ys.toList := by
  have hwithin : h.order = h.orderWithin h.pairBound := rfl
  rw [order, orderWithin_objects ha hb, ← orderWithin_comparison.settled (Nat.le_succ _), orderWithin_succ, hx, hy,
    hwithin]

/-- The order of data is one of scalars or one of lists. -/
theorem Floatless.order_cases (ha : h.Floatless a) (hb : h.Floatless b) {o : Option Ordering}
    (ho : h.order a b = .ok o) :
    (∃ r, o = some r ∧ scalarOrder (h.resolve a) (h.resolve b) = some r) ∨
    ∃ i j xs ys, h.resolve a = .object i ∧ h.content? i = some (.list xs) ∧ h.resolve b = .object j ∧
      h.content? j = some (.list ys) ∧ listOrder h.order xs.toList ys.toList = .ok o := by
  have hwhole := ho
  rw [order, pairBound, orderWithin] at ho
  split at ho
  case h_1 m n hm hn => exact .inl ⟨_, (Except.ok.inj ho).symm, by rw [hm, hn]; rfl⟩
  case h_2 x _ hx _ => exact (ha.not_float x hx).elim
  case h_3 x _ hx => exact (hb.not_float x hx).elim
  case h_4 x _ hx _ => exact (ha.not_float x hx).elim
  case h_5 m n hm hn => exact .inl ⟨_, (Except.ok.inj ho).symm, by rw [hm, hn]; rfl⟩
  case h_6 m n hm hn => exact .inl ⟨_, (Except.ok.inj ho).symm, by rw [hm, hn]; rfl⟩
  case h_7 i j hi hj =>
    split at ho
    · rename_i xs ys hx hy
      exact .inr ⟨i, j, xs, ys, hi, hx, hj, hy, order_lists hi hj hx hy ▸ hwhole⟩
    · cases ho
  case h_8 => cases ho

/-- Data that has an order is not unordered. -/
theorem Floatless.order_some (ha : h.Floatless a) (hb : h.Floatless b) {o : Option Ordering}
    (ho : h.order a b = .ok o) : ∃ r, o = some r := by
  induction ha using Floatless.list_induction generalizing b o with
  | step a ha ih =>
    rcases ha.order_cases hb ho with ⟨r, rfl, -⟩ | ⟨i, j, xs, ys, hi, hx, hj, hy, hlists⟩
    · exact ⟨r, rfl⟩
    · cases o with
      | some r => exact ⟨r, rfl⟩
      | none =>
        obtain ⟨x, hmem, y, hmem', hxy⟩ := listOrder_none hlists
        obtain ⟨r, hr⟩ := ih i xs hi hx x hmem (ha.items hi hx x hmem) (hb.items hj hy y hmem') hxy
        cases hr

theorem Floatless.order_swap (ha : h.Floatless a) (hb : h.Floatless b) (ho : h.order a b = .ok (some o)) :
    h.order b a = .ok (some o.swap) := by
  induction ha using Floatless.list_induction generalizing b o with
  | step a ha ih =>
    rcases ha.order_cases hb ho with ⟨r, hr, hscalar⟩ | ⟨i, j, xs, ys, hi, hx, hj, hy, hlists⟩
    · cases hr
      exact order_scalar (scalarOrder_swap hscalar)
    · rw [order_lists hj hi hy hx]
      refine listOrder_swap (fun x hmem y hmem' r hxy => ?_) hlists
      exact ih i xs hi hx x hmem (ha.items hi hx x hmem) (hb.items hj hy y hmem') hxy

theorem Floatless.order_trans (ha : h.Floatless a) (hb : h.Floatless b) (hc : h.Floatless c)
    (ho : h.order a b = .ok (some o)) (ho' : h.order b c = .ok (some o')) (hle : o.isLE) (hle' : o'.isLE) :
    h.order a c = .ok (some (o.then o')) := by
  induction ha using Floatless.list_induction generalizing b c o o' with
  | step a ha ih =>
    rcases ha.order_cases hb ho with ⟨r, hr, hscalar⟩ | ⟨i, j, xs, ys, hi, hx, hj, hy, hlists⟩ <;>
      rcases hb.order_cases hc ho' with ⟨r', hr', hscalar'⟩ | ⟨j', k, ys', zs, hj', hy', hk, hz, hlists'⟩
    · cases hr
      cases hr'
      exact order_scalar (scalarOrder_trans hscalar hscalar' hle hle')
    · rw [hj'] at hscalar
      cases ha' : h.resolve a <;> simp [ha', scalarOrder] at hscalar
    · rw [hj] at hscalar'
      simp [scalarOrder] at hscalar'
    · cases hj.symm.trans hj'
      cases hy.symm.trans hy'
      rw [order_lists hi hk hx hz]
      refine listOrder_trans (fun x hmem y hmem' z hmem'' r r' hxy hyz => ?_) hlists hlists' hle hle'
      exact ih i xs hi hx x hmem (ha.items hi hx x hmem) (hb.items hj hy y hmem') (hc.items hk hz z hmem'') hxy hyz

theorem Floatless.order_tie (ha : h.Floatless a) (hb : h.Floatless b) (ho : h.order a b = .ok (some o)) :
    o = .eq ↔ h.Equal a b := by
  induction ha using Floatless.list_induction generalizing b o with
  | step a ha ih =>
    rcases ha.order_cases hb ho with ⟨r, hr, hscalar⟩ | ⟨i, j, xs, ys, hi, hx, hj, hy, hlists⟩
    · cases hr
      have hexact : (h.resolve a).isExact := by
        cases ha' : h.resolve a <;> simp [ha', scalarOrder, Value.isExact] at hscalar ⊢
      rw [equals_scalar hexact hb]
      exact scalarOrder_tie hscalar
    · rw [ha.equals_list hi hx]
      have htie := listOrder_tie (fun x hmem y hmem' r hxy =>
        ih i xs hi hx x hmem (ha.items hi hx x hmem) (hb.items hj hy y hmem') hxy) hlists
      refine htie.trans ⟨fun hall => ⟨j, ys, hj, hy, hall⟩, ?_⟩
      rintro ⟨j', ys', hj', hy', hall⟩
      cases hj.symm.trans hj'
      cases hy.symm.trans hy'
      exact hall

/-- Of two lists that have an order, one that is the beginning of the other comes first. -/
theorem Floatless.order_beginning {xs ys : Array Value} {o : Option Ordering} (hi : h.Floatless (.object i))
    (hj : h.Floatless (.object j)) (hx : h.content? i = some (.list xs)) (hy : h.content? j = some (.list ys))
    (hbegins : xs.toList <+: ys.toList) (hsize : xs.size < ys.size) (ho : h.order (.object i) (.object j) = .ok o) :
    o = some .lt := by
  obtain ⟨r, rfl⟩ := hi.order_some hj ho
  rw [order_lists rfl rfl hx hy] at ho
  obtain ⟨rest, hrest⟩ := hbegins
  rw [← hrest] at ho
  have hne : rest ≠ [] := by
    rintro rfl
    have hlength := congrArg List.length hrest
    simp only [List.append_nil, Array.length_toList] at hlength
    omega
  refine congrArg some (listOrder_beginning (fun x hmem o' hself => ?_) hne ho)
  have hx' := hi.items rfl hx x hmem
  exact (hx'.order_tie hx' hself).mpr hx'.equals_self

end Order

-- ---------------------------------------------------------------------------
-- Coherence
-- ---------------------------------------------------------------------------

/-- The integer that stands for an order. -/
def signOf : Ordering → Int64
  | .lt => -1
  | .eq => 0
  | .gt => 1

/-- The order of some data, where it has one, is a total preorder with the equal values as its ties. It has
the proper beginnings of a list before the list, and it is what the operators go by. -/
structure OrderCoherent (h : Heap) (data : Value → Prop) : Prop where
  total : ∀ a b o, data a → data b → h.order a b = .ok o → ∃ r, o = some r
  antisymmetric : ∀ a b o, data a → data b → h.order a b = .ok (some o) → h.order b a = .ok (some o.swap)
  transitive : ∀ a b c o o', data a → data b → data c → h.order a b = .ok (some o) →
    h.order b c = .ok (some o') → o.isLE → o'.isLE → h.order a c = .ok (some (o.then o'))
  tie : ∀ a b o, data a → data b → h.order a b = .ok (some o) → (o = .eq ↔ h.equals a b = .ok true)
  beginning : ∀ i j xs ys o, data (.object i) → data (.object j) → h.content? i = some (.list xs) →
    h.content? j = some (.list ys) → xs.toList <+: ys.toList → xs.size < ys.size →
    h.order (.object i) (.object j) = .ok o → o = some .lt
  operators : ∀ a b o, data a → data b → h.order a b = .ok (some o) →
    h.binary .lt a b = .ok (.bool (o == .lt)) ∧ h.binary .ltEq a b = .ok (.bool (o != .gt)) ∧
    h.binary .gt a b = .ok (.bool (o == .gt)) ∧ h.binary .gtEq a b = .ok (.bool (o != .lt)) ∧
    h.binary .compare a b = .ok (.int (signOf o))
  failures : ∀ a b e, data a → data b → h.order a b = .error e →
    ∀ op ∈ [BinaryOp.lt, .ltEq, .gt, .gtEq, .compare], ∃ e', h.binary op a b = .error e'

theorem binary_ordered {h : Heap} {a b : Value} {o : Ordering} (ho : h.order a b = .ok (some o)) :
    h.binary .lt a b = .ok (.bool (o == .lt)) ∧ h.binary .ltEq a b = .ok (.bool (o != .gt)) ∧
    h.binary .gt a b = .ok (.bool (o == .gt)) ∧ h.binary .gtEq a b = .ok (.bool (o != .lt)) ∧
    h.binary .compare a b = .ok (.int (signOf o)) := by
  cases o <;> simp [binary, ordered, signOfOrder, signOf, ho, bind, Except.bind, pure, Except.pure]

theorem binary_unordered {h : Heap} {a b : Value} {e : Failure} (he : h.order a b = .error e) :
    ∀ op ∈ [BinaryOp.lt, .ltEq, .gt, .gtEq, .compare], ∃ e', h.binary op a b = .error e' := by
  simp [binary, ordered, signOfOrder, he, bind, Except.bind]

/-- Equality and order of data without floats are coherent on every heap. -/
theorem floatless_coherent (h : Heap) : h.EqualityCoherent h.Floatless ∧ h.OrderCoherent h.Floatless where
  left := h.equality_coherent
  right :=
    { total := fun _ _ _ ha hb ho => ha.order_some hb ho
      antisymmetric := fun _ _ _ ha hb ho => ha.order_swap hb ho
      transitive := fun _ _ _ _ _ ha hb hc ho ho' hle hle' => ha.order_trans hb hc ho ho' hle hle'
      tie := fun _ _ _ ha hb ho => ha.order_tie hb ho
      beginning := fun _ _ _ _ _ hi hj hx hy hbegins hsize ho => hi.order_beginning hj hx hy hbegins hsize ho
      operators := fun _ _ _ _ _ ho => binary_ordered ho
      failures := fun _ _ _ _ _ he => binary_unordered he }

/-- Two lists of a table each, the tables filled in different orders; the beginning of a list beside the list. -/
theorem floatless_coherent_nested :
    let h : Heap := { objects := #[
      some ⟨.table, .table ⟨#[(.text "a", .int 1), (.text "b", .null)]⟩⟩,
      some ⟨.table, .table ⟨#[(.text "b", .null), (.text "a", .int 1)]⟩⟩,
      some ⟨.list, .list #[.object ⟨0⟩]⟩,
      some ⟨.list, .list #[.object ⟨1⟩]⟩,
      some ⟨.list, .list #[.bool true]⟩,
      some ⟨.list, .list #[.bool true, .null]⟩] }
    h.equals (.object ⟨3⟩) (.object ⟨2⟩) = .ok true ∧ h.order (.object ⟨5⟩) (.object ⟨4⟩) = .ok (some .gt) := by
  intro h
  obtain ⟨hequality, horder⟩ := floatless_coherent h
  have htable₀ : h.Floatless (.object ⟨0⟩) :=
    .table rfl rfl (by decide) (List.forall_mem_cons.mpr ⟨.scalar rfl, List.forall_mem_singleton.mpr (.scalar rfl)⟩)
  have htable₁ : h.Floatless (.object ⟨1⟩) :=
    .table rfl rfl (by decide) (List.forall_mem_cons.mpr ⟨.scalar rfl, List.forall_mem_singleton.mpr (.scalar rfl)⟩)
  have hlist₂ : h.Floatless (.object ⟨2⟩) := .list rfl rfl (List.forall_mem_singleton.mpr htable₀)
  have hlist₃ : h.Floatless (.object ⟨3⟩) := .list rfl rfl (List.forall_mem_singleton.mpr htable₁)
  have hlist₄ : h.Floatless (.object ⟨4⟩) := .list rfl rfl (List.forall_mem_singleton.mpr (.scalar rfl))
  have hlist₅ : h.Floatless (.object ⟨5⟩) :=
    .list rfl rfl (List.forall_mem_cons.mpr ⟨.scalar rfl, List.forall_mem_singleton.mpr (.scalar rfl)⟩)
  have hequal : h.equals (.object ⟨2⟩) (.object ⟨3⟩) = .ok true := by cbv
  have hbefore : h.order (.object ⟨4⟩) (.object ⟨5⟩) = .ok (some .lt) := by cbv
  obtain ⟨r, hr, hr'⟩ := hequality.symmetric _ _ hlist₂ hlist₃
  cases hequal.symm.trans hr
  exact ⟨hr', horder.antisymmetric _ _ _ hlist₄ hlist₅ hbefore⟩

end Rill.Heap
