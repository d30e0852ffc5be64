-- SUMMARY: Equality of data without floats is an equivalence that depends on what the data is made of.
import Rill.Proofs.Comparison.Ending
import Rill.Proofs.Comparison.Keys

/-!
# Equality of data

A nan is not equal to itself, and one float is equal to several integers. On data without floats, equality
is an equivalence that depends on what the data is made of alone: not on the order in which tables and sets
were filled, nor on which of several equal parts a container has.
-/

namespace Rill

/-- A scalar that is no float. -/
def Value.isExact : Value → Bool
  | .null | .bool _ | .int _ | .text _ => true
  | .float _ | .object _ | .cell _ => false

namespace Heap

-- ---------------------------------------------------------------------------
-- Data without floats
-- ---------------------------------------------------------------------------

/-- Data without floats: scalars, and lists, tables and sets of such data. A container comes after what it
holds, so that none contains itself. Tables and sets have each of their keys once. -/
inductive Floatless (h : Heap) : Value → Prop
  | scalar {v : Value} (hv : (h.resolve v).isExact) : Floatless h v
  | list {v : Value} {i : ObjectId} {items : Array Value} (hv : h.resolve v = .object i)
      (hcontent : h.content? i = some (.list items)) (hitems : ∀ item ∈ items.toList, Floatless h item) :
      Floatless h v
  | table {v : Value} {i : ObjectId} {entries : Table} (hv : h.resolve v = .object i)
      (hcontent : h.content? i = some (.table entries)) (hkeys : entries.Distinct)
      (hentries : ∀ entry ∈ entries.entries.toList, Floatless h entry.2) : Floatless h v
  | set {v : Value} {i : ObjectId} {elements : KeySet} (hv : h.resolve v = .object i)
      (hcontent : h.content? i = some (.set elements)) (helements : elements.toList.Nodup) : Floatless h v

/-- Two values compare equal. -/
abbrev Equal (h : Heap) (a b : Value) : Prop := h.equals a b = .ok true

section Data

variable {h : Heap} {a b c v : Value} {i j : ObjectId}

theorem Floatless.not_float (hv : h.Floatless v) (x : Float) : h.resolve v ≠ .float x := by
  intro hfloat
  cases hv with
  | scalar hexact => simp [hfloat, Value.isExact] at hexact
  | list hobject => cases hfloat.symm.trans hobject
  | table hobject => cases hfloat.symm.trans hobject
  | set hobject => cases hfloat.symm.trans hobject

theorem Floatless.items {items : Array Value} (hv : h.Floatless v) (hi : h.resolve v = .object i)
    (hcontent : h.content? i = some (.list items)) : ∀ item ∈ items.toList, h.Floatless item := by
  cases hv with
  | scalar hexact => simp [hi, Value.isExact] at hexact
  | list hj hlist hitems =>
    cases hj.symm.trans hi
    cases hlist.symm.trans hcontent
    exact hitems
  | table hj htable =>
    cases hj.symm.trans hi
    cases htable.symm.trans hcontent
  | set hj hset =>
    cases hj.symm.trans hi
    cases hset.symm.trans hcontent

theorem Floatless.entries {entries : Table} (hv : h.Floatless v) (hi : h.resolve v = .object i)
    (hcontent : h.content? i = some (.table entries)) :
    entries.Distinct ∧ ∀ entry ∈ entries.entries.toList, h.Floatless entry.2 := by
  cases hv with
  | scalar hexact => simp [hi, Value.isExact] at hexact
  | list hj hlist =>
    cases hj.symm.trans hi
    cases hlist.symm.trans hcontent
  | table hj htable hkeys hentries =>
    cases hj.symm.trans hi
    cases htable.symm.trans hcontent
    exact ⟨hkeys, hentries⟩
  | set hj hset =>
    cases hj.symm.trans hi
    cases hset.symm.trans hcontent

theorem Floatless.elements {elements : KeySet} (hv : h.Floatless v) (hi : h.resolve v = .object i)
    (hcontent : h.content? i = some (.set elements)) : elements.toList.Nodup := by
  cases hv with
  | scalar hexact => simp [hi, Value.isExact] at hexact
  | list hj hlist =>
    cases hj.symm.trans hi
    cases hlist.symm.trans hcontent
  | table hj htable =>
    cases hj.symm.trans hi
    cases htable.symm.trans hcontent
  | set hj hset helements =>
    cases hj.symm.trans hi
    cases hset.symm.trans hcontent
    exact helements

/-- Data without floats has an end whichever way one goes into it. -/
theorem Floatless.founded (hv : h.Floatless v) : h.Founded v := by
  induction hv with
  | scalar hexact =>
    intro i hi
    simp [hi, Value.isExact] at hexact
  | list hv hcontent _ ih =>
    intro i hi
    cases hv.symm.trans hi
    refine ⟨_, fun j hj => ?_⟩
    obtain ⟨content, hcontent', part, hpart, hresolve⟩ := hj
    cases hcontent.symm.trans hcontent'
    exact ih part hpart j hresolve
  | table hv hcontent _ _ ih =>
    intro i hi
    cases hv.symm.trans hi
    refine ⟨_, fun j hj => ?_⟩
    obtain ⟨content, hcontent', part, hpart, hresolve⟩ := hj
    cases hcontent.symm.trans hcontent'
    rw [Content.parts, OrderedMap.values, Array.toList_map] at hpart
    obtain ⟨entry, hentry, rfl⟩ := List.mem_map.mp hpart
    exact ih entry hentry j hresolve
  | set hv hcontent =>
    intro i hi
    cases hv.symm.trans hi
    refine ⟨_, fun j hj => ?_⟩
    obtain ⟨content, hcontent', part, hpart, -⟩ := hj
    cases hcontent.symm.trans hcontent'
    cases hpart

/-- To show something of data it is enough to show it of lists after their items, and of what is no list. -/
theorem Floatless.list_induction {motive : (v : Value) → h.Floatless v → Prop}
    (step : ∀ v hv, (∀ i items, h.resolve v = .object i → h.content? i = some (.list items) →
      ∀ item ∈ items.toList, ∀ hitem, motive item hitem) → motive v hv) (hv : h.Floatless v) : motive v hv := by
  induction hv with
  | scalar hexact =>
    refine step _ (.scalar hexact) fun i items hi => ?_
    simp [hi, Value.isExact] at hexact
  | list hv hcontent hitems ih =>
    refine step _ (.list hv hcontent hitems) fun i items hi hcontent' => ?_
    cases hv.symm.trans hi
    cases hcontent.symm.trans hcontent'
    exact fun item hmem _ => ih item hmem
  | table hv hcontent hkeys hentries =>
    refine step _ (.table hv hcontent hkeys hentries) fun i items hi hcontent' => ?_
    cases hv.symm.trans hi
    cases hcontent.symm.trans hcontent'
  | set hv hcontent helements =>
    refine step _ (.set hv hcontent helements) fun i items hi hcontent' => ?_
    cases hv.symm.trans hi
    cases hcontent.symm.trans hcontent'

end Data

-- ---------------------------------------------------------------------------
-- Equality of contents
-- ---------------------------------------------------------------------------

section Contents

variable {equal : Value → Value → Option Bool}

theorem allDecided_true {α : Type} {test : α → Option Bool} {as : List α} :
    allDecided test as = some true ↔ ∀ a ∈ as, test a = some true := by
  induction as with
  | nil => simp [allDecided]
  | cons a as ih =>
    rw [allDecided, List.forall_mem_cons, ← ih]
    split
    · simp [*]
    · rename_i hnot
      exact ⟨fun htrue => (hnot htrue).elim, fun hboth => (hnot hboth.1).elim⟩

/-- Lists are equal if they are so item by item. -/
theorem contentEquals_list {xs : Array Value} {y : Content} :
    contentEquals equal (.list xs) y = some true ↔
      ∃ ys, y = .list ys ∧ List.Forall₂ (fun a b => equal a b = some true) xs.toList ys.toList := by
  cases y with
  | list ys =>
    simp only [contentEquals, Content.list.injEq, exists_eq_left']
    split
    · rename_i hsize
      rw [allDecided_true, Array.toList_zip, List.forall₂_iff_zip]
      simp only [Array.length_toList, hsize, true_and, Prod.forall]
    · rename_i hsize
      refine ⟨by simp, fun hall => (hsize ?_).elim⟩
      simpa using hall.length_eq
  | _ => simp [contentEquals]

/-- Tables are equal if they have the same keys and equal values for them. -/
theorem contentEquals_table {xs ys : Table} (hxs : xs.Distinct) (hys : ys.Distinct) :
    contentEquals equal (.table xs) (.table ys) = some true ↔
      (∀ key, key ∈ xs.keys.toList ↔ key ∈ ys.keys.toList) ∧
        ∀ key v w, xs.find? key = some v → ys.find? key = some w → equal v w = some true := by
  simp only [contentEquals]
  split
  · rename_i hsize
    rw [allDecided_true]
    constructor
    · intro hall
      have hfound {key : Key} {v : Value} (hv : xs.find? key = some v) :
          ∃ w, ys.find? key = some w ∧ equal v w = some true := by
        have htest := hall _ (OrderedMap.mem_of_find? hv)
        cases hw : ys.find? key with
        | none => simp [hw] at htest
        | some w => exact ⟨w, rfl, by simpa [hw] using htest⟩
      have hsubset : xs.keys.toList ⊆ ys.keys.toList := by
        intro key hkey
        obtain ⟨v, hv⟩ := OrderedMap.mem_keys.mp hkey
        obtain ⟨w, hw, -⟩ := hfound hv
        exact OrderedMap.mem_keys.mpr ⟨w, hw⟩
      -- one lookup for each key of the first table is enough, because the sizes are the same
      refine ⟨fun key => ⟨fun hkey => hsubset hkey, fun hkey => hxs.keys_subset hsize hsubset hkey⟩, ?_⟩
      intro key v w hv hw
      obtain ⟨w', hw', hequal⟩ := hfound hv
      cases hw.symm.trans hw'
      exact hequal
    · rintro ⟨hkeys, hvalues⟩ ⟨key, v⟩ hmem
      have hv := hxs.find?_of_mem hmem
      obtain ⟨w, hw⟩ := OrderedMap.mem_keys.mp ((hkeys key).mp (OrderedMap.mem_keys.mpr ⟨v, hv⟩))
      simpa [hw] using hvalues key v w hv hw
  · rename_i hsize
    exact ⟨by simp, fun hsame => (hsize (hxs.size_eq hys hsame.1)).elim⟩

/-- Sets are equal if they have the same elements. -/
theorem contentEquals_set {xs ys : KeySet} (hxs : xs.toList.Nodup) (hys : ys.toList.Nodup) :
    contentEquals equal (.set xs) (.set ys) = some true ↔ ∀ key, key ∈ xs ↔ key ∈ ys := by
  simp only [contentEquals, Option.some.injEq, Bool.and_eq_true, decide_eq_true_eq, Array.all_eq_true_iff_forall_mem,
    Array.contains_iff_mem, ← Array.mem_toList_iff]
  constructor
  · rintro ⟨hsize, hsubset⟩ key
    have hperm := (List.Nodup.subperm hxs hsubset).perm_of_length_le (by simp [hsize])
    exact hperm.mem_iff
  · intro hall
    have hperm := (List.perm_ext_iff_of_nodup hxs hys).mpr hall
    exact ⟨by simpa using hperm.length_eq, fun key => (hall key).mp⟩

end Contents

-- ---------------------------------------------------------------------------
-- Equality of data
-- ---------------------------------------------------------------------------

/-- Two tables have the same keys, and equal values for each. -/
structure SameEntries (h : Heap) (xs ys : Table) : Prop where
  keys : ∀ key, key ∈ xs.keys.toList ↔ key ∈ ys.keys.toList
  values : ∀ key v w, xs.find? key = some v → ys.find? key = some w → h.Equal v w

section Equality

variable {h : Heap} {a b c v : Value} {i j : ObjectId}

theorem equal_iff : h.Equal a b ↔ h.equalsWithin h.pairBound a b = some true := by
  rw [Equal, equals]
  split <;> simp [*]

theorem Floatless.equals_self (ha : h.Floatless a) : h.Equal a a := by
  rw [equal_iff]
  by_cases hobject : ∃ i, h.resolve a = .object i
  · obtain ⟨i, hi⟩ := hobject
    rw [equalsWithin_objects hi hi, equalsWithin_self]
  · rw [equalsWithin_scalar fun ⟨i, _, hi, _⟩ => hobject ⟨i, hi⟩]
    cases ha with
    | scalar hexact => cases hv : h.resolve a <;> simp [hv, Value.isExact, scalarEquals] at hexact ⊢
    | list hv => exact (hobject ⟨_, hv⟩).elim
    | table hv => exact (hobject ⟨_, hv⟩).elim
    | set hv => exact (hobject ⟨_, hv⟩).elim

theorem scalarEquals_iff {s t : Value} (hs : s.isExact) (ht : ∀ x, t ≠ .float x) :
    scalarEquals s t = true ↔ t = s := by
  cases s <;> cases t <;> simp_all [Value.isExact, scalarEquals] <;> exact eq_comm

/-- Scalars are equal to themselves only. -/
theorem equals_scalar (ha : (h.resolve a).isExact) (hb : h.Floatless b) :
    h.Equal a b ↔ h.resolve b = h.resolve a := by
  have hobjects : ¬∃ i j, h.resolve a = .object i ∧ h.resolve b = .object j := by
    rintro ⟨i, j, hi, -⟩
    simp [hi, Value.isExact] at ha
  rw [equal_iff, equalsWithin_scalar hobjects, Option.some.injEq]
  exact scalarEquals_iff ha hb.not_float

/-- An object is equal to itself and to the objects of equal content. -/
theorem equals_object (ha : h.resolve a = .object i) :
    h.Equal a b ↔ ∃ j, h.resolve b = .object j ∧ (i = j ∨ ∃ x y, h.content? i = some x ∧ h.content? j = some y ∧
      contentEquals (h.equalsWithin h.pairBound) x y = some true) := by
  rw [equal_iff]
  by_cases hobject : ∃ j, h.resolve b = .object j
  · obtain ⟨j, hj⟩ := hobject
    simp only [hj, Value.object.injEq, exists_eq_left']
    rw [equalsWithin_objects ha hj]
    by_cases hij : i = j
    · simp [hij, equalsWithin_self]
    · rw [← equalsWithin_comparison.settled (Nat.le_succ _), equalsWithin_succ hij,
        equalsWithin_comparison.settled (Nat.le_succ _)]
      cases h.content? i <;> cases h.content? j <;> simp [hij]
  · rw [equalsWithin_scalar fun ⟨_, j, _, hj⟩ => hobject ⟨j, hj⟩, ha, Option.some.injEq]
    refine ⟨fun hequal => ?_, fun ⟨j, hj, _⟩ => (hobject ⟨j, hj⟩).elim⟩
    cases hb : h.resolve b with
    | object j => exact (hobject ⟨j, hb⟩).elim
    | _ => simp_all [scalarEquals]

/-- A container is equal to the objects of equal content, itself among them. -/
theorem equals_container {x : Content} (ha : h.resolve a = .object i) (hx : h.content? i = some x)
    (hself : contentEquals (h.equalsWithin h.pairBound) x x = some true) :
    h.Equal a b ↔ ∃ j y, h.resolve b = .object j ∧ h.content? j = some y ∧
      contentEquals (h.equalsWithin h.pairBound) x y = some true := by
  rw [equals_object ha]
  constructor
  · rintro ⟨j, hj, rfl | ⟨x', y, hx', hy, hequal⟩⟩
    · exact ⟨i, x, hj, hx, hself⟩
    · cases hx.symm.trans hx'
      exact ⟨j, y, hj, hy, hequal⟩
  · rintro ⟨j, y, hj, hy, hequal⟩
    exact ⟨j, hj, .inr ⟨x, y, hx, hy, hequal⟩⟩

theorem Floatless.equals_list {xs : Array Value} (ha : h.Floatless a) (hi : h.resolve a = .object i)
    (hx : h.content? i = some (.list xs)) :
    h.Equal a b ↔ ∃ j ys, h.resolve b = .object j ∧ h.content? j = some (.list ys) ∧
      List.Forall₂ h.Equal xs.toList ys.toList := by
  have hcontent {y : Content} : contentEquals (h.equalsWithin h.pairBound) (.list xs) y = some true ↔
      ∃ ys, y = .list ys ∧ List.Forall₂ h.Equal xs.toList ys.toList := by
    simp only [contentEquals_list, ← equal_iff]
  have hself : List.Forall₂ h.Equal xs.toList xs.toList :=
    List.forall₂_same.mpr fun x hmem => (ha.items hi hx x hmem).equals_self
  rw [equals_container hi hx (hcontent.mpr ⟨xs, rfl, hself⟩)]
  simp only [hcontent]
  constructor
  · rintro ⟨j, _, hj, hy, ys, rfl, hall⟩
    exact ⟨j, ys, hj, hy, hall⟩
  · rintro ⟨j, ys, hj, hy, hall⟩
    exact ⟨j, _, hj, hy, ys, rfl, hall⟩

theorem Floatless.equals_table {xs : Table} (ha : h.Floatless a) (hb : h.Floatless b)
    (hi : h.resolve a = .object i) (hx : h.content? i = some (.table xs)) :
    h.Equal a b ↔ ∃ j ys, h.resolve b = .object j ∧ h.content? j = some (.table ys) ∧ h.SameEntries xs ys := by
  obtain ⟨hxs, hvalues⟩ := ha.entries hi hx
  have hcontent {ys : Table} (hys : ys.Distinct) :
      contentEquals (h.equalsWithin h.pairBound) (.table xs) (.table ys) = some true ↔ h.SameEntries xs ys := by
    simp only [contentEquals_table hxs hys, ← equal_iff]
    exact ⟨fun hsame => ⟨hsame.1, hsame.2⟩, fun hsame => ⟨hsame.keys, hsame.values⟩⟩
  have hself : h.SameEntries xs xs := by
    refine ⟨fun _ => Iff.rfl, fun key v w hv hw => ?_⟩
    cases hv.symm.trans hw
    exact (hvalues _ (OrderedMap.mem_of_find? hv)).equals_self
  rw [equals_container hi hx ((hcontent hxs).mpr hself)]
  constructor
  · rintro ⟨j, y, hj, hy, hequal⟩
    cases y with
    | table ys => exact ⟨j, ys, hj, hy, (hcontent (hb.entries hj hy).1).mp hequal⟩
    | _ => simp [contentEquals] at hequal
  · rintro ⟨j, ys, hj, hy, hsame⟩
    exact ⟨j, _, hj, hy, (hcontent (hb.entries hj hy).1).mpr hsame⟩

theorem Floatless.equals_set {xs : KeySet} (ha : h.Floatless a) (hb : h.Floatless b)
    (hi : h.resolve a = .object i) (hx : h.content? i = some (.set xs)) :
    h.Equal a b ↔ ∃ j ys, h.resolve b = .object j ∧ h.content? j = some (.set ys) ∧
      ∀ key, key ∈ xs ↔ key ∈ ys := by
  have hxs := ha.elements hi hx
  rw [equals_container hi hx ((contentEquals_set hxs hxs).mpr fun _ => Iff.rfl)]
  constructor
  · rintro ⟨j, y, hj, hy, hequal⟩
    cases y with
    | set ys => exact ⟨j, ys, hj, hy, (contentEquals_set hxs (hb.elements hj hy)).mp hequal⟩
    | _ => simp [contentEquals] at hequal
  · rintro ⟨j, ys, hj, hy, hsame⟩
    exact ⟨j, _, hj, hy, (contentEquals_set hxs (hb.elements hj hy)).mpr hsame⟩

/-- Data without floats is equal to a value or is not. -/
theorem Floatless.equals_decided (ha : h.Floatless a) (b : Value) : ∃ r, h.equals a b = .ok r := by
  obtain ⟨r, hr⟩ := Option.ne_none_iff_exists'.mp (equalsWithin_comparison.ends (b := b) (.inl ha.founded))
  exact ⟨r, equals_ok_iff.mpr ⟨_, hr⟩⟩

theorem Floatless.equals_symm (ha : h.Floatless a) (hb : h.Floatless b) (hab : h.Equal a b) : h.Equal b a := by
  induction ha generalizing b with
  | @scalar a hexact =>
    have heq := (equals_scalar hexact hb).mp hab
    exact (equals_scalar (heq ▸ hexact) (.scalar hexact)).mpr heq.symm
  | @list a i xs hi hx hxs ih =>
    obtain ⟨j, ys, hj, hy, hall⟩ := ((Floatless.list hi hx hxs).equals_list hi hx).mp hab
    refine (hb.equals_list hj hy).mpr ⟨i, xs, hi, hx, ?_⟩
    refine List.forall₂_iff_get.mpr ⟨hall.length_eq.symm, fun k hk hk' => ?_⟩
    exact ih _ (List.get_mem _ _) (hb.items hj hy _ (List.get_mem _ _)) (hall.get hk' hk)
  | @table a i xs hi hx hkeys hvalues ih =>
    have ha := Floatless.table hi hx hkeys hvalues
    obtain ⟨j, ys, hj, hy, hsame⟩ := (ha.equals_table hb hi hx).mp hab
    refine (hb.equals_table ha hj hy).mpr ⟨i, xs, hi, hx, fun key => (hsame.keys key).symm, ?_⟩
    intro key w v hw hv
    have hfloatless := (hb.entries hj hy).2 _ (OrderedMap.mem_of_find? hw)
    exact ih _ (OrderedMap.mem_of_find? hv) hfloatless (hsame.values key v w hv hw)
  | @set a i xs hi hx hxs =>
    have ha := Floatless.set hi hx hxs
    obtain ⟨j, ys, hj, hy, hsame⟩ := (ha.equals_set hb hi hx).mp hab
    exact (hb.equals_set ha hj hy).mpr ⟨i, xs, hi, hx, fun key => (hsame key).symm⟩

theorem Floatless.equals_trans (ha : h.Floatless a) (hb : h.Floatless b) (hc : h.Floatless c) (hab : h.Equal a b)
    (hbc : h.Equal b c) : h.Equal a c := by
  induction ha generalizing b c with
  | @scalar a hexact =>
    have heq := (equals_scalar hexact hb).mp hab
    exact (equals_scalar hexact hc).mpr (((equals_scalar (heq ▸ hexact) hc).mp hbc).trans heq)
  | @list a i xs hi hx hxs ih =>
    have ha := Floatless.list hi hx hxs
    obtain ⟨j, ys, hj, hy, hxy⟩ := (ha.equals_list hi hx).mp hab
    obtain ⟨k, zs, hk, hz, hyz⟩ := (hb.equals_list hj hy).mp hbc
    refine (ha.equals_list hi hx).mpr ⟨k, zs, hk, hz, ?_⟩
    refine List.forall₂_iff_get.mpr ⟨hxy.length_eq.trans hyz.length_eq, fun n hn hn' => ?_⟩
    have hn'' : n < ys.toList.length := hxy.length_eq ▸ hn
    exact ih _ (List.get_mem _ _) (hb.items hj hy _ (List.get_mem _ ⟨n, hn''⟩)) (hc.items hk hz _ (List.get_mem _ _))
      (hxy.get hn hn'') (hyz.get hn'' hn')
  | @table a i xs hi hx hkeys hvalues ih =>
    have ha := Floatless.table hi hx hkeys hvalues
    obtain ⟨j, ys, hj, hy, hxy⟩ := (ha.equals_table hb hi hx).mp hab
    obtain ⟨k, zs, hk, hz, hyz⟩ := (hb.equals_table hc hj hy).mp hbc
    refine (ha.equals_table hc hi hx).mpr ⟨k, zs, hk, hz, fun key => (hxy.keys key).trans (hyz.keys key), ?_⟩
    intro key v u hv hu
    obtain ⟨w, hw⟩ := OrderedMap.mem_keys.mp ((hxy.keys key).mp (OrderedMap.mem_keys.mpr ⟨v, hv⟩))
    exact ih _ (OrderedMap.mem_of_find? hv) ((hb.entries hj hy).2 _ (OrderedMap.mem_of_find? hw))
      ((hc.entries hk hz).2 _ (OrderedMap.mem_of_find? hu)) (hxy.values key v w hv hw) (hyz.values key w u hw hu)
  | @set a i xs hi hx hxs =>
    have ha := Floatless.set hi hx hxs
    obtain ⟨j, ys, hj, hy, hxy⟩ := (ha.equals_set hb hi hx).mp hab
    obtain ⟨k, zs, hk, hz, hyz⟩ := (hb.equals_set hc hj hy).mp hbc
    exact (ha.equals_set hc hi hx).mpr ⟨k, zs, hk, hz, fun key => (hxy key).trans (hyz key)⟩

end Equality

-- ---------------------------------------------------------------------------
-- Equal parts
-- ---------------------------------------------------------------------------

section Replacement

variable {h : Heap} {w : Value} {i j : ObjectId}

/-- A list is equal to what it is with an equal item in the place of one of its items. -/
theorem Floatless.equals_replaced_item {xs : Array Value} {k : Nat} {hk : k < xs.size}
    (hi : h.Floatless (.object i)) (hx : h.content? i = some (.list xs))
    (hy : h.content? j = some (.list (xs.set k w))) (hw : h.Equal xs[k] w) :
    h.Equal (.object i) (.object j) := by
  refine (hi.equals_list rfl hx).mpr ⟨j, _, rfl, hy, List.forall₂_iff_get.mpr ⟨by simp, fun n hn hn' => ?_⟩⟩
  have hself : h.Equal xs.toList[n] xs.toList[n] := (hi.items rfl hx _ (List.getElem_mem hn)).equals_self
  simp only [List.get_eq_getElem, Array.toList_set, List.getElem_set]
  split
  · subst k
    exact hw
  · exact hself

/-- A table is equal to what it is with an equal value for one of its keys. -/
theorem Floatless.equals_replaced_value {xs : Table} {key : Key} {v : Value} (hi : h.Floatless (.object i))
    (hw : h.Floatless w) (hx : h.content? i = some (.table xs)) (hy : h.content? j = some (.table (xs.insert key w)))
    (hv : xs.find? key = some v) (hvw : h.Equal v w) : h.Equal (.object i) (.object j) := by
  obtain ⟨hkeys, hvalues⟩ := hi.entries rfl hx
  have hkeys' := hkeys.insert key w
  have hj : h.Floatless (.object j) := by
    refine .table rfl hy hkeys' fun entry hentry => ?_
    have hfind := hkeys'.find?_of_mem hentry
    rw [OrderedMap.find?_insert] at hfind
    split at hfind
    · cases hfind
      exact hw
    · exact hvalues _ (OrderedMap.mem_of_find? hfind)
  have hknown : key ∈ xs.keys.toList := OrderedMap.mem_keys.mpr ⟨v, hv⟩
  refine (hi.equals_table hj rfl hx).mpr ⟨j, _, rfl, hy, fun k => ?_, fun k a b ha hb => ?_⟩
  · rw [OrderedMap.keys_insert, if_pos hknown]
  · rw [OrderedMap.find?_insert] at hb
    split at hb
    · subst k
      cases hv.symm.trans ha
      cases hb
      exact hvw
    · cases ha.symm.trans hb
      exact (hvalues _ (OrderedMap.mem_of_find? ha)).equals_self

end Replacement

-- ---------------------------------------------------------------------------
-- Coherence
-- ---------------------------------------------------------------------------

/-- Equality of some data is an equivalence. Tables and sets are equal whichever way they were filled, and a
container is equal to what it is with an equal part in the place of one of its parts. -/
structure EqualityCoherent (h : Heap) (data : Value → Prop) : Prop where
  reflexive : ∀ a, data a → h.equals a a = .ok true
  symmetric : ∀ a b, data a → data b → ∃ r, h.equals a b = .ok r ∧ h.equals b a = .ok r
  transitive : ∀ a b c, data a → data b → data c → h.equals a b = .ok true → h.equals b c = .ok true →
    h.equals a c = .ok true
  tables : ∀ i j xs ys, data (.object i) → data (.object j) → h.content? i = some (.table xs) →
    h.content? j = some (.table ys) → (h.equals (.object i) (.object j) = .ok true ↔ h.SameEntries xs ys)
  sets : ∀ i j xs ys, data (.object i) → data (.object j) → h.content? i = some (.set xs) →
    h.content? j = some (.set ys) → (h.equals (.object i) (.object j) = .ok true ↔ ∀ key, key ∈ xs ↔ key ∈ ys)
  replacedItem : ∀ i j xs k w (hk : k < xs.size), data (.object i) → h.content? i = some (.list xs) →
    h.content? j = some (.list (xs.set k w)) → h.equals xs[k] w = .ok true →
    h.equals (.object i) (.object j) = .ok true
  replacedValue : ∀ i j xs key v w, data (.object i) → data w → h.content? i = some (.table xs) →
    h.content? j = some (.table (xs.insert key w)) → xs.find? key = some v → h.equals v w = .ok true →
    h.equals (.object i) (.object j) = .ok true

theorem equality_coherent (h : Heap) : h.EqualityCoherent h.Floatless where
  reflexive _ ha := ha.equals_self
  symmetric a b ha hb := by
    obtain ⟨r, hr⟩ := ha.equals_decided b
    obtain ⟨r', hr'⟩ := hb.equals_decided a
    have hiff : r = true ↔ r' = true := by
      constructor
      · rintro rfl
        exact Except.ok.inj (hr'.symm.trans (ha.equals_symm hb hr))
      · rintro rfl
        exact Except.ok.inj (hr.symm.trans (hb.equals_symm ha hr'))
    exact ⟨r, hr, Bool.eq_iff_iff.mpr hiff ▸ hr'⟩
  transitive _ _ _ ha hb hc hab hbc := ha.equals_trans hb hc hab hbc
  tables i j xs ys hi hj hx hy := by
    refine (hi.equals_table hj rfl hx).trans ⟨?_, fun hsame => ⟨j, ys, rfl, hy, hsame⟩⟩
    rintro ⟨j', ys', hj', hy', hsame⟩
    cases hj'
    cases hy.symm.trans hy'
    exact hsame
  sets i j xs ys hi hj hx hy := by
    refine (hi.equals_set hj rfl hx).trans ⟨?_, fun hsame => ⟨j, ys, rfl, hy, hsame⟩⟩
    rintro ⟨j', ys', hj', hy', hsame⟩
    cases hj'
    cases hy.symm.trans hy'
    exact hsame
  replacedItem _ _ _ _ _ _ hi hx hy hw := hi.equals_replaced_item hx hy hw
  replacedValue _ _ _ _ _ _ hi hw hx hy hv hvw := hi.equals_replaced_value hw hx hy hv hvw

end Heap

end Rill
