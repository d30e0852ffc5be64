-- SUMMARY: The keys of a map are distinct, and a map is what it gives for its keys.
import Mathlib.Data.List.Nodup
import Mathlib.Data.List.Perm.Subperm
import Rill.Value

/-!
# Maps as functions of their keys

A map keeps its entries in the order in which their keys came, each key once. Two maps that have as many
entries as each other, and of which one knows every key of the other, know the same keys.
-/

namespace Rill.OrderedMap

variable {κ α : Type} {m m' : OrderedMap κ α} {key k : κ} {v : α}

-- ---------------------------------------------------------------------------
-- Distinct keys
-- ---------------------------------------------------------------------------

theorem toList_keys (m : OrderedMap κ α) : m.keys.toList = m.entries.toList.map (·.1) := by
  rw [keys, Array.toList_map]

theorem toList_values (m : OrderedMap κ α) : m.values.toList = m.entries.toList.map (·.2) := by
  rw [values, Array.toList_map]

theorem length_keys (m : OrderedMap κ α) : m.keys.toList.length = m.size := by
  rw [keys, Array.length_toList, Array.size_map, size]

/-- No key stands twice. -/
def Distinct (m : OrderedMap κ α) : Prop := (m.entries.toList.map (·.1)).Nodup

instance [DecidableEq κ] : Decidable m.Distinct := inferInstanceAs (Decidable (List.Nodup _))

theorem distinct_iff : m.Distinct ↔ m.keys.toList.Nodup := by
  rw [Distinct, toList_keys]

theorem Distinct.size_eq (h : m.Distinct) (h' : m'.Distinct)
    (hkeys : ∀ key, key ∈ m.keys.toList ↔ key ∈ m'.keys.toList) : m.size = m'.size := by
  rw [← length_keys, ← length_keys]
  exact ((List.perm_ext_iff_of_nodup (distinct_iff.mp h) (distinct_iff.mp h')).mpr hkeys).length_eq

/-- Of two maps with as many entries, one knows all keys of the other only if both know the same. -/
theorem Distinct.keys_subset (h : m.Distinct) (hsize : m.size = m'.size)
    (hsubset : m.keys.toList ⊆ m'.keys.toList) : m'.keys.toList ⊆ m.keys.toList := by
  have hlength : m'.keys.toList.length ≤ m.keys.toList.length := by
    rw [length_keys, length_keys]
    exact Nat.le_of_eq hsize.symm
  exact ((List.Nodup.subperm (distinct_iff.mp h) hsubset).perm_of_length_le hlength).symm.subset

-- ---------------------------------------------------------------------------
-- Values of keys
-- ---------------------------------------------------------------------------

variable [DecidableEq κ]

theorem find?_toList (m : OrderedMap κ α) (key : κ) :
    m.find? key = (m.entries.toList.find? (·.1 = key)).map (·.2) := by
  rw [find?, Array.find?_toList]

theorem position?_toList (m : OrderedMap κ α) (key : κ) :
    m.position? key = m.entries.toList.findIdx? (·.1 = key) := by
  rw [position?, ← List.findIdx?_toArray, Array.toArray_toList]

/-- A value that is found stands beside its key. -/
theorem mem_of_find? (hv : m.find? key = some v) : (key, v) ∈ m.entries.toList := by
  rw [find?_toList] at hv
  obtain ⟨entry, hentry, rfl⟩ := Option.map_eq_some_iff.mp hv
  obtain rfl : entry.1 = key := by simpa using List.find?_some hentry
  exact List.mem_of_find?_eq_some hentry

/-- The keys are those of which the map knows a value. -/
theorem mem_keys : key ∈ m.keys.toList ↔ ∃ v, m.find? key = some v := by
  rw [toList_keys]
  constructor
  · intro hmem
    obtain ⟨entry, hentry, rfl⟩ := List.mem_map.mp hmem
    have hsome : (m.entries.toList.find? (·.1 = entry.1)).isSome :=
      List.find?_isSome.mpr ⟨entry, hentry, decide_eq_true rfl⟩
    obtain ⟨found, hfound⟩ := Option.isSome_iff_exists.mp hsome
    exact ⟨found.2, by rw [find?_toList, hfound]; rfl⟩
  · rintro ⟨v, hv⟩
    exact List.mem_map.mpr ⟨_, mem_of_find? hv, rfl⟩

/-- The value of a key is the one that stands beside it. -/
theorem Distinct.find?_of_mem (h : m.Distinct) (hmem : (key, v) ∈ m.entries.toList) : m.find? key = some v := by
  have hkey : key ∈ m.keys.toList := by
    rw [toList_keys]
    exact List.mem_map.mpr ⟨_, hmem, rfl⟩
  obtain ⟨found, hfound⟩ := mem_keys.mp hkey
  have heq : (key, found) = (key, v) := List.inj_on_of_nodup_map h (mem_of_find? hfound) hmem rfl
  rw [hfound, (Prod.mk.inj heq).2]

-- ---------------------------------------------------------------------------
-- Changes
-- ---------------------------------------------------------------------------

/-- An inserted value is found at its key; the other keys keep theirs. -/
theorem find?_insert (m : OrderedMap κ α) (key : κ) (v : α) (k : κ) :
    (m.insert key v).find? k = if k = key then some v else m.find? k := by
  rw [insert, find?_toList, find?_toList]
  cases hposition : m.position? key with
  | none =>
    rw [position?_toList, List.findIdx?_eq_none_iff] at hposition
    simp only [Array.toList_push, List.find?_append]
    by_cases hk : k = key
    · have hnone : m.entries.toList.find? (·.1 = k) = none := by
        simpa [List.find?_eq_none, hk] using hposition
      rw [hnone, if_pos hk]
      simp [hk]
    · simp [if_neg hk, Ne.symm hk]
  | some i =>
    rw [position?_toList] at hposition
    simp only [Array.toList_modify]
    generalize m.entries.toList = entries at hposition
    induction entries generalizing i with
    | nil => cases hposition
    | cons entry entries ih =>
      rw [List.findIdx?_cons] at hposition
      split at hposition
      · obtain rfl := Option.some.inj hposition
        obtain rfl : entry.1 = key := of_decide_eq_true ‹_›
        rw [List.modify_zero_cons]
        by_cases hk : k = entry.1
        · simp [hk]
        · simp [hk, Ne.symm hk]
      · rename_i hne
        obtain ⟨j, hj, rfl⟩ := Option.map_eq_some_iff.mp hposition
        rw [List.modify_succ_cons]
        by_cases hk : entry.1 = k
        · have hkey : k ≠ key := by simpa [hk] using hne
          simp [hk, hkey]
        · rw [List.find?_cons_of_neg (by simpa using hk), List.find?_cons_of_neg (by simpa using hk), ih j hj]

theorem keys_insert (m : OrderedMap κ α) (key : κ) (v : α) :
    (m.insert key v).keys.toList = if key ∈ m.keys.toList then m.keys.toList else m.keys.toList ++ [key] := by
  rw [insert]
  cases hposition : m.position? key with
  | none =>
    rw [position?_toList, List.findIdx?_eq_none_iff] at hposition
    have hnew : key ∉ m.keys.toList := by
      rw [toList_keys]
      intro hmem
      obtain ⟨entry, hentry, hkey⟩ := List.mem_map.mp hmem
      simpa [hkey] using hposition entry hentry
    rw [if_neg hnew, toList_keys, toList_keys, Array.toList_push, List.map_append]
    rfl
  | some i =>
    rw [position?_toList] at hposition
    have hmem : key ∈ m.keys.toList := by
      obtain ⟨hi, hkey, -⟩ := List.findIdx?_eq_some_iff_getElem.mp hposition
      rw [toList_keys]
      exact List.mem_map.mpr ⟨_, List.getElem_mem hi, of_decide_eq_true hkey⟩
    rw [if_pos hmem, toList_keys, toList_keys, Array.toList_modify]
    refine List.ext_getElem (by simp) fun j hj hj' => ?_
    simp only [List.getElem_map, List.getElem_modify]
    split <;> rfl

/-- The position of a key is told by the keys. -/
theorem position?_keys (m : OrderedMap κ α) (key : κ) : m.position? key = m.keys.toList.findIdx? (· = key) := by
  rw [position?_toList, toList_keys, List.findIdx?_map]
  rfl

/-- The value of a key is the one at its position. -/
theorem find?_values (m : OrderedMap κ α) (key : κ) :
    m.find? key = (m.position? key).bind fun k => m.values.toList[k]? := by
  rw [find?_toList, position?_toList, toList_values]
  generalize m.entries.toList = entries
  induction entries with
  | nil => rfl
  | cons entry entries ih =>
    rw [List.findIdx?_cons]
    by_cases hkey : entry.1 = key
    · simp [hkey]
    · rw [List.find?_cons_of_neg (by simpa using hkey), ih]
      simp only [hkey, decide_false, Bool.false_eq_true, if_false]
      cases entries.findIdx? (·.1 = key) <;> simp

theorem values_insert (m : OrderedMap κ α) (key : κ) (v : α) :
    (m.insert key v).values.toList =
      match m.position? key with
      | some k => m.values.toList.set k v
      | none => m.values.toList ++ [v] := by
  rw [insert]
  cases m.position? key with
  | none => simp [toList_values]
  | some k =>
    simp only [toList_values, Array.toList_modify]
    refine List.ext_getElem (by simp) fun j hj hj' => ?_
    simp only [List.getElem_map, List.getElem_modify, List.getElem_set]
    split <;> rfl

theorem values_erase (m : OrderedMap κ α) (key : κ) :
    (m.erase key).values.toList =
      match m.position? key with
      | some k => m.values.toList.eraseIdx k
      | none => m.values.toList := by
  rw [erase]
  cases m.position? key with
  | none => rfl
  | some k => simp [toList_values, List.eraseIdx_map]

/-- A value that is found stands at the position of its key. -/
theorem value_at_position (hv : m.find? key = some v) :
    ∃ k, m.position? key = some k ∧ m.values.toList[k]? = some v :=
  Option.bind_eq_some_iff.mp ((find?_values m key).symm.trans hv)

theorem find?_mem_values (hv : m.find? key = some v) : v ∈ m.values.toList := by
  obtain ⟨k, -, hvalue⟩ := value_at_position hv
  exact List.mem_of_getElem? hvalue

theorem position?_inj {i : Nat} (hkey : m.position? key = some i) (hk : m.position? k = some i) : key = k := by
  rw [position?_toList] at hkey hk
  obtain ⟨hi, hkey, -⟩ := List.findIdx?_eq_some_iff_getElem.mp hkey
  obtain ⟨_, hk, -⟩ := List.findIdx?_eq_some_iff_getElem.mp hk
  exact (of_decide_eq_true hkey).symm.trans (of_decide_eq_true hk)

/-- To insert the value that a key has already changes nothing. -/
theorem insert_find? (hv : m.find? key = some v) : m.insert key v = m := by
  obtain ⟨i, hposition, hvalue⟩ := value_at_position hv
  rw [toList_values, List.getElem?_map] at hvalue
  obtain ⟨entry, hentry, rfl⟩ := Option.map_eq_some_iff.mp hvalue
  rw [insert, hposition]
  refine congrArg OrderedMap.mk (Array.toList_inj.mp ?_)
  rw [Array.toList_modify]
  refine List.ext_getElem? fun j => ?_
  rw [List.getElem?_modify]
  split
  · next hij =>
    subst hij
    rw [hentry]
    rfl
  · exact Option.map_id'

theorem Distinct.insert (h : m.Distinct) (key : κ) (v : α) : (m.insert key v).Distinct := by
  rw [distinct_iff] at h ⊢
  rw [keys_insert]
  split
  · exact h
  · exact List.Nodup.append h (List.nodup_singleton key) (by simp only [List.disjoint_singleton]; assumption)

/-- A map made from entries has each key once, whichever entries they are. -/
theorem distinct_ofList (entries : List (κ × α)) : (ofList entries).Distinct := by
  have hinserted (m : OrderedMap κ α) (h : m.Distinct) :
      (entries.foldl (fun m entry => m.insert entry.1 entry.2) m).Distinct := by
    induction entries generalizing m with
    | nil => exact h
    | cons entry entries ih => exact ih _ (h.insert entry.1 entry.2)
  exact hinserted {} List.nodup_nil

theorem Distinct.erase (h : m.Distinct) (key : κ) : (m.erase key).Distinct := by
  rw [OrderedMap.erase]
  split
  · rename_i i _
    rw [Distinct, Array.toList_eraseIdxIfInBounds]
    exact List.Nodup.sublist ((List.eraseIdx_sublist _ i).map _) h
  · exact h

end Rill.OrderedMap
