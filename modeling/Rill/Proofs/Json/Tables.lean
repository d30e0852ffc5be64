-- SUMMARY: A table whose values have documents has one too, with a field for each entry.
import Rill.Proofs.Comparison.Ending
import Rill.Proofs.Decimals.Texts
import Rill.Proofs.Json.Values

/-!
# Tables as documents

The fields of the document of a table are named by the texts of its keys. Of two keys with the same text one
is that text itself: the texts of null, booleans, integers and floats tell these keys apart. So a table has a
field for each of its entries unless it has a text as a key that is the text of another key.
-/

namespace Rill

open Json Decimal

-- ---------------------------------------------------------------------------
-- Texts of keys
-- ---------------------------------------------------------------------------

theorem float_ofBits_toBits (x : Float) : Float.ofBits x.toBits = x := congrArg Float.ofModel (pack_unpack x.toModel)

namespace Key

/-- The key is selected by a value. -/
def Made (key : Key) : Prop := ∃ v : Value, v.key? = some key

variable {j k : Key}

theorem Made.exists_float {bits : UInt64} (h : (Key.float bits).Made) :
    ∃ x : Float, (Key.float bits).display = scriptForm.write x ∧ bits = x.toBits := by
  obtain ⟨v, hv⟩ := h
  cases v with
  | float x =>
    rw [Value.key?] at hv
    split at hv
    · cases hv
    · cases hv
      exact ⟨x, congrArg scriptForm.write (float_ofBits_toBits x), rfl⟩
  | _ => cases hv

/-- Of the texts of keys that are no texts themselves, only those of integers are read as integers. -/
theorem readInt_display (hk : k.Made) (htext : ∀ s, k ≠ .text s) :
    readInt k.display.toList = match k with | .int n => some n | _ => none := by
  cases k with
  | null => rfl
  | bool b => cases b <;> rfl
  | int n => exact readInt_toString n
  | float bits =>
    obtain ⟨x, hx, -⟩ := hk.exists_float
    rw [hx, readInt_write]
  | text s => exact absurd rfl (htext s)

/-- The text of a float is none of the three words. -/
theorem write_ne_word (x : Float) : scriptForm.write x ≠ "null" ∧ ∀ b : Bool, scriptForm.write x ≠ toString b := by
  refine ⟨write_ne ?_ ?_ (by decide) (by decide), fun b => ?_⟩
  · simp [splitSign]
  · exact readDecimal_none rfl rfl (by decide)
  · cases b with
    | false =>
      refine write_ne (s := "false") ?_ ?_ (by decide) (by decide)
      · simp [splitSign]
      · exact readDecimal_none rfl rfl (by decide)
    | true =>
      refine write_ne (s := "true") ?_ ?_ (by decide) (by decide)
      · simp [splitSign]
      · exact readDecimal_none rfl rfl (by decide)

/-- Different keys that are no texts have different texts. -/
theorem display_inj (hj : j.Made) (hk : k.Made) (hj' : ∀ s, j ≠ .text s) (hk' : ∀ s, k ≠ .text s)
    (h : j.display = k.display) : j = k := by
  have hread := readInt_display hj hj'
  rw [h, readInt_display hk hk'] at hread
  cases j with
  | text s => exact absurd rfl (hj' s)
  | int n => cases k with
    | int n' => rw [Option.some.inj hread]
    | _ => cases hread
  | null => cases k with
    | null => rfl
    | bool b => cases b <;> exact absurd h (by decide)
    | int n => cases hread
    | float bits =>
      obtain ⟨x, hx, -⟩ := hk.exists_float
      exact absurd (h.trans hx).symm (write_ne_word x).1
    | text s => exact absurd rfl (hk' s)
  | bool b => cases k with
    | null => cases b <;> exact absurd h (by decide)
    | bool b' => cases b <;> cases b' <;> first | rfl | exact absurd h (by decide)
    | int n => cases hread
    | float bits =>
      obtain ⟨x, hx, -⟩ := hk.exists_float
      exact absurd (h.trans hx).symm ((write_ne_word x).2 b)
    | text s => exact absurd rfl (hk' s)
  | float bits =>
    obtain ⟨x, hx, rfl⟩ := hj.exists_float
    rw [hx] at h
    cases k with
    | null => exact absurd h (write_ne_word x).1
    | bool b => exact absurd h ((write_ne_word x).2 b)
    | int n => cases hread
    | float bits' =>
      obtain ⟨y, hy, rfl⟩ := hk.exists_float
      rw [write_injective (h.trans hy)]
    | text s => exact absurd rfl (hk' s)

end Key

/-- No key of the table is there twice, and no text among its keys is the text of another one. -/
structure Table.Named (t : Table) : Prop where
  distinct : t.Distinct
  made : ∀ entry ∈ t.entries.toList, entry.1.Made
  apart : ∀ entry ∈ t.entries.toList, ∀ s, entry.1 = .text s →
    ∀ other ∈ t.entries.toList, other.1.display = s → other.1 = .text s

/-- A table is named exactly if its keys have different texts. -/
theorem Table.named_iff {t : Table} (hmade : ∀ entry ∈ t.entries.toList, entry.1.Made) :
    t.Named ↔ (t.entries.toList.map (·.1.display)).Nodup := by
  constructor
  · intro h
    have hkeys : ((t.entries.toList.map (·.1)).map Key.display).Nodup := by
      refine List.Nodup.map_on (fun j hj k hk heq => ?_) h.distinct
      obtain ⟨x, hx, rfl⟩ := List.mem_map.mp hj
      obtain ⟨y, hy, rfl⟩ := List.mem_map.mp hk
      by_cases hxtext : ∃ s, x.1 = .text s
      · obtain ⟨s, hs⟩ := hxtext
        rw [h.apart x hx s hs y hy (heq.symm.trans (congrArg Key.display hs)), hs]
      · by_cases hytext : ∃ s, y.1 = .text s
        · obtain ⟨s, hs⟩ := hytext
          rw [h.apart y hy s hs x hx (heq.trans (congrArg Key.display hs)), hs]
        · exact Key.display_inj (hmade x hx) (hmade y hy) (not_exists.mp hxtext) (not_exists.mp hytext) heq
    rwa [List.map_map] at hkeys
  · intro hnodup
    refine ⟨?_, hmade, fun x hx s hs y hy hdisplay => ?_⟩
    · rw [← Function.comp_def, ← List.map_map] at hnodup
      exact hnodup.of_map _
    · rw [← hs, List.inj_on_of_nodup_map hnodup hy hx (hdisplay.trans (congrArg Key.display hs).symm)]

-- ---------------------------------------------------------------------------
-- Lists of results
-- ---------------------------------------------------------------------------

section Results

variable {ε α β : Type} {f g : α → Except ε β} {as : List α} {bs : List β}

/-- A list is gone through without an error if every item has a result. -/
theorem mapM_ok_iff : as.mapM f = .ok bs ↔ List.Forall₂ (fun a b => f a = .ok b) as bs := by
  induction as generalizing bs with
  | nil =>
    rw [List.forall₂_nil_left_iff]
    exact ⟨fun h => (Except.ok.inj h).symm, fun h => h ▸ rfl⟩
  | cons a as ih =>
    rw [List.mapM_cons, List.forall₂_cons_left_iff]
    cases hf : f a with
    | error e => exact ⟨nofun, fun ⟨b, _, hb, _⟩ => nomatch hb⟩
    | ok b =>
      cases hrest : as.mapM f with
      | error e =>
        refine ⟨nofun, fun ⟨_, bs', _, hbs', _⟩ => ?_⟩
        cases hrest.symm.trans (ih.mpr hbs')
      | ok bs' =>
        constructor
        · intro h
          exact ⟨b, bs', rfl, ih.mp hrest, (Except.ok.inj h).symm⟩
        · rintro ⟨b', bs'', hb, hbs, rfl⟩
          cases hb
          rw [Except.ok.inj (hrest.symm.trans (ih.mpr hbs))]
          rfl

theorem exists_mapM_iff : (∃ bs, as.mapM f = .ok bs) ↔ ∀ a ∈ as, ∃ b, f a = .ok b := by
  simp only [mapM_ok_iff]
  induction as with
  | nil => simp
  | cons a as ih =>
    rw [List.forall_mem_cons, ← ih]
    constructor
    · rintro ⟨_, hbs⟩
      cases hbs with
      | cons hb hbs => exact ⟨⟨_, hb⟩, _, hbs⟩
    · rintro ⟨⟨b, hb⟩, bs, hbs⟩
      exact ⟨b :: bs, .cons hb hbs⟩

theorem mapM_mono (h : ∀ a ∈ as, ∀ b, f a = .ok b → g a = .ok b) (hf : as.mapM f = .ok bs) : as.mapM g = .ok bs := by
  rw [mapM_ok_iff] at hf ⊢
  induction hf with
  | nil => exact .nil
  | cons hb _ ih =>
    obtain ⟨ha, has⟩ := List.forall_mem_cons.mp h
    exact .cons (ha _ hb) (ih has)

theorem bind_eq_ok {x : Except ε α} {k : α → Except ε β} {b : β} :
    (x >>= k) = .ok b ↔ ∃ a, x = .ok a ∧ k a = .ok b := by
  cases x with
  | error e => exact ⟨nofun, fun ⟨_, ha, _⟩ => nomatch ha⟩
  | ok a => exact ⟨fun h => ⟨a, rfl, h⟩, fun ⟨_, ha, h⟩ => by cases ha; exact h⟩

end Results

-- ---------------------------------------------------------------------------
-- What an object holds
-- ---------------------------------------------------------------------------

/-- The values whose documents the document of an object is made of. -/
def Content.held : Content → List Value
  | .list items => items.toList
  | .table entries => entries.entries.toList.map (·.2)
  | .set elements => elements.toList.map Key.value
  | _ => []

namespace Heap

/-- The document of what an object holds, given those of the values in it. -/
def assembled (h : Heap) (cls : ClassId) (content : Content) (ds : List Document) : Except Failure Document :=
  match content with
  | .list _ | .set _ => .ok (.list ds)
  | .table table =>
    .ok (.object (OrderedMap.ofList ((table.entries.toList.map (·.1.display)).zip ds)).entries.toList)
  | .array m => matrixDocument m
  | _ => .error (Fault.notJson (h.classes.name cls))

theorem mapM_entries (value : Value → Except Failure Document) (entries : List (Key × Value)) :
    (entries.mapM fun (key, v) => do return (key.display, ← value v)) =
      (entries.map (·.2)).mapM value >>= fun ds => pure ((entries.map (·.1.display)).zip ds) := by
  induction entries with
  | nil => rfl
  | cons entry entries ih =>
    obtain ⟨key, v⟩ := entry
    rw [List.mapM_cons, ih, List.map_cons, List.map_cons, List.mapM_cons]
    dsimp only
    cases value v with
    | error e => rfl
    | ok d => cases (entries.map (·.2)).mapM value <;> rfl

theorem contentDocument_eq (h : Heap) (cls : ClassId) (value : Value → Except Failure Document) (content : Content) :
    h.contentDocument cls value content = content.held.mapM value >>= h.assembled cls content := by
  cases content with
  | list items => rfl
  | set elements =>
    rw [contentDocument, Content.held, List.mapM_map]
    rfl
  | table entries =>
    rw [contentDocument, mapM_entries, Content.held]
    cases (entries.entries.toList.map (·.2)).mapM value <;> rfl
  | _ => rfl

-- ---------------------------------------------------------------------------
-- Documents inside documents
-- ---------------------------------------------------------------------------

section Documents

variable {h : Heap} {v w : Value} {i j : ObjectId} {o : Object} {d : Document} {n k : Nat}
  {around around' : List ObjectId}

/-- A value that is no object has the same document everywhere. -/
theorem documentWithin_scalar (hv : ∀ i, h.resolve v ≠ .object i) (n k : Nat) (around around' : List ObjectId) :
    h.documentWithin n around v = h.documentWithin k around' v := by
  rw [documentWithin.eq_def, documentWithin.eq_def]
  cases hr : h.resolve v with
  | object i => exact absurd hr (hv i)
  | _ => simp only [hr]

/-- An object has a document if it is not around itself and what it holds has documents. -/
theorem documentWithin_object_iff (hv : h.resolve v = .object i) : h.documentWithin n around v = .ok d ↔
    i ∉ around ∧ ∃ k o, n = k + 1 ∧ h.object? i = some o ∧ ∃ ds,
      o.content.held.mapM (h.documentWithin k (i :: around)) = .ok ds ∧ h.assembled o.cls o.content ds = .ok d := by
  rw [documentWithin.eq_def]
  simp only [hv, List.contains_iff_mem]
  split
  · rename_i hmem
    constructor
    · intro h
      cases h
    · intro hright
      exact absurd hmem hright.1
  · rename_i hmem
    cases n with
    | zero => cases h.object? i <;> simp
    | succ n =>
      cases ho : h.object? i with
      | none => simp
      | some o =>
        dsimp only
        rw [contentDocument_eq, bind_eq_ok]
        constructor
        · exact fun hds => ⟨hmem, n, o, rfl, rfl, hds⟩
        · rintro ⟨-, k, o', ⟨⟩, ⟨⟩, hds⟩
          exact hds

/-- With more fuel and fewer objects around it a value keeps its document. -/
theorem documentWithin_mono (hd : h.documentWithin n around v = .ok d) (hle : n ≤ k) (hsub : around' ⊆ around) :
    h.documentWithin k around' v = .ok d := by
  induction n using Nat.strongRecOn generalizing v d k around around' with
  | ind n ih =>
    by_cases hv : ∃ i, h.resolve v = .object i
    · obtain ⟨i, hv⟩ := hv
      obtain ⟨hmem, n, o, rfl, ho, ds, hds, hassembled⟩ := (documentWithin_object_iff hv).mp hd
      obtain ⟨k, rfl⟩ : ∃ k', k = k' + 1 := ⟨k - 1, by omega⟩
      refine (documentWithin_object_iff hv).mpr ⟨fun hi => hmem (hsub hi), k, o, rfl, ho, ds, ?_, hassembled⟩
      exact mapM_mono (fun w _ e he => ih n n.lt_succ_self he (by omega) (List.cons_subset_cons i hsub)) hds
    · rw [← hd]
      exact documentWithin_scalar (not_exists.mp hv) ..

theorem held_object {content : Content} (hw : w ∈ content.held) (hj : h.resolve w = .object j) : w ∈ content.parts := by
  cases content with
  | list _ => exact hw
  | table entries => rwa [Content.parts, OrderedMap.values, Array.toList_map]
  | set elements =>
    obtain ⟨key, -, rfl⟩ := List.mem_map.mp hw
    cases key <;> cases hj
  | _ => cases hw

theorem parts_held {content : Content} (hw : w ∈ content.parts) : w ∈ content.held := by
  cases content with
  | list _ => exact hw
  | table entries => rwa [Content.parts, OrderedMap.values, Array.toList_map] at hw
  | _ => cases hw

/-- Whatever object is inside a value that has a document, a value for it has one too, with that object and those
around the value around it. -/
theorem exists_inner_document (hd : h.documentWithin n around v = .ok d) (hv : h.resolve v = .object i)
    (hinside : Relation.ReflTransGen h.Inside j i) : ∃ w k around' e, h.resolve w = .object j ∧
      h.documentWithin k around' w = .ok e ∧ around ⊆ around' := by
  induction hinside generalizing n around v d with
  | refl => exact ⟨v, n, around, d, hv, hd, List.Subset.refl _⟩
  | tail _ hstep ih =>
    obtain ⟨content, hcontent, w, hw, hobject⟩ := hstep
    obtain ⟨-, k, o, -, ho, ds, hds, -⟩ := (documentWithin_object_iff hv).mp hd
    obtain rfl : o.content = content := by
      rw [content?, ho] at hcontent
      exact Option.some.inj hcontent
    obtain ⟨e, he⟩ := exists_mapM_iff.mp ⟨ds, hds⟩ w (parts_held hw)
    obtain ⟨w', k', around', e', hw', he', hsub⟩ := ih he hobject
    exact ⟨w', k', around', e', hw', he', (List.cons_subset.mp hsub).2⟩

/-- A value that has a document does not contain itself, nor does anything in it. -/
theorem not_cyclic_of_document (hd : h.documentWithin n around v = .ok d) : ¬h.Cyclic v := by
  rintro ⟨i, hv, j, hinside, hcycle⟩
  obtain ⟨w, k, around', e, hw, he, -⟩ := exists_inner_document hd hv hinside
  obtain ⟨i', hinside', hstep⟩ := Relation.TransGen.tail'_iff.mp hcycle
  obtain ⟨content, hcontent, w', hw', hobject⟩ := hstep
  obtain ⟨-, k', o, -, ho, ds, hds, -⟩ := (documentWithin_object_iff hw).mp he
  obtain rfl : o.content = content := by
    rw [content?, ho] at hcontent
    exact Option.some.inj hcontent
  obtain ⟨e', he'⟩ := exists_mapM_iff.mp ⟨ds, hds⟩ w' (parts_held hw')
  obtain ⟨u, k₂, around₂, e₂, hu, he₂, hsub⟩ := exists_inner_document he' hobject hinside'
  exact ((documentWithin_object_iff hu).mp he₂).1 (hsub List.mem_cons_self)

/-- A value keeps its document with one more object around it that it does not contain. The objects around it are
different, so that the fuel for that object is not missed. -/
theorem documentWithin_below (hd : h.documentWithin (n + 1) around v = .ok d) {i : ObjectId}
    (houtside : ∀ j, h.resolve v = .object j → ¬Relation.ReflTransGen h.Inside i j)
    (hnodup : (around ++ [i]).Nodup) (hvalid : ∀ j ∈ around ++ [i], ∃ o, h.object? j = some o)
    (hroom : h.objects.size ≤ n + around.length) : h.documentWithin n (around ++ [i]) v = .ok d := by
  induction n using Nat.strongRecOn generalizing v d around with
  | ind n ih =>
    by_cases hv : ∃ j, h.resolve v = .object j
    · obtain ⟨j, hv⟩ := hv
      obtain ⟨hmem, _, o, ⟨⟩, ho, ds, hds, hassembled⟩ := (documentWithin_object_iff hv).mp hd
      have hne : j ∉ around ++ [i] := by
        rw [List.mem_append, List.mem_singleton]
        rintro (hj | rfl)
        · exact hmem hj
        · exact houtside j hv .refl
      have hnodup : (j :: around ++ [i]).Nodup := List.nodup_cons.mpr ⟨hne, hnodup⟩
      have hvalid : ∀ j' ∈ j :: around ++ [i], ∃ o, h.object? j' = some o := List.forall_mem_cons.mpr ⟨⟨o, ho⟩, hvalid⟩
      have hlength := length_le_objects hnodup hvalid
      simp only [List.length_append, List.length_cons, List.length_nil] at hlength
      obtain ⟨n, rfl⟩ : ∃ n', n = n' + 1 := ⟨n - 1, by omega⟩
      refine (documentWithin_object_iff hv).mpr ⟨hne, n, o, rfl, ho, ds, ?_, hassembled⟩
      refine mapM_mono (fun w hw e he => ?_) hds
      refine ih n n.lt_succ_self he (fun j' hj' hinside => ?_) hnodup hvalid (by rw [List.length_cons]; omega)
      exact houtside j hv (hinside.tail ⟨o.content, by rw [content?, ho]; rfl, w, held_object hw hj', hj'⟩)
    · rw [← hd]
      exact documentWithin_scalar (not_exists.mp hv) ..

/-- An object has a document exactly if what it holds has documents, and it is assembled from these. -/
theorem document_object_iff (hv : h.resolve v = .object i) (ho : h.object? i = some o) :
    h.document v = .ok d ↔ ∃ ds, o.content.held.mapM h.document = .ok ds ∧ h.assembled o.cls o.content ds = .ok d := by
  have hcontent : h.content? i = some o.content := by rw [content?, ho]; rfl
  rw [document, documentWithin_object_iff hv]
  constructor
  · rintro ⟨-, _, o', ⟨⟩, ho', ds, hds, hassembled⟩
    cases ho.symm.trans ho'
    exact ⟨ds, mapM_mono (fun w _ e he => documentWithin_mono he (Nat.le_succ _) (List.nil_subset _)) hds, hassembled⟩
  · rintro ⟨ds, hds, hassembled⟩
    refine ⟨List.not_mem_nil, _, o, rfl, ho, ds, mapM_mono (fun w hw e he => ?_) hds, hassembled⟩
    -- What is held would contain itself if the object were inside it.
    refine documentWithin_below he (fun j hj hinside => not_cyclic_of_document he ⟨j, hj, i, hinside, ?_⟩)
      (List.nodup_singleton i) (List.forall_mem_singleton.mpr ⟨o, ho⟩) (Nat.le_refl _)
    exact Relation.TransGen.tail' hinside ⟨o.content, hcontent, w, held_object hw hj, hj⟩

end Documents

-- ---------------------------------------------------------------------------
-- What a document says
-- ---------------------------------------------------------------------------

/-- The document says what the value is. Lists and sets have an item for each of theirs and arrays one for each of
their rows. Tables have a field for each entry, in the order of the entries, that is named by the text of its key and
says what its value is. -/
inductive Carries (h : Heap) : Value → Document → Prop
  | null {v : Value} (hv : h.resolve v = .null ∨ (h.resolve v).isCell) : Carries h v .null
  | bool {v : Value} {b : Bool} (hv : h.resolve v = .bool b) : Carries h v (.bool b)
  | int {v : Value} {n : Int64} (hv : h.resolve v = .int n) : Carries h v (.int n)
  | float {v : Value} {x : Float} (hv : h.resolve v = .float x) : Carries h v (.float x)
  | text {v : Value} {s : String} (hv : h.resolve v = .text s) : Carries h v (.text s)
  | list {v : Value} {i : ObjectId} {items : Array Value} {ds : List Document} (hv : h.resolve v = .object i)
      (hcontent : h.content? i = some (.list items)) (hitems : List.Forall₂ (Carries h) items.toList ds) :
      Carries h v (.list ds)
  | set {v : Value} {i : ObjectId} {elements : KeySet} {ds : List Document} (hv : h.resolve v = .object i)
      (hcontent : h.content? i = some (.set elements))
      (hitems : List.Forall₂ (Carries h) (elements.toList.map Key.value) ds) : Carries h v (.list ds)
  | array {v : Value} {i : ObjectId} {rows : Matrix} {d : Document} (hv : h.resolve v = .object i)
      (hcontent : h.content? i = some (.array rows)) (hrows : matrixDocument rows = .ok d) : Carries h v d
  | table {v : Value} {i : ObjectId} {table : Table} {fields : List (String × Document)}
      (hv : h.resolve v = .object i) (hcontent : h.content? i = some (.table table))
      (hnames : fields.map (·.1) = table.entries.toList.map (·.1.display))
      (hvalues : List.Forall₂ (Carries h) (table.entries.toList.map (·.2)) (fields.map (·.2))) :
      Carries h v (.object fields)

/-- The tables in the value, at any depth, are named. -/
def TablesNamed (h : Heap) (v : Value) : Prop :=
  ∀ i j table, h.resolve v = .object i → Relation.ReflTransGen h.Inside j i →
    h.content? j = some (.table table) → table.Named

section Carries

variable {h : Heap} {v : Value} {d : Document}

/-- The names and the values of fields, side by side with entries. -/
theorem forall₂_fields {entries : List (Key × Value)} {fields : List (String × Document)}
    (hnames : fields.map (·.1) = entries.map (·.1.display))
    (hvalues : List.Forall₂ (Carries h) (entries.map (·.2)) (fields.map (·.2))) :
    List.Forall₂ (fun entry field => field.1 = entry.1.display ∧ h.Carries entry.2 field.2) entries fields := by
  induction entries generalizing fields with
  | nil =>
    obtain rfl := List.map_eq_nil_iff.mp hnames
    exact .nil
  | cons entry entries ih =>
    cases fields with
    | nil => cases hnames
    | cons field fields =>
      obtain ⟨hname, hnames⟩ := List.cons.inj hnames
      obtain ⟨hvalue, hvalues⟩ := List.forall₂_cons.mp hvalues
      exact .cons ⟨hname, hvalue⟩ (ih hnames hvalues)

theorem carries_scalar (hv : ∀ i, h.resolve v ≠ .object i) (hd : h.document v = .ok d) : h.Carries v d := by
  rw [document, documentWithin.eq_def] at hd
  cases hr : h.resolve v with
  | object i => exact absurd hr (hv i)
  | float x =>
    simp only [hr, floatDocument] at hd
    split at hd
    · cases hd
    · cases hd
      exact .float hr
  | null => simp only [hr] at hd; cases hd; exact .null (.inl hr)
  | cell id => simp only [hr] at hd; cases hd; exact .null (.inr (by rw [hr]; rfl))
  | bool b => simp only [hr] at hd; cases hd; exact .bool hr
  | int n => simp only [hr] at hd; cases hd; exact .int hr
  | text s => simp only [hr] at hd; cases hd; exact .text hr

theorem TablesNamed.part {i j : ObjectId} {w : Value} (hnamed : h.TablesNamed v) (hv : h.resolve v = .object i)
    (hw : h.resolve w = .object j) (hinside : h.Inside j i) : h.TablesNamed w := by
  intro i' k table hi' hk hcontent
  cases hw.symm.trans hi'
  exact hnamed i k table hv (hk.tail hinside) hcontent

section Fields

variable {table : Table} {ds : List Document} (hlength : (table.entries.toList.map (·.2)).length = ds.length)
include hlength

theorem names_zip :
    ((table.entries.toList.map (·.1.display)).zip ds).map (·.1) = table.entries.toList.map (·.1.display) :=
  List.map_fst_zip (by rw [List.length_map, ← hlength, List.length_map])

theorem values_zip : ((table.entries.toList.map (·.1.display)).zip ds).map (·.2) = ds :=
  List.map_snd_zip (by rw [List.length_map, ← hlength, List.length_map])

/-- The fields of a named table are the texts of its keys beside the documents of its values. -/
theorem assembled_table (hnamed : table.Named) (cls : ClassId) :
    h.assembled cls (.table table) ds = .ok (.object ((table.entries.toList.map (·.1.display)).zip ds)) := by
  have hnodup : (((table.entries.toList.map (·.1.display)).zip ds).map (·.1)).Nodup := by
    rw [names_zip hlength]
    exact (Table.named_iff hnamed.made).mp hnamed
  rw [assembled, ofList_eq hnodup]

end Fields

/-- The document of a value says what the value is, if the tables in it are named. -/
theorem carries_of_document (hd : h.document v = .ok d) (hnamed : h.TablesNamed v) : h.Carries v d := by
  by_cases hv : ∃ i, h.resolve v = .object i
  · obtain ⟨i, hv⟩ := hv
    have hfounded := founded_of_not_cyclic (not_cyclic_of_document hd) i hv
    induction hfounded generalizing v d with
    | intro i _ ih =>
      obtain ⟨-, _, ⟨cls, content⟩, -, ho, -⟩ := (documentWithin_object_iff hv).mp hd
      have hcontent : h.content? i = some content := by rw [content?, ho]; rfl
      obtain ⟨ds, hds, hassembled⟩ := (document_object_iff hv ho).mp hd
      have hheld : ∀ w ∈ content.held, ∀ e, h.document w = .ok e → h.Carries w e := by
        intro w hw e he
        by_cases hobject : ∃ j, h.resolve w = .object j
        · obtain ⟨j, hj⟩ := hobject
          have hinside : h.Inside j i := ⟨content, hcontent, w, held_object hw hj, hj⟩
          exact ih j hinside he (hnamed.part hv hj hinside) hj
        · exact carries_scalar (not_exists.mp hobject) he
      have hcarried : List.Forall₂ h.Carries content.held ds :=
        ((List.forall₂_and_left _ _).mpr ⟨hheld, mapM_ok_iff.mp hds⟩).imp fun w e h => h.1 e h.2
      cases content with
      | list items =>
        cases hassembled
        exact .list hv hcontent hcarried
      | set elements =>
        cases hassembled
        exact .set hv hcontent hcarried
      | array rows => exact .array hv hcontent hassembled
      | table table =>
        have hlength : (table.entries.toList.map (·.2)).length = ds.length := hcarried.length_eq
        rw [assembled_table hlength (hnamed i i table hv .refl hcontent)] at hassembled
        cases hassembled
        refine .table hv hcontent (names_zip hlength) ?_
        rw [values_zip hlength]
        exact hcarried
      | _ => cases hassembled
  · exact carries_scalar (not_exists.mp hv) hd

end Carries

end Heap

theorem dump_run {m : Machine} {v : Value} {d : Document} (hd : m.heap.document v = .ok d) :
    Library.json .dump #[v] m = .ok (.text (String.ofList d.write)) m := by
  have hlift : (MonadLift.monadLift (m.heap.document v) : Run Document) m = .ok d m := by rw [hd]; rfl
  change EStateM.bind (MonadLift.monadLift (m.heap.document v)) _ m = _
  rw [EStateM.bind, hlift]
  rfl

/-- A table whose values have documents is dumped as an object with a field for each entry, in the order of the
entries. The field is named by the text of the key and says what the value is, and no two fields have the same name.
At any depth, no text is a key beside another key of that text. -/
theorem dump_keeps_entries {m : Machine} {v : Value} {i : ObjectId} {table : Table}
    (hv : m.heap.resolve v = .object i) (htable : m.heap.content? i = some (.table table))
    (hvalues : ∀ entry ∈ table.entries.toList, ∃ d, m.heap.document entry.2 = .ok d)
    (hnamed : m.heap.TablesNamed v) :
    ∃ fields, Library.json .dump #[v] m = .ok (.text (String.ofList (Document.object fields).write)) m ∧
      (fields.map (·.1)).Nodup ∧
      List.Forall₂ (fun entry field => field.1 = entry.1.display ∧ m.heap.Carries entry.2 field.2)
        table.entries.toList fields := by
  have htableNamed := hnamed i i table hv .refl htable
  obtain ⟨⟨cls, content⟩, ho, rfl⟩ := Option.map_eq_some_iff.mp htable
  obtain ⟨ds, hds⟩ := exists_mapM_iff.mpr (List.forall_mem_map.mpr hvalues)
  have hlength := (mapM_ok_iff.mp hds).length_eq
  have hdocument := (Heap.document_object_iff hv ho).mpr ⟨ds, hds, Heap.assembled_table hlength htableNamed cls⟩
  refine ⟨_, dump_run hdocument, ?_, ?_⟩
  · rw [Heap.names_zip hlength]
    exact (Table.named_iff htableNamed.made).mp htableNamed
  · cases Heap.carries_of_document hdocument hnamed with
    | table hv' htable' hnames hcarried =>
      cases hv.symm.trans hv'
      cases htable.symm.trans htable'
      exact Heap.forall₂_fields hnames hcarried
    | array hv' hrows =>
      cases hv.symm.trans hv'
      cases htable.symm.trans hrows

/-- A table of a null, a boolean, an integer, a float and a text, with a table in a list in it. -/
theorem dump_keeps_entries_mixed :
    let inner : Table := ⟨#[(.int 1, .null)]⟩
    let table : Table := ⟨#[(.null, .int 1), (.bool true, .object ⟨1⟩), (.int 7, .null),
      (.float (0.5 : Float).toBits, .text "s"), (.text "x", .bool true)]⟩
    let heap : Heap :=
      { objects := #[some ⟨.table, .table table⟩, some ⟨.list, .list #[.object ⟨2⟩]⟩, some ⟨.table, .table inner⟩] }
    let m : Machine := { config := {}, heap }
    heap.resolve (.object ⟨0⟩) = .object ⟨0⟩ ∧ heap.content? ⟨0⟩ = some (.table table) ∧
      (∀ entry ∈ table.entries.toList, ∃ d, heap.document entry.2 = .ok d) ∧ heap.TablesNamed (.object ⟨0⟩) ∧
      ∃ fields, Library.json .dump #[.object ⟨0⟩] m = .ok (.text (String.ofList (Document.object fields).write)) m ∧
        fields.length = 5 := by
  intro inner table heap m
  have hinnerNamed : inner.Named :=
    (Table.named_iff (List.forall_mem_singleton.mpr ⟨.int 1, rfl⟩)).mpr (by decide +kernel)
  have htableNamed : table.Named := by
    refine (Table.named_iff ?_).mpr (by decide +kernel)
    simp only [table, List.forall_mem_cons]
    exact ⟨⟨.null, rfl⟩, ⟨.bool true, rfl⟩, ⟨.int 7, rfl⟩, ⟨.float 0.5, by decide +kernel⟩, ⟨.text "x", rfl⟩, nofun⟩
  have hnamed : heap.TablesNamed (.object ⟨0⟩) := by
    rintro i ⟨j⟩ t - - hcontent
    match j with
    | 0 => cases hcontent; exact htableNamed
    | 1 => cases hcontent
    | 2 => cases hcontent; exact hinnerNamed
    | _ + 3 => cases hcontent
  have hinner : heap.document (.object ⟨2⟩) = .ok (.object [((Key.int 1).display, .null)]) :=
    (Heap.document_object_iff rfl rfl).mpr ⟨[.null], rfl, Heap.assembled_table rfl hinnerNamed _⟩
  have hobject : heap.object? ⟨1⟩ = some ⟨.list, .list #[.object ⟨2⟩]⟩ := rfl
  have hitems : [Value.object ⟨2⟩].mapM heap.document = .ok [.object [((Key.int 1).display, .null)]] :=
    mapM_ok_iff.mpr (.cons hinner .nil)
  have hlist : heap.document (.object ⟨1⟩) = .ok (.list [.object [((Key.int 1).display, .null)]]) :=
    (Heap.document_object_iff rfl hobject).mpr ⟨_, hitems, rfl⟩
  have hvalues : ∀ entry ∈ table.entries.toList, ∃ d, heap.document entry.2 = .ok d := by
    simp only [table, List.forall_mem_cons]
    exact ⟨⟨_, rfl⟩, ⟨_, hlist⟩, ⟨_, rfl⟩, ⟨_, rfl⟩, ⟨_, rfl⟩, nofun⟩
  obtain ⟨fields, hdump, -, hfields⟩ := dump_keeps_entries (m := m) rfl rfl hvalues hnamed
  exact ⟨rfl, rfl, hvalues, hnamed, fields, hdump, hfields.length_eq.symm⟩

/-- The entries of an integer and of its text become one field, with the value of the later one. -/
theorem dump_merges_entries :
    let table : Table := ⟨#[(.int 1, .text "a"), (.text "1", .text "b")]⟩
    let heap : Heap := { objects := #[some ⟨.table, .table table⟩] }
    table.Distinct ∧ (∀ entry ∈ table.entries.toList, entry.1.Made) ∧
      (∀ entry ∈ table.entries.toList, ∃ d, heap.document entry.2 = .ok d) ∧ table.size = 2 ∧
      heap.document (.object ⟨0⟩) = .ok (.object [("1", .text "b")]) ∧
      Library.json .dump #[.object ⟨0⟩] { config := {}, heap } =
        .ok (.text "\x7b\"1\":\"b\"\x7d") { config := {}, heap } := by
  intro table heap
  have hname : (Key.int 1).display = "1" := by decide
  have hmerged : heap.assembled .table (.table table) [.text "a", .text "b"] = .ok (.object [("1", .text "b")]) := by
    change Except.ok (Document.object (OrderedMap.ofList
      [((Key.int 1).display, Document.text "a"), ("1", .text "b")]).entries.toList) = _
    rw [hname]
    simp [OrderedMap.ofList, OrderedMap.insert, OrderedMap.position?]
  have hdocument : heap.document (.object ⟨0⟩) = .ok (.object [("1", .text "b")]) :=
    (Heap.document_object_iff rfl rfl).mpr ⟨[.text "a", .text "b"], rfl, hmerged⟩
  have htext : String.ofList (Document.object [("1", .text "b")]).write = "\x7b\"1\":\"b\"\x7d" := by decide +kernel
  refine ⟨by decide, ?_, ?_, rfl, hdocument, htext ▸ dump_run hdocument⟩
  · exact List.forall_mem_cons.mpr ⟨⟨.int 1, rfl⟩, List.forall_mem_singleton.mpr ⟨.text "1", rfl⟩⟩
  · exact List.forall_mem_cons.mpr ⟨⟨_, rfl⟩, List.forall_mem_singleton.mpr ⟨_, rfl⟩⟩

end Rill
