-- SUMMARY: A value of lists, tables and scalars comes back from its JSON text, equal to what it was.
import Rill.Heap.Compare
import Rill.Library.Json
import Rill.Proofs.Comparison.Keys
import Rill.Proofs.Json.Documents
import Rill.Proofs.Runs.Outcomes

/-!
# Values and documents

`Heap.Holds h v d`: on the heap `h`, the value `v` is what the document `d` says. Such a value has that
document, which is never refused as cyclic because the objects around a value are deeper than it; a
document makes such a value out of new objects; and two values that are the same document are equal.
-/

namespace Rill

open Json

-- ---------------------------------------------------------------------------
-- Values that are documents
-- ---------------------------------------------------------------------------

namespace Heap

mutual

/-- The value is what the document says: a scalar, or a list or a table with texts as keys whose elements
are, in this order, what the document says. -/
def Holds (h : Heap) (v : Value) : Document → Prop
  | .null => h.resolve v = .null
  | .bool b => h.resolve v = .bool b
  | .int n => h.resolve v = .int n
  | .float x => h.resolve v = .float x
  | .text s => h.resolve v = .text s
  | .list ds => ∃ id items, h.resolve v = .object id ∧ h.content? id = some (.list items) ∧
      HoldsItems h items.toList ds
  | .object fields => ∃ id table, h.resolve v = .object id ∧ h.content? id = some (.table table) ∧
      HoldsEntries h table.entries.toList fields

def HoldsItems (h : Heap) : List Value → List Document → Prop
  | [], [] => True
  | v :: vs, d :: ds => h.Holds v d ∧ HoldsItems h vs ds
  | _, _ => False

def HoldsEntries (h : Heap) : List (Key × Value) → List (String × Document) → Prop
  | [], [] => True
  | (key, v) :: entries, (name, d) :: fields => key = .text name ∧ h.Holds v d ∧ HoldsEntries h entries fields
  | _, _ => False

end

end Heap

-- ---------------------------------------------------------------------------
-- Heaps that grow
-- ---------------------------------------------------------------------------

/-- The cells and all objects of the first heap are on the second one as they were. -/
structure Heap.Extends (h h' : Heap) : Prop where
  cells : h'.cells = h.cells
  objects : ∀ id o, h.object? id = some o → h'.object? id = some o

namespace Heap.Extends

variable {h h₁ h₂ h' : Heap}

theorem refl (h : Heap) : h.Extends h := ⟨rfl, fun _ _ ho => ho⟩

theorem trans (hx : h₁.Extends h₂) (hy : h₂.Extends h') : h₁.Extends h' :=
  ⟨hy.cells.trans hx.cells, fun id o ho => hy.objects id o (hx.objects id o ho)⟩

theorem allocate (h : Heap) (cls : ClassId) (content : Content) : h.Extends (h.allocate cls content).2 := by
  refine ⟨rfl, fun id o ho => ?_⟩
  obtain ⟨hlt, -⟩ := Array.getElem?_eq_some_iff.mp (Option.join_eq_some_iff.mp ho)
  rw [object?, Heap.allocate, Array.getElem?_push_lt hlt, ← Array.getElem?_eq_getElem hlt]
  exact ho

variable (hx : h.Extends h')
include hx

theorem resolve (v : Value) : h'.resolve v = h.resolve v := by
  cases v <;> simp [Heap.resolve, Heap.cellValue, hx.cells]

theorem content {id : ObjectId} {c : Content} (hc : h.content? id = some c) : h'.content? id = some c := by
  obtain ⟨o, ho, rfl⟩ := Option.map_eq_some_iff.mp hc
  rw [Heap.content?, hx.objects id o ho, Option.map_some]

theorem contentOf {v : Value} {c : Content} (hv : h.contentOf v = some c) : h'.contentOf v = some c := by
  simp only [Heap.contentOf, hx.resolve] at hv ⊢
  split at hv
  · exact hx.content hv
  · cases hv

end Heap.Extends

namespace Heap

mutual

theorem Holds.mono {h h' : Heap} (hx : h.Extends h') {v : Value} {d : Document} (hv : h.Holds v d) :
    h'.Holds v d := by
  match d with
  | .null | .bool _ | .int _ | .float _ | .text _ => exact (hx.resolve v).trans hv
  | .list ds =>
    obtain ⟨id, items, hobject, hcontent, hitems⟩ := hv
    exact ⟨id, items, (hx.resolve v).trans hobject, hx.content hcontent, hitems.mono hx⟩
  | .object fields =>
    obtain ⟨id, table, hobject, hcontent, hentries⟩ := hv
    exact ⟨id, table, (hx.resolve v).trans hobject, hx.content hcontent, hentries.mono hx⟩

theorem HoldsItems.mono {h h' : Heap} (hx : h.Extends h') {vs : List Value} {ds : List Document}
    (hvs : h.HoldsItems vs ds) : h'.HoldsItems vs ds := by
  match vs, ds, hvs with
  | [], [], _ => trivial
  | v :: vs, d :: ds, ⟨hv, hvs⟩ => exact ⟨hv.mono hx, hvs.mono hx⟩

theorem HoldsEntries.mono {h h' : Heap} (hx : h.Extends h') {entries : List (Key × Value)}
    {fields : List (String × Document)} (he : h.HoldsEntries entries fields) :
    h'.HoldsEntries entries fields := by
  match entries, fields, he with
  | [], [], _ => trivial
  | (key, v) :: entries, (name, d) :: fields, ⟨hkey, hv, he⟩ => exact ⟨hkey, hv.mono hx, he.mono hx⟩

end

mutual

/-- A value is only one document. -/
theorem Holds.unique {h : Heap} {v : Value} {d e : Document} (hd : h.Holds v d) (he : h.Holds v e) :
    d = e := by
  cases d
  case list ds =>
    obtain ⟨id, items, hobject, hcontent, hitems⟩ := hd
    cases e
    case list es =>
      obtain ⟨id', items', hobject', hcontent', hitems'⟩ := he
      cases hobject.symm.trans hobject'
      cases hcontent.symm.trans hcontent'
      rw [hitems.unique hitems']
    case object fields =>
      obtain ⟨id', table, hobject', hcontent', -⟩ := he
      cases hobject.symm.trans hobject'
      cases hcontent.symm.trans hcontent'
    all_goals cases hobject.symm.trans he
  case object fields =>
    obtain ⟨id, table, hobject, hcontent, hentries⟩ := hd
    cases e
    case object fields' =>
      obtain ⟨id', table', hobject', hcontent', hentries'⟩ := he
      cases hobject.symm.trans hobject'
      cases hcontent.symm.trans hcontent'
      rw [hentries.unique hentries']
    case list es =>
      obtain ⟨id', items, hobject', hcontent', -⟩ := he
      cases hobject.symm.trans hobject'
      cases hcontent.symm.trans hcontent'
    all_goals cases hobject.symm.trans he
  -- A scalar has its value from the document.
  all_goals
    cases e
    case list => obtain ⟨id, items, hobject, -⟩ := he; cases hd.symm.trans hobject
    case object => obtain ⟨id, table, hobject, -⟩ := he; cases hd.symm.trans hobject
    all_goals cases hd.symm.trans he <;> rfl

theorem HoldsItems.unique {h : Heap} {vs : List Value} {ds es : List Document} (hd : h.HoldsItems vs ds)
    (he : h.HoldsItems vs es) : ds = es := by
  match vs, ds, es, hd, he with
  | [], [], [], _, _ => rfl
  | v :: vs, d :: ds, e :: es, ⟨hd, hds⟩, ⟨he, hes⟩ => rw [hd.unique he, hds.unique hes]

theorem HoldsEntries.unique {h : Heap} {entries : List (Key × Value)} {fs gs : List (String × Document)}
    (hf : h.HoldsEntries entries fs) (hg : h.HoldsEntries entries gs) : fs = gs := by
  match entries, fs, gs, hf, hg with
  | [], [], [], _, _ => rfl
  | (key, v) :: entries, (a, d) :: fs, (b, e) :: gs, ⟨ha, hd, hfs⟩, ⟨hb, he, hgs⟩ =>
    cases ha.symm.trans hb
    rw [hd.unique he, hfs.unique hgs]

end

/-- The keys of entries are the names of the fields. -/
theorem HoldsEntries.keys {h : Heap} {entries : List (Key × Value)} {fields : List (String × Document)}
    (he : h.HoldsEntries entries fields) : entries.map (·.1) = fields.map (Key.text ·.1) := by
  match entries, fields, he with
  | [], [], _ => rfl
  | (key, v) :: entries, (name, d) :: fields, ⟨hkey, _, he⟩ =>
    rw [List.map_cons, List.map_cons, he.keys, hkey]

theorem HoldsEntries.nodup {h : Heap} {entries : List (Key × Value)} {fields : List (String × Document)}
    (he : h.HoldsEntries entries fields) (hkeys : (fields.map (·.1)).Nodup) : (entries.map (·.1)).Nodup := by
  have hnames : fields.map (Key.text ·.1) = (fields.map (·.1)).map Key.text := by rw [List.map_map]; rfl
  rw [he.keys, hnames, List.Nodup, List.pairwise_map]
  exact hkeys.imp fun hne heq => hne (Key.text.inj heq)

theorem Holds.exists_object {h : Heap} {id : ObjectId} {d : Document} (hd : h.Holds (.object id) d) :
    ∃ o, h.object? id = some o := by
  cases d
  case list =>
    obtain ⟨id, items, ⟨⟩, hcontent, -⟩ := hd
    obtain ⟨o, ho, -⟩ := Option.map_eq_some_iff.mp hcontent
    exact ⟨o, ho⟩
  case object =>
    obtain ⟨id, table, ⟨⟩, hcontent, -⟩ := hd
    obtain ⟨o, ho, -⟩ := Option.map_eq_some_iff.mp hcontent
    exact ⟨o, ho⟩
  all_goals cases hd

-- ---------------------------------------------------------------------------
-- The document of a value
-- ---------------------------------------------------------------------------

/-- There are not more objects around a place than on the heap. -/
theorem length_le_objects {h : Heap} {around : List ObjectId} (hnodup : around.Nodup)
    (hobjects : ∀ id ∈ around, ∃ o, h.object? id = some o) : around.length ≤ h.objects.size := by
  have hsub : around ⊆ (List.range h.objects.size).map ObjectId.mk := by
    intro id hid
    obtain ⟨o, ho⟩ := hobjects id hid
    obtain ⟨hlt, -⟩ := Array.getElem?_eq_some_iff.mp (Option.join_eq_some_iff.mp ho)
    exact List.mem_map.mpr ⟨id.index, List.mem_range.mpr hlt, rfl⟩
  simpa using hnodup.length_le_of_subset hsub

/-- The objects around a place in a value: they are different, and each holds more levels than are left. -/
structure Enclosing (h : Heap) (around : List ObjectId) (depth : Nat) : Prop where
  nodup : around.Nodup
  deeper : ∀ id ∈ around, ∃ d, h.Holds (.object id) d ∧ depth < d.depth

namespace Enclosing

variable {h : Heap} {around : List ObjectId} {id : ObjectId} {d : Document} {depth : Nat}

theorem mono (henclosing : h.Enclosing around depth) {depth' : Nat} (hle : depth' ≤ depth) :
    h.Enclosing around depth' := by
  refine ⟨henclosing.nodup, fun id hid => ?_⟩
  obtain ⟨d, hd, hlt⟩ := henclosing.deeper id hid
  exact ⟨d, hd, Nat.lt_of_le_of_lt hle hlt⟩

/-- An object is not around itself. -/
theorem not_mem (henclosing : h.Enclosing around d.depth) (hd : h.Holds (.object id) d) : id ∉ around := by
  intro hmem
  obtain ⟨e, he, hlt⟩ := henclosing.deeper id hmem
  rw [hd.unique he] at hlt
  exact Nat.lt_irrefl _ hlt

theorem cons (henclosing : h.Enclosing around d.depth) (hd : h.Holds (.object id) d)
    (hdepth : depth < d.depth) : h.Enclosing (id :: around) depth := by
  refine ⟨List.nodup_cons.mpr ⟨henclosing.not_mem hd, henclosing.nodup⟩, ?_⟩
  exact List.forall_mem_cons.mpr ⟨⟨d, hd, hdepth⟩, (henclosing.mono (Nat.le_of_lt hdepth)).deeper⟩

theorem length_le (henclosing : h.Enclosing around depth) : around.length ≤ h.objects.size :=
  length_le_objects henclosing.nodup fun id hid =>
    have ⟨_, hd, _⟩ := henclosing.deeper id hid
    hd.exists_object

end Enclosing

/-- The document of an object that is not around itself, given that of what it holds. -/
theorem documentWithin_object {h : Heap} {v : Value} {id : ObjectId} {c : Content} {d : Document}
    {fuel : Nat} {around : List ObjectId} (hobject : h.resolve v = .object id)
    (hcontent : h.content? id = some c) (hd : h.Holds (.object id) d) (hpos : 0 < d.depth)
    (henclosing : h.Enclosing around d.depth) (hfuel : h.objects.size < fuel + around.length) :
    ∃ k cls, h.objects.size < k + (id :: around).length ∧
      h.documentWithin fuel around v = h.contentDocument cls (h.documentWithin k (id :: around)) c := by
  have hroom := (henclosing.cons hd hpos).length_le
  rw [List.length_cons] at hroom
  obtain ⟨k, rfl⟩ : ∃ k, fuel = k + 1 := ⟨fuel - 1, by omega⟩
  obtain ⟨o, ho, rfl⟩ := Option.map_eq_some_iff.mp hcontent
  refine ⟨k, o.cls, by rw [List.length_cons]; omega, ?_⟩
  rw [documentWithin.eq_def]
  simp only [hobject, ho, List.contains_iff_mem, henclosing.not_mem hd, if_false]

mutual

/-- A value that is a document without floats has it as its document. -/
theorem documentWithin_eq {h : Heap} {v : Value} {d : Document} (hplain : d.Plain) (hv : h.Holds v d)
    {fuel : Nat} {around : List ObjectId} (henclosing : h.Enclosing around d.depth)
    (hfuel : h.objects.size < fuel + around.length) : h.documentWithin fuel around v = .ok d := by
  match d with
  | .null | .bool b | .int n | .text s =>
    rw [documentWithin.eq_def]
    simp only [show h.resolve v = _ from hv]
  | .float x => exact hplain.elim
  | .list ds =>
    obtain ⟨id, items, hobject, hcontent, hitems⟩ := hv
    have hlist : h.Holds (.object id) (.list ds) := ⟨id, items, rfl, hcontent, hitems⟩
    have hlt : itemsDepth ds < (Document.list ds).depth := Nat.lt_succ_self _
    obtain ⟨k, cls, hk, hdocument⟩ :=
      documentWithin_object hobject hcontent hlist (Nat.zero_lt_of_lt hlt) henclosing hfuel
    have hmapped := mapM_documentWithin hplain hitems (henclosing.cons hlist hlt) hk
    rw [hdocument, contentDocument, hmapped]
    rfl
  | .object fields =>
    obtain ⟨id, table, hobject, hcontent, hentries⟩ := hv
    obtain ⟨hkeys, hfields⟩ := hplain
    have htable : h.Holds (.object id) (.object fields) := ⟨id, table, rfl, hcontent, hentries⟩
    have hlt : fieldsDepth fields < (Document.object fields).depth := Nat.lt_succ_self _
    obtain ⟨k, cls, hk, hdocument⟩ :=
      documentWithin_object hobject hcontent htable (Nat.zero_lt_of_lt hlt) henclosing hfuel
    have hmapped := mapM_entry_documentWithin hfields hentries (henclosing.cons htable hlt) hk
    rw [hdocument, contentDocument, hmapped]
    change Except.ok (Document.object (OrderedMap.ofList fields).entries.toList) = _
    rw [ofList_eq hkeys]

theorem mapM_documentWithin {h : Heap} {vs : List Value} {ds : List Document} (hplain : PlainItems ds)
    (hvs : h.HoldsItems vs ds) {fuel : Nat} {around : List ObjectId}
    (henclosing : h.Enclosing around (itemsDepth ds)) (hfuel : h.objects.size < fuel + around.length) :
    vs.mapM (h.documentWithin fuel around) = .ok ds := by
  match vs, ds, hvs with
  | [], [], _ => rfl
  | v :: vs, d :: ds, ⟨hv, hvs⟩ =>
    obtain ⟨hd, hds⟩ := hplain
    have hfirst := documentWithin_eq hd hv (henclosing.mono (Nat.le_max_left _ _)) hfuel
    have hrest := mapM_documentWithin hds hvs (henclosing.mono (Nat.le_max_right _ _)) hfuel
    rw [List.mapM_cons, hfirst, hrest]
    rfl

theorem mapM_entry_documentWithin {h : Heap} {entries : List (Key × Value)} {fields : List (String × Document)}
    (hplain : PlainFields fields) (he : h.HoldsEntries entries fields) {fuel : Nat} {around : List ObjectId}
    (henclosing : h.Enclosing around (fieldsDepth fields)) (hfuel : h.objects.size < fuel + around.length) :
    (entries.mapM fun (key, v) => do return (key.display, ← h.documentWithin fuel around v)) = .ok fields := by
  match entries, fields, he with
  | [], [], _ => rfl
  | (key, v) :: entries, (name, d) :: fields, ⟨hkey, hv, he⟩ =>
    obtain ⟨hd, hds⟩ := hplain
    have hfirst := documentWithin_eq hd hv (henclosing.mono (Nat.le_max_left _ _)) hfuel
    have hrest := mapM_entry_documentWithin hds he (henclosing.mono (Nat.le_max_right _ _)) hfuel
    rw [List.mapM_cons, hrest]
    dsimp only
    rw [hfirst, hkey]
    rfl

end

theorem document_eq {h : Heap} {v : Value} {d : Document} (hplain : d.Plain) (hv : h.Holds v d) :
    h.document v = .ok d :=
  documentWithin_eq hplain hv ⟨List.nodup_nil, nofun⟩ (Nat.lt_succ_self _)

end Heap

-- ---------------------------------------------------------------------------
-- The value of a document
-- ---------------------------------------------------------------------------

/-- Only objects have been made, at least so many. -/
structure Machine.Grows (m : Machine) (count : Nat) (m' : Machine) : Prop where
  heap : m.heap.Extends m'.heap
  size : m.heap.objects.size + count ≤ m'.heap.objects.size

namespace Machine.Grows

variable {m m₁ m' : Machine} {n k : Nat}

theorem refl (m : Machine) : m.Grows 0 m := ⟨.refl _, Nat.le_refl _⟩

theorem trans (h : m.Grows n m₁) (h' : m₁.Grows k m') : m.Grows (n + k) m' :=
  ⟨h.heap.trans h'.heap, by have := h.size; have := h'.size; omega⟩

theorem mono (h : m.Grows n m') (hk : k ≤ n) : m.Grows k m' :=
  ⟨h.heap, by have := h.size; omega⟩

end Machine.Grows

namespace Run

theorem newObject_grows (m : Machine) (cls : ClassId) (content : Content) :
    ∃ id m', newObject cls content m = .ok (.object id) m' ∧ m.Grows 1 m' ∧
      m'.heap.content? id = some content := by
  refine ⟨_, _, rfl, ⟨.allocate m.heap cls content, ?_⟩, ?_⟩
  · simp
  · simp [Heap.content?, Heap.object?]

mutual

/-- The value that a document makes is what it says. -/
theorem ofDocument_holds {d : Document} (hplain : d.Plain) (m : Machine) :
    ∃ v m', ofDocument d m = .ok v m' ∧ m.Grows d.depth m' ∧ m'.heap.Holds v d := by
  match d with
  | .null => exact ⟨.null, m, rfl, .refl m, rfl⟩
  | .bool b => exact ⟨.bool b, m, rfl, .refl m, rfl⟩
  | .int n => exact ⟨.int n, m, rfl, .refl m, rfl⟩
  | .float x => exact hplain.elim
  | .text s => exact ⟨.text s, m, rfl, .refl m, rfl⟩
  | .list ds =>
    obtain ⟨vs, m₁, hitems, hgrows, hholds⟩ := ofItems_holds hplain m
    obtain ⟨id, m₂, hnew, hgrows', hcontent⟩ := newObject_grows m₁ .list (.list vs.toArray)
    refine ⟨.object id, m₂, ?_, hgrows.trans hgrows', id, _, rfl, hcontent, ?_⟩
    · rw [ofDocument]
      change EStateM.bind (ofItems ds) (fun items => newList items.toArray) m = _
      rw [EStateM.bind, hitems]
      exact hnew
    · exact hholds.mono hgrows'.heap
  | .object fields =>
    obtain ⟨hkeys, hfields⟩ := hplain
    obtain ⟨entries, m₁, hentries, hgrows, hholds⟩ := ofFields_holds hfields m
    obtain ⟨id, m₂, hnew, hgrows', hcontent⟩ := newObject_grows m₁ .table (.table ⟨entries.toArray⟩)
    refine ⟨.object id, m₂, ?_, hgrows.trans hgrows', id, _, rfl, hcontent, ?_⟩
    · rw [ofDocument]
      change EStateM.bind (ofFields fields) (fun entries => newTable (OrderedMap.ofList entries)) m = _
      rw [EStateM.bind, hentries]
      dsimp only
      rw [ofList_eq (hholds.nodup hkeys)]
      exact hnew
    · exact hholds.mono hgrows'.heap

theorem ofItems_holds {ds : List Document} (hplain : PlainItems ds) (m : Machine) :
    ∃ vs m', ofItems ds m = .ok vs m' ∧ m.Grows (itemsDepth ds) m' ∧ m'.heap.HoldsItems vs ds := by
  match ds with
  | [] => exact ⟨[], m, rfl, .refl m, trivial⟩
  | d :: ds =>
    obtain ⟨hd, hds⟩ := hplain
    obtain ⟨v, m₁, hfirst, hgrows, hholds⟩ := ofDocument_holds hd m
    obtain ⟨vs, m₂, hrest, hgrows', hholds'⟩ := ofItems_holds hds m₁
    refine ⟨v :: vs, m₂, ?_, (hgrows.trans hgrows').mono (by rw [itemsDepth]; omega), hholds.mono hgrows'.heap,
      hholds'⟩
    rw [ofItems]
    change EStateM.bind (ofDocument d) (fun v => EStateM.bind (ofItems ds) fun vs => pure (v :: vs)) m = _
    simp only [EStateM.bind, hfirst, hrest]
    rfl

theorem ofFields_holds {fields : List (String × Document)} (hplain : PlainFields fields) (m : Machine) :
    ∃ entries m', ofFields fields m = .ok entries m' ∧ m.Grows (fieldsDepth fields) m' ∧
      m'.heap.HoldsEntries entries fields := by
  match fields with
  | [] => exact ⟨[], m, rfl, .refl m, trivial⟩
  | (name, d) :: fields =>
    obtain ⟨hd, hfields⟩ := hplain
    obtain ⟨v, m₁, hfirst, hgrows, hholds⟩ := ofDocument_holds hd m
    obtain ⟨entries, m₂, hrest, hgrows', hholds'⟩ := ofFields_holds hfields m₁
    refine ⟨(.text name, v) :: entries, m₂, ?_, (hgrows.trans hgrows').mono (by rw [fieldsDepth]; omega), rfl,
      hholds.mono hgrows'.heap, hholds'⟩
    rw [ofFields]
    change EStateM.bind (ofDocument d)
      (fun v => EStateM.bind (ofFields fields) fun entries => pure ((.text name, v) :: entries)) m = _
    simp only [EStateM.bind, hfirst, hrest]
    rfl

end

end Run

-- ---------------------------------------------------------------------------
-- Equality
-- ---------------------------------------------------------------------------

namespace Heap

theorem allDecided_cons {test : α → Option Bool} {a : α} {rest : List α} (ha : test a = some true)
    (hrest : allDecided test rest = some true) : allDecided test (a :: rest) = some true := by
  rw [allDecided, ha]
  exact hrest

theorem HoldsItems.length_eq {h : Heap} {vs : List Value} {ds : List Document} (hvs : h.HoldsItems vs ds) :
    vs.length = ds.length := by
  match vs, ds, hvs with
  | [], [], _ => rfl
  | v :: vs, d :: ds, ⟨_, hvs⟩ => rw [List.length_cons, List.length_cons, hvs.length_eq]

theorem HoldsEntries.length_eq {h : Heap} {entries : List (Key × Value)} {fields : List (String × Document)}
    (he : h.HoldsEntries entries fields) : entries.length = fields.length := by
  simpa using congrArg List.length he.keys

theorem equalsWithin_object {h : Heap} {v w : Value} {i j : ObjectId} {x y : Content} {fuel : Nat}
    (hi : h.resolve v = .object i) (hj : h.resolve w = .object j) (hx : h.content? i = some x)
    (hy : h.content? j = some y) (hcontent : contentEquals (h.equalsWithin fuel) x y = some true) :
    h.equalsWithin (fuel + 1) v w = some true := by
  rw [equalsWithin.eq_def]
  simp only [hi, hj, hx, hy, hcontent]
  split <;> rfl

mutual

/-- Two values that are the same document are equal. -/
theorem equalsWithin_of_holds {h : Heap} {v w : Value} {d : Document} (hplain : d.Plain) (hv : h.Holds v d)
    (hw : h.Holds w d) {fuel : Nat} (hfuel : d.depth ≤ fuel) : h.equalsWithin fuel v w = some true := by
  match d with
  | .null | .bool b | .int n | .text s =>
    rw [equalsWithin.eq_def]
    simp only [show h.resolve v = _ from hv, show h.resolve w = _ from hw]
    simp [scalarEquals]
  | .float x => exact hplain.elim
  | .list ds =>
    obtain ⟨i, x, hi, hx, hvs⟩ := hv
    obtain ⟨j, y, hj, hy, hws⟩ := hw
    obtain ⟨fuel, rfl⟩ := exists_fuel (Nat.succ_pos _) hfuel
    refine equalsWithin_object hi hj hx hy ?_
    have hsize : x.size = y.size := by
      rw [← Array.length_toList, ← Array.length_toList, hvs.length_eq, hws.length_eq]
    rw [contentEquals, if_pos hsize, Array.toList_zip]
    exact allDecided_items hplain hvs hws (Nat.le_of_succ_le_succ hfuel)
  | .object fields =>
    obtain ⟨hkeys, hfields⟩ := hplain
    obtain ⟨i, x, hi, hx, hvs⟩ := hv
    obtain ⟨j, y, hj, hy, hws⟩ := hw
    obtain ⟨fuel, rfl⟩ := exists_fuel (Nat.succ_pos _) hfuel
    refine equalsWithin_object hi hj hx hy ?_
    have hsize : x.size = y.size := by
      rw [OrderedMap.size, OrderedMap.size, ← Array.length_toList, ← Array.length_toList, hvs.length_eq,
        hws.length_eq]
    rw [contentEquals, if_pos hsize]
    exact allDecided_entries hfields hvs hws (fun key w hmem => OrderedMap.Distinct.find?_of_mem (hws.nodup hkeys) hmem)
      (Nat.le_of_succ_le_succ hfuel)

theorem allDecided_items {h : Heap} {vs ws : List Value} {ds : List Document} (hplain : PlainItems ds)
    (hvs : h.HoldsItems vs ds) (hws : h.HoldsItems ws ds) {fuel : Nat} (hfuel : itemsDepth ds ≤ fuel) :
    allDecided (fun (a, b) => h.equalsWithin fuel a b) (vs.zip ws) = some true := by
  match ds, vs, hvs, ws, hws with
  | [], [], _, [], _ => rfl
  | d :: ds, v :: vs, ⟨hv, hvs⟩, w :: ws, ⟨hw, hws⟩ =>
    obtain ⟨hd, hds⟩ := hplain
    obtain ⟨hfirst, hrest⟩ := Nat.max_le.mp hfuel
    exact allDecided_cons (equalsWithin_of_holds hd hv hw hfirst) (allDecided_items hds hvs hws hrest)

theorem allDecided_entries {h : Heap} {vs ws : List (Key × Value)} {fields : List (String × Document)}
    (hplain : PlainFields fields) (hvs : h.HoldsEntries vs fields) (hws : h.HoldsEntries ws fields)
    {table : Table} (hfind : ∀ key w, (key, w) ∈ ws → table.find? key = some w) {fuel : Nat}
    (hfuel : fieldsDepth fields ≤ fuel) :
    allDecided (fun (key, v) => (table.find? key).elim (some false) (h.equalsWithin fuel v)) vs =
      some true := by
  match fields, vs, hvs, ws, hws with
  | [], [], _, [], _ => rfl
  | (name, d) :: fields, (key, v) :: vs, ⟨hkey, hv, hvs⟩, (key', w) :: ws, ⟨hkey', hw, hws⟩ =>
    obtain ⟨hd, hfields⟩ := hplain
    obtain ⟨hfirst, hrest⟩ := Nat.max_le.mp hfuel
    have hfound : table.find? key = some w := by
      rw [hkey, ← hkey']
      exact hfind key' w List.mem_cons_self
    refine allDecided_cons ?_ (allDecided_entries hfields hvs hws
      (fun key w hmem => hfind key w (List.mem_cons_of_mem _ hmem)) hrest)
    dsimp only
    rw [hfound]
    exact equalsWithin_of_holds hd hv hw hfirst

end

end Heap

-- ---------------------------------------------------------------------------
-- The round trip
-- ---------------------------------------------------------------------------

/-- A value that unfolds to a document without floats, nested in less than 128 levels, is dumped to a text.
On every heap that holds the value, loading the text gives an equal value that unfolds to the same document:
everything in it is of the same kind, and its tables have their keys in the same order. -/
theorem json_round_trip {m : Machine} {v : Value} {d : Document} (hplain : d.Plain) (hv : m.heap.Holds v d)
    (hdepth : d.depth < 128) :
    ∃ text, Library.json .dump #[v] m = .ok (.text text) m ∧
      ∀ n : Machine, n.heap.Holds v d → ∃ w n', Library.json .load #[.text text] n = .ok w n' ∧
        n.heap.Extends n'.heap ∧ n'.heap.Holds w d ∧ n'.heap.equals v w = .ok true := by
  refine ⟨String.ofList d.write, ?_, ?_⟩
  · have hdocument : (MonadLift.monadLift (m.heap.document v) : Run Document) m = .ok d m := by
      rw [Heap.document_eq hplain hv]
      rfl
    change EStateM.bind (MonadLift.monadLift (m.heap.document v)) _ m = _
    rw [EStateM.bind, hdocument]
    rfl
  · intro n hn
    obtain ⟨w, n', hload, hgrows, hw⟩ := Run.ofDocument_holds hplain n
    refine ⟨w, n', ?_, hgrows.heap, hw, ?_⟩
    · have htext : Library.Arguments.text #[.text (String.ofList d.write)] 0 n = .ok (String.ofList d.write) n := rfl
      rw [Library.json, Run.bind_of_ok htext, read_write hplain hdepth]
      exact hload
    · have hfuel : d.depth ≤ n'.heap.pairBound := by
        have hsize := hgrows.size
        have hsquare : n'.heap.objects.size ≤ n'.heap.objects.size * n'.heap.objects.size := Nat.le_mul_self _
        rw [Heap.pairBound]
        omega
      rw [Heap.equals, Heap.equalsWithin_of_holds hplain (hn.mono hgrows.heap) hw hfuel]

/-- A table with a key that is escaped and the smallest integer in a list. -/
theorem json_round_trip_nested :
    let items : Content := .list #[.null, .bool true, .int (-9223372036854775808)]
    let table : Content := .table ⟨#[(.text "a\"\n", .object ⟨1⟩), (.text "b", .text "\\")]⟩
    let heap : Heap := { objects := #[some ⟨.table, table⟩, some ⟨.list, items⟩] }
    let d : Document :=
      .object [("a\"\n", .list [.null, .bool true, .int (-9223372036854775808)]), ("b", .text "\\")]
    d.Plain ∧ heap.Holds (.object ⟨0⟩) d ∧ d.depth < 128 ∧
      ∃ text, Library.json .dump #[.object ⟨0⟩] { config := {}, heap } = .ok (.text text) { config := {}, heap } := by
  intro items table heap d
  have hplain : d.Plain := ⟨by decide, ⟨trivial, trivial, trivial, trivial⟩, trivial, trivial⟩
  have hlist : heap.Holds (.object ⟨1⟩) (.list [.null, .bool true, .int (-9223372036854775808)]) :=
    ⟨⟨1⟩, _, rfl, rfl, rfl, rfl, rfl, trivial⟩
  have hholds : heap.Holds (.object ⟨0⟩) d := ⟨⟨0⟩, _, rfl, rfl, rfl, hlist, rfl, rfl, trivial⟩
  have hdepth : d.depth < 128 := by decide
  obtain ⟨text, hdump, -⟩ := json_round_trip (m := { config := {}, heap }) hplain hholds hdepth
  exact ⟨hplain, hholds, hdepth, text, hdump⟩

end Rill
