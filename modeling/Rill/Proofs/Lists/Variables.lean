-- SUMMARY: Lists in variables, and edits of them that show in no other variable.
import Rill.Library.List
import Rill.Proofs.Ownership.Copies

/-!
# Lists in variables

A function that edits a list gets the cell of the variable. Before the edit the variable gets a list of its
own: the one that it has if nothing else refers to it, otherwise a copy without cells. So an edit changes what
the one variable holds, and nothing that can be reached in another way.
-/

namespace Rill

-- ---------------------------------------------------------------------------
-- Sole references
-- ---------------------------------------------------------------------------

/-- A value that occurs once is in one of several lists only. -/
theorem eq_of_count_flatMap_le_one {α : Type} {f : α → List Value} {xs : List α} {v : Value} {i j : Nat} {a b : α}
    (hcount : (xs.flatMap f).count v ≤ 1) (hi : xs[i]? = some a) (hj : xs[j]? = some b) (ha : v ∈ f a)
    (hb : v ∈ f b) : i = j := by
  induction xs generalizing i j with
  | nil => cases hi
  | cons x xs ih =>
    rw [List.flatMap_cons, List.count_append] at hcount
    have hrest {k : Nat} {d : α} (hk : xs[k]? = some d) (hd : v ∈ f d) : 0 < (xs.flatMap f).count v :=
      List.count_pos_iff.mpr (List.mem_flatMap.mpr ⟨d, List.mem_of_getElem? hk, hd⟩)
    cases i with
    | zero =>
      cases j with
      | zero => rfl
      | succ j =>
        cases hi
        have hfirst := List.count_pos_iff.mpr ha
        have := hrest hj hb
        omega
    | succ i =>
      cases j with
      | zero =>
        cases hj
        have hfirst := List.count_pos_iff.mpr hb
        have := hrest hi ha
        omega
      | succ j => rw [ih (by omega) hi hj]

/-- Of all that can be reached, only the cell refers to the object. -/
structure Machine.Sole (m : Machine) (c : CellId) (id : ObjectId) : Prop where
  cell : m.heap.cell? c = some (.object id)
  roots : .object id ∉ m.roots
  links {x : Value} : m.heap.Knows (m.roots ++ [.cell c]) x → .object id ∈ m.heap.links x → x = .cell c

/-- An object that is referred to once has no reference besides that in a cell. -/
theorem Machine.sole_of_count {m : Machine} {c : CellId} {id : ObjectId} {extra : List Value}
    (hcell : m.heap.cell? c = some (.object id)) (hcount : (m.allReferences extra).count (.object id) ≤ 1) :
    .object id ∉ m.roots ∧ ∀ x, .object id ∈ m.heap.links x → x = .cell c := by
  have hplace {d : CellId} (hd : m.heap.cell? d = some (.object id)) :
      m.heap.cells.toList[d.index]? = some (some (.object id)) := by
    rw [Array.getElem?_toList]
    exact Option.join_eq_some_iff.mp hd
  simp only [allReferences, List.count_append] at hcount
  have hcells : 0 < (m.heap.cells.toList.flatMap (·.toList)).count (.object id) :=
    List.count_pos_iff.mpr (List.mem_flatMap.mpr ⟨_, List.mem_of_getElem? (hplace hcell), by simp⟩)
  refine ⟨List.count_eq_zero.mp (by omega), fun x hx => ?_⟩
  cases x with
  | object i =>
    -- An object with such an item would be a second reference.
    cases ho : m.heap.object? i with
    | none => simp [Heap.links, ho] at hx
    | some o =>
      have hmem : (.object id : Value) ∈ m.heap.objects.toList.flatMap
          (fun o => o.elim [] fun o => m.heap.children o.content) :=
        List.mem_flatMap.mpr ⟨some o, Array.mem_toList_iff.mpr (Array.mem_of_getElem? (Option.join_eq_some_iff.mp ho)),
          by simpa [Heap.links, ho] using hx⟩
      have := List.count_pos_iff.mpr hmem
      omega
  | cell d =>
    have hd : m.heap.cell? d = some (.object id) := by simpa [Heap.links] using hx
    obtain ⟨c⟩ := c
    obtain ⟨d⟩ := d
    have honce : (m.heap.cells.toList.flatMap (·.toList)).count (.object id) ≤ 1 := by omega
    have hdc : d = c := eq_of_count_flatMap_le_one honce (hplace hd) (hplace hcell) (by simp) (by simp)
    rw [hdc]
  | _ => simp [Heap.links] at hx

-- ---------------------------------------------------------------------------
-- Variables
-- ---------------------------------------------------------------------------

/-- What the cell of the variable holds is a list with these items, and whatever can be reached is there. -/
structure Machine.HoldsList (m : Machine) (c : CellId) (items : Array Value) : Prop where
  intact : m.heap.Intact (m.roots ++ [.cell c])
  items : m.heap.listOf (.cell c) = .ok items

/-- The variable has got a list with these items, and nothing else has changed: the roots, the other cells, and
the objects apart from a list that only the variable referred to. -/
structure Machine.Edits (m : Machine) (c : CellId) (items : Array Value) (m' : Machine) : Prop where
  holds : m'.HoldsList c items
  roots : m'.roots = m.roots
  classes : m'.heap.classes = m.heap.classes
  cell {d : CellId} : m.heap.Knows (m.roots ++ [.cell c]) (.cell d) → d ≠ c → m'.heap.cell? d = m.heap.cell? d
  object {i : ObjectId} : m.heap.Knows (m.roots ++ [.cell c]) (.object i) →
    m'.heap.object? i = m.heap.object? i ∨ m.Sole c i

section Variables

variable {m : Machine} {c : CellId} {items : Array Value}

theorem map_resolve_of_plain {h : Heap} {items : Array Value} (hplain : ∀ w ∈ items.toList, w.isCell = false) :
    items.map h.resolve = items := by
  have hid : items.map h.resolve = items.map id :=
    Array.map_congr_left fun w hw => Heap.resolve_of_isCell (hplain w (Array.mem_toList_iff.mpr hw))
  rw [hid, Array.map_id]

theorem Heap.knows_cell_self (h : Heap) (roots : List Value) (c : CellId) : h.Knows (roots ++ [.cell c]) (.cell c) :=
  .inr (.start (List.mem_append_right _ (List.mem_singleton.mpr rfl)))

theorem Machine.HoldsList.exists_list (hm : m.HoldsList c items) :
    ∃ id cls raw, m.heap.cell? c = some (.object id) ∧ m.heap.object? id = some ⟨cls, .list raw⟩ ∧
      raw.map m.heap.resolve = items ∧ m.heap.Knows (m.roots ++ [.cell c]) (.object id) := by
  obtain ⟨w, hw, -, hknown⟩ := hm.intact.knows_cell (m.heap.knows_cell_self m.roots c)
  have hresolve : m.heap.resolve (.cell c) = w := congrArg (·.getD .null) hw
  have hitems := hm.items
  simp only [Heap.listOf, Heap.contentOf, hresolve] at hitems
  cases w with
  | object id =>
    obtain ⟨⟨cls, content⟩, ho⟩ := hm.intact.knows_object hknown
    simp only [Heap.content?, ho, Option.map_some] at hitems
    cases content with
    | list raw => exact ⟨id, cls, raw, hw, ho, Except.ok.inj hitems, hknown⟩
    | _ => cases hitems
  | _ => cases hitems

/-- Items are no cells. -/
theorem Machine.HoldsList.items_known (hm : m.HoldsList c items) {v : Value} (hv : v ∈ items.toList) :
    m.heap.Knows (m.roots ++ [.cell c]) v ∧ v.isCell = false := by
  obtain ⟨id, cls, raw, -, ho, rfl, hid⟩ := hm.exists_list
  rw [Array.toList_map, List.mem_map] at hv
  obtain ⟨w, hw, rfl⟩ := hv
  exact hm.intact.knows_resolve (hid.child ho hw)

/-- The object or the cell is there, and holds no cell itself if it is one. -/
def Heap.stands (h : Heap) : Value → Bool
  | .object i => (h.object? i).isSome
  | .cell d => (h.cell? d).any (!·.isCell)
  | _ => true

/-- Whatever can be reached is there if it is among values that are there and refer to one another only. -/
theorem Heap.intact_of_closed {h : Heap} {start : List Value} (known : List Value) (hstart : ∀ v ∈ start, v ∈ known)
    (hknown : ∀ v ∈ known, h.stands v ∧ ∀ w ∈ h.links v, w ∈ known) : h.Intact start := by
  have hreached {v : Value} (hv : ReachedFrom h.links start v) : v ∈ known := by
    induction hv with
    | start mem => exact hstart _ mem
    | step _ mem ih => exact (hknown _ ih).2 _ mem
  refine ⟨fun {i} hi => ?_, fun {d} hd => ?_⟩
  · exact Option.isSome_iff_exists.mp (hknown _ (hreached hi)).1
  · obtain ⟨w, hw, hplain⟩ := (Option.any_eq_true _ _).mp (hknown _ (hreached hd)).1
    exact ⟨w, hw, by simpa using hplain⟩

-- ---------------------------------------------------------------------------
-- Lists of one's own
-- ---------------------------------------------------------------------------

/-- The variable has a list of its own in the second machine: the one that it had alone, or a copy. -/
structure Machine.OwnsList (m after : Machine) (c : CellId) (id : ObjectId) (raw : Array Value) : Prop where
  roots : after.roots = m.roots
  classes : after.heap.classes = m.heap.classes
  cell : after.heap.cell? c = some (.object id)
  list : ∃ cls, after.heap.object? id = some ⟨cls, .list raw⟩
  same {x : Value} : m.heap.Knows (m.roots ++ [.cell c]) x → x ≠ .cell c → Machine.Same m.heap after.heap x
  own : m.Sole c id ∧ m.heap.content? id = some (.list raw) ∨
    m.heap.object? id = none ∧ ∀ w ∈ raw.toList, w.isCell = false
  known : ∀ w ∈ raw.toList, m.heap.Knows (m.roots ++ [.cell c]) w

theorem unshare_list (hm : m.HoldsList c items) {id : ObjectId} {cls : ClassId} {raw : Array Value}
    (hcell : m.heap.cell? c = some (.object id)) (ho : m.heap.object? id = some ⟨cls, .list raw⟩)
    (hid : m.heap.Knows (m.roots ++ [.cell c]) (.object id)) :
    (∃ after, Run.unshare (.object id) [.cell c] m = .ok (.object id) after ∧ after.roots = m.roots ∧
      m.heap.Retains (m.roots ++ [.cell c]) after.heap ∧ m.Sole c id) ∨
    ∃ copy after, Run.unshare (.object id) [.cell c] m = .ok (.object copy) after ∧ after.roots = m.roots ∧
      m.heap.Retains (m.roots ++ [.cell c]) after.heap ∧ m.heap.object? copy = none ∧
      after.heap.object? copy = some ⟨cls, .list (raw.map m.heap.resolve)⟩ := by
  obtain ⟨own, after, hrun, hun⟩ := unshare_ends hm.intact hid
  cases hown : hun.own with
  | copied old _ fresh new =>
    cases old.symm.trans ho
    exact .inr ⟨_, after, hrun, hun.roots, hun.retains, fresh, new⟩
  | shared =>
    refine .inl ⟨after, hrun, hun.roots, hun.retains, ?_⟩
    -- It has not been copied, so its one reference after the reclamation is the one in the cell.
    have hr : m.heap.Retains (m.roots ++ [.cell c]) (m.reclaim [.cell c]).heap := Machine.retains_reclaim
    have hcell' : (m.reclaim [.cell c]).heap.cell? c = some (.object id) :=
      (hr.same (m.heap.knows_cell_self m.roots c) : _ = _).trans hcell
    obtain ⟨-, hcount⟩ := count_of_unshare ho rfl hid hrun
    obtain ⟨hroots, hlinks⟩ := Machine.sole_of_count hcell' hcount
    have hshrinks := m.reclaim_shrinks [.cell c]
    refine ⟨hcell, hshrinks.roots ▸ hroots, fun {x} hx hmem => hlinks x ?_⟩
    rwa [hshrinks.links_eq (hr.same hx)]

/-- The variable gets a list of its own with the items that it has. -/
theorem ownObject_run (hm : m.HoldsList c items) :
    ∃ id raw after, Library.ownObject "List" (.cell c) m = .ok (id, .list raw) after ∧ m.OwnsList after c id raw ∧
      raw.map m.heap.resolve = items := by
  obtain ⟨id, cls, raw, hcell, ho, hitems, hid⟩ := hm.exists_list
  have hvalue : m.heap.cellValue c = .object id := congrArg (·.getD .null) hcell
  have hown {own : ObjectId} {raw' : Array Value} {after : Machine}
      (hrun : Run.unshare (.object id) [.cell c] m = .ok (.object own) after)
      (hnew : after.heap.object? own = some ⟨cls, .list raw'⟩) :
      Library.ownObject "List" (.cell c) m =
        .ok (own, .list raw') { after with heap := after.heap.setCell c (.object own) } := by
    have hslot : Run.unshareSlot (.cell c) [.cell c] m =
        .ok (.cell c, .object own) { after with heap := after.heap.setCell c (.object own) } := by
      rw [← hvalue] at hrun
      simp only [Run.unshareSlot, Run.heap, bind, EStateM.bind, Run.get_run, pure, EStateM.pure, hrun]
      rfl
    have hcontent : (after.heap.setCell c (.object own)).content? own = some (.list raw') :=
      congrArg (Option.map Object.content) hnew
    rw [Library.ownObject, Run.bind_of_ok hslot]
    simp only [Run.bind_heap, hcontent]
    rfl
  -- What has been done to the cell is told by the last write to it.
  have hframe (own : ObjectId) {after : Machine} (hr : m.heap.Retains (m.roots ++ [.cell c]) after.heap) :
      (after.heap.setCell c (.object own)).cell? c = some (.object own) ∧
      ∀ {x : Value}, m.heap.Knows (m.roots ++ [.cell c]) x → x ≠ .cell c →
        Machine.Same m.heap (after.heap.setCell c (.object own)) x := by
    have hset := Heap.cell?_setCell ((hr.same (m.heap.knows_cell_self m.roots c) : _ = _).trans hcell)
    refine ⟨(hset c (.object own)).trans (if_pos rfl), fun {x} hx hne => ?_⟩
    have hsame := hr.same hx
    cases x with
    | object i => exact hsame
    | cell d => exact (hset d (.object own)).trans ((if_neg fun hdc : d = c => hne (hdc ▸ rfl)).trans hsame)
    | _ => trivial
  rcases unshare_list hm hcell ho hid with
    ⟨after, hrun, hroots, hr, hsole⟩ | ⟨copy, after, hrun, hroots, hr, hfresh, hnew⟩
  · have ho' : after.heap.object? id = some ⟨cls, .list raw⟩ := (hr.same hid : _ = _).trans ho
    obtain ⟨hcell', hsame⟩ := hframe id hr
    exact ⟨id, raw, _, hown hrun ho', ⟨hroots, hr.classes, hcell', ⟨cls, ho'⟩, hsame,
      .inl ⟨hsole, congrArg (Option.map Object.content) ho⟩, fun w hw => hid.child ho hw⟩, hitems⟩
  · obtain ⟨hcell', hsame⟩ := hframe copy hr
    have hplain : ∀ w ∈ items.toList, w.isCell = false := fun w hw => (hm.items_known hw).2
    rw [hitems] at hnew
    exact ⟨copy, items, _, hown hrun hnew, ⟨hroots, hr.classes, hcell', ⟨cls, hnew⟩, hsame, .inr ⟨hfresh, hplain⟩,
      fun w hw => (hm.items_known hw).1⟩, map_resolve_of_plain hplain⟩

-- ---------------------------------------------------------------------------
-- Edits
-- ---------------------------------------------------------------------------

/-- The machine with other items in a list. -/
def Machine.settingList (m : Machine) (id : ObjectId) (raw : Array Value) : Machine :=
  { m with heap := m.heap.setContent id (.list raw) }

namespace Machine.OwnsList

variable {after : Machine} {id : ObjectId} {raw raw' : Array Value} (ho : m.OwnsList after c id raw)
include ho

theorem object?_settingList (i : ObjectId) : (after.settingList id raw').heap.object? i =
    if id = i then (after.heap.object? i).map fun o => { o with content := .list raw' }
    else after.heap.object? i := by
  obtain ⟨cls, hlist⟩ := ho.list
  refine (Heap.object?_setContent ..).trans ?_
  split
  · next hi =>
    subst hi
    rw [hlist]
    rfl
  · rfl

theorem object?_settingList_self (raw' : Array Value) :
    ∃ cls, (after.settingList id raw').heap.object? id = some ⟨cls, .list raw'⟩ := by
  obtain ⟨cls, hlist⟩ := ho.list
  refine ⟨cls, ?_⟩
  rw [ho.object?_settingList, if_pos rfl, hlist]
  rfl

/-- A value of the new list stands for what it stood for before. -/
theorem resolve_settingList {w : Value} (hknown : m.heap.Knows (m.roots ++ [.cell c]) w)
    (hw : w ∈ raw.toList ∨ w.isCell = false) : (after.settingList id raw').heap.resolve w = m.heap.resolve w := by
  cases w with
  | cell d =>
    have hmem := hw.resolve_right nofun
    have hcell : after.heap.cell? d = m.heap.cell? d := by
      by_cases hd : d = c
      · subst hd
        rcases ho.own with ⟨hsole, -⟩ | ⟨-, hplain⟩
        · exact ho.cell.trans hsole.cell.symm
        · exact absurd (hplain _ hmem) nofun
      · exact ho.same hknown fun heq => hd (Value.cell.inj heq)
    exact congrArg (·.getD .null) hcell
  | _ => rfl

theorem same_settingList {x : Value} (hx : m.heap.Knows (m.roots ++ [.cell c]) x) (hcell : x ≠ .cell c)
    (hobject : x ≠ .object id) : Machine.Same m.heap (after.settingList id raw').heap x := by
  have hsame := ho.same hx hcell
  cases x with
  | object i => exact (ho.object?_settingList i).trans ((if_neg fun hi : id = i => hobject (hi ▸ rfl)).trans hsame)
  | cell d => exact hsame
  | _ => trivial

/-- What can be reached afterwards was known before, or is the list. -/
theorem reached_settingList (hraw : ∀ w ∈ raw'.toList, m.heap.Knows (m.roots ++ [.cell c]) w) {x : Value}
    (hx : ReachedFrom (after.settingList id raw').heap.links ((after.settingList id raw').roots ++ [.cell c]) x) :
    m.heap.Knows (m.roots ++ [.cell c]) x ∨ x = .object id := by
  induction hx with
  | start mem =>
    have hroots : (after.settingList id raw').roots = m.roots := ho.roots
    exact .inl (.inr (.start (hroots ▸ mem)))
  | @step x y _ mem ih =>
    by_cases hobject : x = .object id
    · subst hobject
      obtain ⟨cls, hnew⟩ := ho.object?_settingList_self raw'
      have hlinks : (after.settingList id raw').heap.links (.object id) = raw'.toList := by
        simp only [Heap.links, hnew]
        rfl
      exact .inl (hraw y (hlinks ▸ mem))
    · have hknown := ih.resolve_right hobject
      by_cases hcell : x = .cell c
      · subst hcell
        have hlinks : (after.settingList id raw').heap.links (.cell c) = [.object id] :=
          congrArg Option.toList ho.cell
        rw [hlinks, List.mem_singleton] at mem
        exact .inr mem
      · have hsame : Machine.Same m.heap (after.settingList id raw').heap x := ho.same_settingList hknown hcell hobject
        have hlinks : (after.settingList id raw').heap.links x = m.heap.links x := by
          have hclasses : (after.settingList id raw').heap.classes = m.heap.classes := ho.classes
          cases x with
          | object i =>
            have hobject? : (after.settingList id raw').heap.object? i = m.heap.object? i := hsame
            simp only [Heap.links, hobject?, children_of_classes hclasses]
          | cell d => exact congrArg Option.toList hsame
          | _ => rfl
        rw [hlinks] at mem
        rcases hknown with hscalar | hreached
        · cases x <;> first | cases mem | cases hscalar
        · exact .inl (.inr (.step hreached mem))

/-- Other items in the list of its own are an edit of the variable. -/
theorem edits (hm : m.HoldsList c items)
    (hraw : ∀ w ∈ raw'.toList, m.heap.Knows (m.roots ++ [.cell c]) w ∧ (w ∈ raw.toList ∨ w.isCell = false)) :
    m.Edits c (raw'.map m.heap.resolve) (after.settingList id raw') := by
  obtain ⟨cls, hnew⟩ := ho.object?_settingList_self raw'
  have hcell : (after.settingList id raw').heap.cell? c = some (.object id) := ho.cell
  have hreached {x : Value} := ho.reached_settingList (x := x) fun w hw => (hraw w hw).1
  refine ⟨⟨⟨fun {i} hi => ?_, fun {d} hd => ?_⟩, ?_⟩, ho.roots, ho.classes, fun {d} hd hne => ?_, fun {i} hi => ?_⟩
  · by_cases hid : i = id
    · subst hid
      exact ⟨_, hnew⟩
    · have hne : (.object i : Value) ≠ .object id := fun heq => hid (Value.object.inj heq)
      have hknown := (hreached hi).resolve_right hne
      obtain ⟨o, hold⟩ := hm.intact.knows_object hknown
      exact ⟨o, (ho.same_settingList hknown nofun hne : _ = _).trans hold⟩
  · by_cases hdc : d = c
    · exact ⟨_, hdc ▸ hcell, rfl⟩
    · have hknown := (hreached hd).resolve_right nofun
      obtain ⟨w, hold, hplain, -⟩ := hm.intact.knows_cell hknown
      exact ⟨w, (ho.same_settingList hknown (fun heq => hdc (Value.cell.inj heq)) nofun : _ = _).trans hold, hplain⟩
  · have hresolve : (after.settingList id raw').heap.resolve (.cell c) = .object id := congrArg (·.getD .null) hcell
    have hitems : raw'.map (after.settingList id raw').heap.resolve = raw'.map m.heap.resolve :=
      Array.map_congr_left fun w hw =>
        have hw := hraw w (Array.mem_toList_iff.mpr hw)
        ho.resolve_settingList hw.1 hw.2
    simp only [Heap.listOf, Heap.contentOf, hresolve, Heap.content?, hnew, Option.map_some, hitems]
  · exact ho.same_settingList hd (fun heq => hne (Value.cell.inj heq)) nofun
  · by_cases hid : i = id
    · subst hid
      rcases ho.own with ⟨hsole, -⟩ | ⟨hfresh, -⟩
      · exact .inr hsole
      · obtain ⟨o, hold⟩ := hm.intact.knows_object hi
        cases hfresh.symm.trans hold
    · exact .inl (ho.same_settingList hi nofun fun heq => hid (Value.object.inj heq))

end Machine.OwnsList

theorem Heap.contentOf_cell {h : Heap} {id : ObjectId} {o : Object} (hcell : h.cell? c = some (.object id))
    (ho : h.object? id = some o) : h.contentOf (.cell c) = some o.content := by
  have hresolve : h.resolve (.cell c) = .object id := congrArg (·.getD .null) hcell
  simp only [Heap.contentOf, hresolve, Heap.content?, ho, Option.map_some]

/-- Items that are stored as values are what the variable holds. -/
theorem Machine.holdsList_of_plain {id : ObjectId} {cls : ClassId} (hintact : m.heap.Intact (m.roots ++ [.cell c]))
    (hcell : m.heap.cell? c = some (.object id)) (ho : m.heap.object? id = some ⟨cls, .list items⟩)
    (hplain : ∀ w ∈ items.toList, w.isCell = false) : m.HoldsList c items := by
  refine ⟨hintact, ?_⟩
  simp only [Heap.listOf, Heap.contentOf_cell hcell ho, map_resolve_of_plain hplain]

/-- An edit computes on what is stored in the list of one's own, which stands for the items of the variable: the
items themselves, or what was stored before. What it leaves in the list is what the variable holds from then
on, also where the edit fails. -/
theorem editList_run (hm : m.HoldsList c items) (f : Array Value → Array Value × Except Failure Value)
    (hf : ∀ raw, raw.map m.heap.resolve = items → ∀ w ∈ (f raw).1.toList,
      w ∈ raw.toList ∨ w.isCell = false ∧ m.heap.Knows (m.roots ++ [.cell c]) w) :
    ∃ raw m', raw.map m.heap.resolve = items ∧ (raw = items ∨ m.heap.contentOf (.cell c) = some (.list raw)) ∧
      m.Edits c ((f raw).1.map m.heap.resolve) m' ∧ m'.heap.contentOf (.cell c) = some (.list (f raw).1) ∧
      Library.editList (.cell c) f m = (liftM (f raw).2 : Run Value) m' := by
  obtain ⟨id, raw, after, hown, ho, hitems⟩ := ownObject_run hm
  have hedits : m.Edits c ((f raw).1.map m.heap.resolve) (after.settingList id (f raw).1) := by
    refine ho.edits hm fun w hw => ?_
    rcases hf raw hitems w hw with hmem | ⟨hplain, hknown⟩
    · exact ⟨ho.known w hmem, .inl hmem⟩
    · exact ⟨hknown, .inr hplain⟩
  obtain ⟨cls, hnew⟩ := ho.object?_settingList_self (f raw).1
  have hcell : (after.settingList id (f raw).1).heap.cell? c = some (.object id) := ho.cell
  have hcontent := Heap.contentOf_cell hcell hnew
  refine ⟨raw, _, hitems, ?_, hedits, hcontent, ?_⟩
  · rcases ho.own with ⟨hsole, hcontent⟩ | ⟨-, hplain⟩
    · have hresolve : m.heap.resolve (.cell c) = .object id := congrArg (·.getD .null) hsole.cell
      exact .inr (by simp only [Heap.contentOf, hresolve, hcontent])
    · exact .inl (map_resolve_of_plain hplain ▸ hitems)
  · rw [Library.editList, Run.bind_of_ok hown]
    rfl

-- ---------------------------------------------------------------------------
-- Other variables
-- ---------------------------------------------------------------------------

/-- What the roots and the other cells that can be reached hold is what they held before. -/
def Machine.KeepsOthers (m : Machine) (c : CellId) (m' : Machine) : Prop :=
  ∀ x, x ≠ .cell c → x ∈ m.roots ∨ x.isCell ∧ m.heap.Knows (m.roots ++ [.cell c]) x →
    m'.heap.resolve x = m.heap.resolve x ∧ m'.heap.contentOf x = m.heap.contentOf x

/-- An edit of a variable shows in no other variable, also if they shared the list. -/
theorem Machine.Edits.keepsOthers {m' : Machine} (hm : m.HoldsList c items) {items' : Array Value}
    (h : m.Edits c items' m') : m.KeepsOthers c m' := by
  intro x hne hx
  have hknown : m.heap.Knows (m.roots ++ [.cell c]) x := by
    rcases hx with hroot | ⟨-, hknown⟩
    · exact .inr (.start (List.mem_append_left _ hroot))
    · exact hknown
  have hresolve : m'.heap.resolve x = m.heap.resolve x := by
    cases x with
    | cell d => exact congrArg (·.getD .null) (h.cell hknown fun hdc => hne (hdc ▸ rfl))
    | _ => rfl
  refine ⟨hresolve, ?_⟩
  have hbehind := (hm.intact.knows_resolve hknown).1
  simp only [Heap.contentOf, hresolve]
  cases hobject : m.heap.resolve x with
  | object i =>
    rw [hobject] at hbehind
    rcases h.object hbehind with hsame | hsole
    · exact congrArg (Option.map Object.content) hsame
    · -- Only the cell of the variable refers to its list, but `x` does.
      cases x with
      | object j =>
        cases hobject
        exact absurd (hx.resolve_right fun hcell => absurd hcell.1 nofun) hsole.roots
      | cell d =>
        obtain ⟨w, hw, -, -⟩ := hm.intact.knows_cell hknown
        have hvalue : m.heap.resolve (.cell d) = w := congrArg (·.getD .null) hw
        have hlink : .object i ∈ m.heap.links (.cell d) := by simp [Heap.links, hw, ← hvalue, hobject]
        exact absurd (hsole.links hknown hlink) hne
      | _ => cases hobject
  | _ => rfl

end Variables

end Rill
