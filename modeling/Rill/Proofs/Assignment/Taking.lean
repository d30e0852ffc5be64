-- SUMMARY: What a seat holds becomes its own: nothing without the seat reaches it any more.
import Rill.Proofs.Assignment.Seats
import Rill.Proofs.Comparison.Keys

/-!
# Taking

Before a change in place, the value in a seat is made its own: a container that anything else refers to is copied,
and the copy put into the seat. What was known stays as it was, apart from the holder of the seat, and the container
that the seat holds then is not reached without it.
-/

namespace Rill

theorem Heap.Knows.link {h : Heap} {start : List Value} {x w : Value} (hx : h.Knows start x) (hw : w ∈ h.links x) :
    h.Knows start w := by
  rcases hx with hscalar | hreached
  · cases x <;> first | cases hw | cases hscalar
  · exact .inr (.step hreached hw)

namespace Machine

variable {m m' m'' : Machine} {s : Seat} {v w x : Value}

theorem Beside.rootsBut (h : m.Beside m') (hclasses : m'.heap.classes = m.heap.classes) (s : Seat) :
    m'.rootsBut s = m.rootsBut s := by
  have hrest (heap : Heap) (files : Files.Tree) (registrations : Nat) (hheap : heap.classes = m.heap.classes) :
      Machine.rootsBut { m with heap := heap, files := files, registrations := registrations } s = m.rootsBut s := by
    cases s <;> simp only [Machine.rootsBut, roots, hheap]
  rw [h]
  exact hrest _ _ _ hclasses

theorem Beside.roots (h : m.Beside m') (hclasses : m'.heap.classes = m.heap.classes) : m'.roots = m.roots :=
  h.rootsBut hclasses (.inside .null 0)

-- ---------------------------------------------------------------------------
-- Values in seats
-- ---------------------------------------------------------------------------

theorem eq_or_mem_eraseIdx {l : List Value} {k : Nat} (hk : l[k]? = some v) (hx : x ∈ l) :
    x = v ∨ x ∈ l.eraseIdx k := by
  obtain ⟨hlt, rfl⟩ := List.getElem?_eq_some_iff.mp hk
  exact List.mem_cons.mp ((List.getElem_cons_eraseIdx_perm hlt).mem_iff.mpr hx)

theorem mem_links_cases (hheld : m.held? s = some v) (hx : x ∈ m.heap.links w) :
    x = v ∧ s.holder? = some w ∨ x ∈ m.linksBut s w := by
  cases s with
  | inside holder k =>
    by_cases hw : w = holder
    · subst hw
      simp only [linksBut, if_true]
      exact (eq_or_mem_eraseIdx hheld hx).imp (fun h => ⟨h, rfl⟩) id
    · right
      simpa only [linksBut, if_neg hw] using hx
  | _ => exact .inr hx

theorem mem_roots_cases (hheld : m.held? s = some v) (hx : x ∈ m.roots) : x = v ∨ x ∈ m.rootsBut s := by
  cases s with
  | slot k =>
    have hk : m.stack.toList[k]? = some v := by rwa [Array.getElem?_toList]
    simp only [rootsBut, roots, Array.toList_eraseIdxIfInBounds, List.mem_append] at hx ⊢
    rcases hx with (((hx | hx) | hx) | hx) | hx
    · exact (eq_or_mem_eraseIdx hk hx).imp id fun hx => .inl (.inl (.inl (.inl hx)))
    all_goals tauto
  | global name =>
    obtain ⟨k, hposition, hvalue⟩ := OrderedMap.value_at_position hheld
    have herase : (m.globals.erase name).values.toList = m.globals.values.toList.eraseIdx k := by
      rw [OrderedMap.values_erase, hposition]
    simp only [rootsBut, roots, List.mem_append, herase] at hx ⊢
    rcases hx with (((hx | hx) | hx) | hx) | hx
    · tauto
    · exact (eq_or_mem_eraseIdx hvalue hx).imp id fun hx => .inl (.inl (.inl (.inr hx)))
    all_goals tauto
  | inside holder k => exact .inr hx

theorem linksBut_congr (hlinks : m'.heap.links x = m.heap.links x) (s : Seat) :
    m'.linksBut s x = m.linksBut s x := by
  unfold linksBut
  simp only [hlinks]

/-- What is reached without a seat depends on the roots and the links without it. -/
theorem without_congr (hroots : m'.rootsBut s = m.rootsBut s)
    (hlinks : ∀ y, m.Without s y → m'.linksBut s y = m.linksBut s y) : m'.Without s x ↔ m.Without s x := by
  constructor
  · intro h
    induction h with
    | start mem => exact .start (hroots ▸ mem)
    | @step y z _ mem ih => exact .step ih (hlinks y ih ▸ mem)
  · intro h
    induction h with
    | start mem => exact .start (hroots.symm ▸ mem)
    | @step y z hy mem ih => exact .step ih ((hlinks y hy).symm ▸ mem)

/-- The links of what is the same on two heaps with the same classes. -/
theorem links_of_same {h h' : Heap} (hsame : Same h h' x) (hclasses : h'.classes = h.classes) : h'.links x = h.links x := by
  cases x with
  | object i =>
    have hobject : h'.object? i = h.object? i := hsame
    simp only [Heap.links, hobject, children_of_classes hclasses]
  | cell c =>
    have hcell : h'.cell? c = h.cell? c := hsame
    simp only [Heap.links, hcell]
  | _ => rfl

-- ---------------------------------------------------------------------------
-- Puts
-- ---------------------------------------------------------------------------

/-- The second machine is the first one with another value in a seat. -/
structure Puts (m after : Machine) (s : Seat) (v : Value) : Prop where
  classes : after.heap.classes = m.heap.classes
  roots : after.rootsBut s = m.rootsBut s
  links : after.linksBut s = m.linksBut s
  held : after.held? s = some v
  same {x : Value} : s.holder? ≠ some x → Same m.heap after.heap x
  alive {id : ObjectId} : (m.heap.object? id).isSome → (after.heap.object? id).isSome

theorem Puts.without_iff (h : m.Puts m' s v) : m'.Without s x ↔ m.Without s x :=
  without_congr h.roots fun y _ => congrFun h.links y

-- ---------------------------------------------------------------------------
-- Unsharing
-- ---------------------------------------------------------------------------

section Unsharing

variable {extra : List Value} {own : Value}

theorem unshare_beside (hrun : Run.unshare v extra m = .ok own m') : m.Beside m' :=
  (Aside.unshare v extra m).of_ok hrun

/-- What a seat holds has become its own: a container that it holds is not reached without it. What was known is as
it was, but for the holder of the seat. -/
structure Takes (m after : Machine) (s : Seat) (extra : List Value) (item own : Value) : Prop where
  classes : after.heap.classes = m.heap.classes
  intact : after.heap.Intact after.roots
  held : after.held? s = some own
  stands : m.heap.IsOwn after.heap item own
  sole {id : ObjectId} {o : Object} : item = .object id → m.heap.object? id = some o → o.content.isContainer →
    ¬after.Without s own
  without {x : Value} : after.Without s x ↔ m.Without s x
  same {x : Value} : m.heap.Knows (m.roots ++ extra) x → s.holder? ≠ some x → Same m.heap after.heap x

theorem same_refl (h : Heap) (x : Value) : Same h h x := by
  cases x <;> trivial

theorem same_trans {h h' h'' : Heap} (h₁ : Same h h' x) (h₂ : Same h' h'' x) : Same h h'' x := by
  cases x with
  | object i => exact Eq.trans (show h''.object? i = h'.object? i from h₂) h₁
  | cell c => exact Eq.trans (show h''.cell? c = h'.cell? c from h₂) h₁
  | _ => trivial

theorem Without.knows (h : m.Without s x) (extra : List Value) : m.heap.Knows (m.roots ++ extra) x :=
  .inr (h.reached.trans (fun _ hw => .start (List.mem_append_left _ hw)) fun _ hu _ hw => .step hu hw)

theorem mem_children_copyContent {h : Heap} {f : Value → Value} {c : Content} (hcontainer : c.isContainer)
    (hx : x ∈ h.children (Run.copyContent f c)) : ∃ z ∈ h.children c, x = f z := by
  cases c with
  | list items =>
    have hmap : x ∈ (items.map f).toList := hx
    rw [Array.toList_map, List.mem_map] at hmap
    obtain ⟨z, hz, rfl⟩ := hmap
    exact ⟨z, hz, rfl⟩
  | table entries =>
    have hmap : x ∈ ((entries.map f).values).toList := hx
    simp only [OrderedMap.map, OrderedMap.values, Array.map_map, Array.toList_map, List.mem_map] at hmap
    obtain ⟨entry, hentry, rfl⟩ := hmap
    have hvalue : entry.2 ∈ entries.values.toList := by
      rw [OrderedMap.values, Array.toList_map]
      exact List.mem_map_of_mem hentry
    exact ⟨entry.2, hvalue, rfl⟩
  | set _ | array _ => cases hx
  | _ => cases hcontainer

/-- What is reached once a value has been put back into its seat was known, or is that value. -/
theorem Puts.reached_cases {unshared : Machine} {item : Value} (hput : unshared.Puts m' s own)
    (hun : m.Unshares unshared extra item own) (hi : m.heap.Intact (m.roots ++ extra))
    (hknown : m.heap.Knows (m.roots ++ extra) item) (hx : ReachedFrom m'.heap.links m'.roots x) :
    x = own ∨ m.heap.Knows (m.roots ++ extra) x := by
  have hlinks {y : Value} (hy : m.heap.Knows (m.roots ++ extra) y) : unshared.heap.links y = m.heap.links y :=
    links_of_same (hun.retains.same hy) hun.retains.classes
  induction hx with
  | start mem =>
    refine (mem_roots_cases hput.held mem).imp id fun mem => .inr (.start (List.mem_append_left _ ?_))
    rw [hput.roots] at mem
    exact hun.roots ▸ rootsBut_subset s mem
  | @step y x _ mem ih =>
    refine (mem_links_cases hput.held mem).imp And.left fun mem => ?_
    rw [hput.links] at mem
    have mem := linksBut_subset s y mem
    rcases ih with rfl | hy
    · cases hun.own with
      | shared => exact hknown.link (hlinks hknown ▸ mem)
      | @copied i j o old container fresh new =>
        -- The copy refers to what the values in the container stand for.
        have hchildren : x ∈ m.heap.children (Run.copyContent m.heap.resolve o.content) := by
          simpa [Heap.links, new, children_of_classes hun.retains.classes] using mem
        obtain ⟨z, hz, rfl⟩ := mem_children_copyContent container hchildren
        exact (hi.knows_resolve (hknown.child old hz)).1
    · exact hy.link (hlinks hy ▸ mem)

/-- A value is put back into its seat after it has been unshared. -/
theorem Puts.takes {unshared : Machine} {item : Value} (hput : unshared.Puts m' s own)
    (hrun : Run.unshare item extra m = .ok own unshared) (hi : m.heap.Intact (m.roots ++ extra))
    (hheld : m.held? s = some item) (hknown : m.heap.Knows (m.roots ++ extra) item) (hplain : item.isCell = false)
    (hholder : ∀ y, s.holder? = some y → m.heap.Knows (m.roots ++ extra) y) : m.Takes m' s extra item own := by
  obtain ⟨own', unshared', hrun', hun⟩ := unshare_ends hi hknown
  cases hrun.symm.trans hrun'
  have hbeside := unshare_beside hrun
  have hclasses := hun.retains.classes
  have hplain' := hun.own.isCell hplain
  have hlinks {y : Value} (hy : m.heap.Knows (m.roots ++ extra) y) : unshared.heap.links y = m.heap.links y :=
    links_of_same (hun.retains.same hy) hclasses
  have hheldAfter : unshared.held? s = some item := by
    cases s with
    | slot k =>
      simpa only [held?, hbeside.stack] using hheld
    | global name =>
      simpa only [held?, hbeside.globals] using hheld
    | inside holder k => simpa only [held?, hlinks (hholder holder rfl)] using hheld
  have hwithout {x : Value} : unshared.Without s x ↔ m.Without s x :=
    without_congr (hbeside.rootsBut hclasses s) fun y hy => linksBut_congr (hlinks (hy.knows extra)) s
  have hreached {x : Value} := hput.reached_cases hun hi hknown (x := x)
  have hobject {i : ObjectId} (hx : .object i = own ∨ m.heap.Knows (m.roots ++ extra) (.object i)) :
      (unshared.heap.object? i).isSome := by
    have hold (hx : m.heap.Knows (m.roots ++ extra) (.object i)) : (unshared.heap.object? i).isSome := by
      obtain ⟨o, ho⟩ := hi.knows_object hx
      exact Option.isSome_of_eq_some ((hun.retains.same hx : _ = _).trans ho)
    rcases hx with rfl | hx
    · cases hun.own with
      | shared => exact hold hknown
      | copied _ _ _ new => exact Option.isSome_of_eq_some new
    · exact hold hx
  refine ⟨hput.classes.trans hclasses, ⟨fun {i} hx => ?_, fun {c} hx => ?_⟩, hput.held, ?_, ?_, ?_, ?_⟩
  · exact Option.isSome_iff_exists.mp (hput.alive (hobject (hreached hx)))
  · have hc := (hreached hx).resolve_left fun heq => by
      rw [← heq] at hplain'
      cases hplain'
    by_cases hseat : s.holder? = some (.cell c)
    · cases s with
      | inside holder k =>
        cases hseat
        have hcell : (m'.heap.cell? c).toList[k]? = some own := hput.held
        exact ⟨own, Option.mem_toList.mp (List.mem_of_getElem? hcell), hplain'⟩
      | _ => cases hseat
    · obtain ⟨w, hw, hcell, -⟩ := hi.knows_cell hc
      have hsame := same_trans (hun.retains.same hc) (hput.same hseat)
      exact ⟨w, (show m'.heap.cell? c = m.heap.cell? c from hsame).trans hw, hcell⟩
  · cases hun.own with
    | shared => exact .shared
    | @copied i j o old container fresh new =>
      have hne : s.holder? ≠ some (.object j) := fun hseat => by
        obtain ⟨p, hp⟩ := hi.knows_object (hholder _ hseat)
        cases fresh.symm.trans hp
      exact .copied old container fresh ((hput.same hne : _ = _).trans new)
  · rintro id o rfl ho hcontainer
    rw [hput.without_iff]
    cases hun.own with
    | shared =>
      obtain ⟨rfl, hcount⟩ := count_of_unshare ho hcontainer hknown hrun
      exact not_without_of_count hheldAfter hcount
    | copied old container fresh new =>
      -- Only what was known is reached in the machine with the copy.
      intro hback
      obtain ⟨q, hq⟩ := hi.knows_object ((hwithout.mp hback).knows extra)
      cases fresh.symm.trans hq
  · exact hput.without_iff.trans hwithout
  · intro x hx hne
    exact same_trans (hun.retains.same hx) (hput.same hne)

end Unsharing

-- ---------------------------------------------------------------------------
-- Kinds of seats
-- ---------------------------------------------------------------------------

section Kinds

variable {own item : Value} {extra : List Value}

/-- A place in an object gets another value. -/
theorem puts_setContent {id : ObjectId} {o : Object} {c : Content} {k : Nat} (ho : m.heap.object? id = some o)
    (hkind : o.content.sameKind c) (hk : k < (m.heap.children o.content).length)
    (hset : m.heap.children c = (m.heap.children o.content).set k own) :
    m.Puts { m with heap := m.heap.setContent id c } (.inside (.object id) k) own := by
  have hself : (m.heap.setContent id c).object? id = some { o with content := c } := by
    rw [Heap.object?_setContent, if_pos rfl, ho, Option.map_some, if_pos hkind]
  have hother {i : ObjectId} (hi : id ≠ i) : (m.heap.setContent id c).object? i = m.heap.object? i := by
    rw [Heap.object?_setContent, if_neg hi]
  have hlinks : (m.heap.setContent id c).links (.object id) = (m.heap.links (.object id)).set k own := by
    have hchildren : (m.heap.setContent id c).children c = m.heap.children c := children_of_classes rfl c
    simp only [Heap.links, hself, ho, Option.elim_some, hchildren, hset]
  have hsame {x : Value} (hx : some (.object id) ≠ some x) : Same m.heap (m.heap.setContent id c) x := by
    cases x with
    | object i => exact hother fun h => hx (h ▸ rfl)
    | cell c => exact rfl
    | _ => trivial
  refine ⟨rfl, rfl, ?_, ?_, hsame, ?_⟩
  · funext x
    by_cases hx : x = .object id
    · subst hx
      simp only [linksBut, if_true, hlinks, List.eraseIdx_set_eq]
    · have hlinks := links_of_same (hsame fun h => hx (Option.some.inj h).symm) rfl
      exact linksBut_congr hlinks _
  · have hlength : k < (m.heap.links (.object id)).length := by simpa [Heap.links, ho] using hk
    simp only [held?, hlinks, List.getElem?_set_self hlength]
  · intro i hi
    by_cases hid : id = i
    · subst hid
      exact Option.isSome_of_eq_some hself
    · rwa [hother hid]

/-- A cell gets another value. -/
theorem puts_setCell {c : CellId} {old : Value} (hold : m.heap.cell? c = some old) (hown : own.isCell = false) :
    m.Puts { m with heap := m.heap.setCell c own } (.inside (.cell c) 0) own := by
  have hcell (d : CellId) : (m.heap.setCell c own).cell? d = if d = c then some own else m.heap.cell? d := by
    rw [Heap.cell?_setCell hold, Heap.resolve_of_isCell hown]
  have hself : (m.heap.setCell c own).links (.cell c) = [own] := by
    simp only [Heap.links, hcell, if_true, Option.toList_some]
  have hother {x : Value} (hx : some (.cell c) ≠ some x) : Same m.heap (m.heap.setCell c own) x := by
    cases x with
    | cell d => exact (hcell d).trans (if_neg fun hd : d = c => hx (hd ▸ rfl))
    | object i => exact rfl
    | _ => trivial
  refine ⟨rfl, rfl, ?_, ?_, hother, id⟩
  · funext x
    by_cases hx : x = .cell c
    · subst hx
      have hbefore : m.heap.links (.cell c) = [old] := by simp only [Heap.links, hold, Option.toList_some]
      simp only [linksBut, if_true, hself, hbefore, List.eraseIdx_zero, List.tail_cons]
    · have hlinks := links_of_same (hother fun h => hx (Option.some.inj h).symm) rfl
      exact linksBut_congr hlinks _
  · simp only [held?, hself, List.getElem?_cons_zero]

/-- A slot gets another value. -/
theorem puts_slot {k : Nat} (hk : k < m.stack.size) :
    m.Puts { m with stack := m.stack.setIfInBounds k own } (.slot k) own := by
  refine ⟨rfl, ?_, rfl, by simp [held?, hk], fun {x} _ => by cases x <;> first | rfl | trivial, id⟩
  simp only [rootsBut, roots, Array.toList_eraseIdxIfInBounds, Array.toList_setIfInBounds, List.eraseIdx_set_eq]

/-- A global gets another value. -/
theorem puts_global {name : String} {old : Value} (hold : m.globals.find? name = some old) :
    m.Puts { m with globals := m.globals.insert name own } (.global name) own := by
  obtain ⟨k, hposition, -⟩ := OrderedMap.value_at_position hold
  have hkeys : (m.globals.insert name own).position? name = some k := by
    have hmem : name ∈ m.globals.keys.toList := OrderedMap.mem_keys.mpr ⟨old, hold⟩
    rw [OrderedMap.position?_keys, OrderedMap.keys_insert, if_pos hmem, ← OrderedMap.position?_keys, hposition]
  have herase (map : OrderedMap String Value) (hmap : map.position? name = some k) :
      (map.erase name).values.toList = map.values.toList.eraseIdx k := by
    rw [OrderedMap.values_erase, hmap]
  refine ⟨rfl, ?_, rfl, ?_, fun {x} _ => by cases x <;> first | rfl | trivial, id⟩
  · simp only [rootsBut, roots, herase _ hkeys, herase _ hposition, OrderedMap.values_insert, hposition,
      List.eraseIdx_set_eq]
  · simp only [held?, OrderedMap.find?_insert, if_true]

/-- A place in a container is taken. -/
theorem place_takes {id : ObjectId} {o : Object} {k : Nat} (put : Value → Content)
    (hi : m.heap.Intact (m.roots ++ extra)) (hid : m.heap.Knows (m.roots ++ extra) (.object id))
    (ho : m.heap.object? id = some o) (hitem : (m.heap.children o.content)[k]? = some item)
    (hplain : item.isCell = false) (hkind : ∀ held, o.content.sameKind (put held))
    (hput : ∀ held, m.heap.children (put held) = (m.heap.children o.content).set k held) :
    ∃ own after, (do
      let (held, own) ← Run.unshareSlot item extra
      Run.setContent id (put held)
      return own : Run Value) m = .ok own after ∧ m.Beside after ∧
      m.Takes after (.inside (.object id) k) extra item own ∧
      after.heap.object? id = some { o with content := put own } := by
  have hknown := hid.child ho (List.mem_of_getElem? hitem)
  obtain ⟨own, unshared, hrun, hun⟩ := unshare_ends hi hknown
  have hslot : Run.unshareSlot item extra m = .ok (own, own) unshared := by
    cases item with
    | cell c => cases hplain
    | _ => simp only [Run.unshareSlot, bind, EStateM.bind, hrun, pure, EStateM.pure]
  have ho' : unshared.heap.object? id = some o := (hun.retains.same hid : _ = _).trans ho
  have hchildren (c : Content) : unshared.heap.children c = m.heap.children c :=
    children_of_classes hun.retains.classes c
  have hlt := (List.getElem?_eq_some_iff.mp hitem).1
  have hputs : unshared.Puts { unshared with heap := unshared.heap.setContent id (put own) }
      (.inside (.object id) k) own :=
    puts_setContent ho' (hkind own) (by rwa [hchildren]) (by rw [hchildren, hchildren, hput])
  have hheld : m.held? (.inside (.object id) k) = some item := by
    simpa only [held?, Heap.links, ho, Option.elim_some] using hitem
  refine ⟨own, _, ?_, (unshare_beside hrun).trans (beside_heap _ _),
    hputs.takes hrun hi hheld hknown hplain fun y hy => Option.some.inj hy ▸ hid, ?_⟩
  · simp only [bind, EStateM.bind, hslot]
    rfl
  · rw [Heap.object?_setContent, if_pos rfl, ho', Option.map_some, if_pos (hkind own)]

/-- What is in a cell is taken. -/
theorem cell_takes {c : CellId} {w : Value} (hi : m.heap.Intact (m.roots ++ extra))
    (hc : m.heap.Knows (m.roots ++ extra) (.cell c)) (hw : m.heap.cell? c = some w) :
    ∃ own after, Run.unshareSlot (.cell c) extra m = .ok (.cell c, own) after ∧ m.Beside after ∧
      m.Takes after (.inside (.cell c) 0) extra w own := by
  obtain ⟨w', hw', hplain, hknown⟩ := hi.knows_cell hc
  cases hw.symm.trans hw'
  obtain ⟨own, unshared, hrun, hun⟩ := unshare_ends hi hknown
  have hvalue : m.heap.cellValue c = w := congrArg (·.getD .null) hw
  have hslot : Run.unshareSlot (.cell c) extra m =
      .ok (.cell c, own) { unshared with heap := unshared.heap.setCell c own } := by
    rw [← hvalue] at hrun
    simp only [Run.unshareSlot, Run.heap, bind, EStateM.bind, Run.get_run, pure, EStateM.pure, hrun]
    rfl
  have hold : unshared.heap.cell? c = some w := (hun.retains.same hc : _ = _).trans hw
  have hheld : m.held? (.inside (.cell c) 0) = some w := by
    simp only [held?, Heap.links, hw, Option.toList_some, List.getElem?_cons_zero]
  exact ⟨own, _, hslot, (unshare_beside hrun).trans (beside_heap _ _),
    (puts_setCell hold (hun.own.isCell hplain)).takes hrun hi hheld hknown hplain fun y hy => Option.some.inj hy ▸ hc⟩

/-- The machine with another value in a variable. -/
def put (m : Machine) (s : Seat) (v : Value) : Machine :=
  match s with
  | .slot k => { m with stack := m.stack.setIfInBounds k v }
  | .global name => { m with globals := m.globals.insert name v }
  | .inside .. => m

/-- Where the value of a variable is whose place holds `v`: there, or in the cell that has taken the place. -/
def behind (place : Seat) (v : Value) : Seat :=
  match v with
  | .cell c => .inside (.cell c) 0
  | _ => place

theorem behind_plain {place : Seat} (hv : v.isCell = false) : behind place v = place := by
  cases v <;> first | rfl | cases hv

/-- Where the value of a variable is. -/
def seat? (m : Machine) (f : Frame) : Slot → Option Seat
  | .frame i => (m.stack[f.base + i]?).map (behind (.slot (f.base + i)))
  | .captured i => (f.closure.captured[i]?).map fun c => .inside (.cell c) 0
  | .global k => (f.routine.strings[k]?).bind fun name => (m.globals.find? name).map (behind (.global name))

theorem Beside.put (h : m.Beside m') (s : Seat) (v : Value) : (m.put s v).Beside (m'.put s v) := by
  cases s with
  | slot k =>
    change { m' with stack := m'.stack.setIfInBounds k v } = { m with
      stack := m.stack.setIfInBounds k v, heap := m'.heap, files := m'.files, registrations := m'.registrations }
    rw [h]
  | global name =>
    change { m' with globals := m'.globals.insert name v } = { m with
      globals := m.globals.insert name v, heap := m'.heap, files := m'.files, registrations := m'.registrations }
    rw [h]
  | inside holder k => exact h

theorem put_self {place : Seat} (hheld : m.held? place = some v) : m.put place v = m := by
  cases place with
  | slot k =>
    obtain ⟨hk, rfl⟩ := Array.getElem?_eq_some_iff.mp hheld
    simp only [Machine.put, Array.setIfInBounds_def, hk, dif_pos, Array.set_getElem_self]
  | global name => simp only [Machine.put, OrderedMap.insert_find? hheld]
  | inside holder k => rfl

theorem held_mem_roots {place : Seat} (hheld : m.held? place = some v) (hplace : place.holder? = none) :
    v ∈ m.roots := by
  cases place with
  | slot k =>
    have hstack : v ∈ m.stack.toList := Array.mem_toList_iff.mpr (Array.mem_of_getElem? hheld)
    simp only [roots, List.mem_append]
    tauto
  | global name =>
    have hglobal := OrderedMap.find?_mem_values hheld
    simp only [roots, List.mem_append]
    tauto
  | inside holder k => cases hplace

/-- What a seat holds is reached if the holder of the seat is. -/
theorem held_reached (hheld : m.held? s = some v)
    (hholder : ∀ y, s.holder? = some y → ReachedFrom m.heap.links m.roots y) : ReachedFrom m.heap.links m.roots v := by
  cases s with
  | inside holder k => exact .step (hholder holder rfl) (List.mem_of_getElem? hheld)
  | _ => exact .start (held_mem_roots hheld rfl)

/-- The cell of a variable is taken. -/
theorem variable_cell_takes {c : CellId} (hi : m.heap.Intact m.roots) (hc : .cell c ∈ m.roots) :
    ∃ w own after, Run.unshareSlot (.cell c) [] m = .ok (.cell c, own) after ∧
      m.held? (.inside (.cell c) 0) = some w ∧ m.Beside after ∧ m.Takes after (.inside (.cell c) 0) [] w own := by
  have hi' : m.heap.Intact (m.roots ++ []) := by rwa [List.append_nil]
  have hknown : m.heap.Knows (m.roots ++ []) (.cell c) := .inr (.start (by rwa [List.append_nil]))
  obtain ⟨w, hw, -⟩ := hi'.knows_cell hknown
  obtain ⟨own, after, hrun, hbeside, htakes⟩ := cell_takes hi' hknown hw
  exact ⟨w, own, after, hrun, by simp [held?, Heap.links, hw], hbeside, htakes⟩

/-- What the place of a variable holds, or the cell there, is taken. -/
theorem variable_takes (place : Seat) (hi : m.heap.Intact m.roots) (hplace : place.holder? = none)
    (hheld : m.held? place = some v) :
    ∃ w held own unshared, Run.unshareSlot v [] m = .ok (held, own) unshared ∧
      m.held? (behind place v) = some w ∧ (m.put (behind place v) own).Beside (unshared.put place held) ∧
      m.Takes (unshared.put place held) (behind place v) [] w own := by
  have hmem := held_mem_roots hheld hplace
  by_cases hcell : v.isCell
  · cases v with
    | cell c =>
      obtain ⟨w, own, after, hrun, hw, hbeside, htakes⟩ := variable_cell_takes hi hmem
      have hself : after.put place (.cell c) = after := put_self (by
        cases place with
        | slot k => exact (congrArg (·[k]?) hbeside.stack).trans hheld
        | global name => exact (congrArg (·.find? name) hbeside.globals).trans hheld
        | inside holder k => cases hplace)
      exact ⟨w, .cell c, own, after, hrun, hw, hself.symm ▸ hbeside, hself.symm ▸ htakes⟩
    | _ => cases hcell
  · have hplain : v.isCell = false := by simpa using hcell
    have hi' : m.heap.Intact (m.roots ++ []) := by rwa [List.append_nil]
    have hknown : m.heap.Knows (m.roots ++ []) v := .inr (.start (by rwa [List.append_nil]))
    obtain ⟨own, unshared, hrun, hun⟩ := unshare_ends hi' hknown
    have hbeside := unshare_beside hrun
    have hslot : Run.unshareSlot v [] m = .ok (own, own) unshared := by
      cases v with
      | cell c => cases hplain
      | _ => simp only [Run.unshareSlot, bind, EStateM.bind, hrun, pure, EStateM.pure]
    have hputs : unshared.Puts (unshared.put place own) place own := by
      cases place with
      | slot k => exact puts_slot (by rw [hbeside.stack]; exact (Array.getElem?_eq_some_iff.mp hheld).1)
      | global name => exact puts_global ((congrArg (·.find? name) hbeside.globals).trans hheld)
      | inside holder k => cases hplace
    rw [behind_plain hplain]
    refine ⟨v, own, own, unshared, hslot, hheld, hbeside.put place own,
      hputs.takes hrun hi' hheld hknown hplain fun y hy => ?_⟩
    rw [hplace] at hy
    cases hy

/-- What a variable holds is taken when it is read for a change. -/
theorem readSlot_takes {f : Frame} {slot : Slot} {s : Seat} (hi : m.heap.Intact m.roots)
    (hframe : ∀ c ∈ f.closure.captured, .cell c ∈ m.roots) (hs : m.seat? f slot = some s) :
    ∃ v own after, Run.readSlot f slot .unique m = .ok own after ∧ m.held? s = some v ∧ (m.put s own).Beside after ∧
      m.Takes after s [] v own := by
  cases slot with
  | frame i =>
    obtain ⟨v, hv, rfl⟩ := Option.map_eq_some_iff.mp hs
    obtain ⟨w, held, own, unshared, hrun, hw, hbeside, htakes⟩ :=
      variable_takes (.slot (f.base + i)) hi rfl hv
    have hlocal : Run.local? f i m = .ok v m := by
      rw [Run.local?, Run.bind_get, hv]
      rfl
    refine ⟨w, own, _, ?_, hw, hbeside, htakes⟩
    exact (Run.bind_of_ok hlocal).trans ((Run.bind_of_ok hrun).trans rfl)
  | captured i =>
    obtain ⟨c, hc, rfl⟩ := Option.map_eq_some_iff.mp hs
    obtain ⟨w, own, after, hrun, hw, hbeside, htakes⟩ :=
      variable_cell_takes hi (hframe c (Array.mem_of_getElem? hc))
    have hcell : Run.capturedCell f i m = .ok c m := by
      rw [Run.capturedCell, hc]
      rfl
    exact ⟨w, own, after, (Run.bind_of_ok hcell).trans ((Run.bind_of_ok hrun).trans rfl), hw, hbeside, htakes⟩
  | global k =>
    obtain ⟨name, hname, hs⟩ := Option.bind_eq_some_iff.mp hs
    obtain ⟨v, hv, rfl⟩ := Option.map_eq_some_iff.mp hs
    obtain ⟨w, held, own, unshared, hrun, hw, hbeside, htakes⟩ := variable_takes (.global name) hi rfl hv
    have hconstant : Run.constant f k m = .ok name m := by
      rw [Run.constant, hname]
      rfl
    have hglobal : Run.global name m = .ok v m := by
      rw [Run.global, Run.bind_get, hv]
      rfl
    refine ⟨w, own, _, ?_, hw, hbeside, htakes⟩
    exact (Run.bind_of_ok hconstant).trans ((Run.bind_of_ok hglobal).trans ((Run.bind_of_ok hrun).trans rfl))

end Kinds

end Machine

end Rill
