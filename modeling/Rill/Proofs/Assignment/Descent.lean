-- SUMMARY: On the way down a path every container becomes one of its own, and a change at its end shows in one tree only.
import Rill.Proofs.Assignment.Data
import Rill.Proofs.Assignment.Taking

/-!
# Descent

A variable holds a tree. Down a path, the container that the variable holds becomes its own, then the element in it
that the path leads to, and so on. At the end there is a value that is reached through its seat only: what is put
there in its place is put into the tree of the variable, and whatever is reached without the variable stays.
-/

namespace Rill

-- ---------------------------------------------------------------------------
-- What is in a tree
-- ---------------------------------------------------------------------------

section Below

variable {h h' : Heap} {start : List Value} {v w x : Value} {d : Datum}

theorem Heap.children_container {c : Content} (hc : c.isContainer) : h.children c = c.parts := by
  cases c <;> first | rfl | cases hc

theorem Heap.parts_subset_links (h : Heap) (v : Value) : h.parts v ⊆ h.links v := by
  cases v with
  | object id =>
    cases ho : h.object? id with
    | none => simp [Heap.parts, Heap.content?, ho]
    | some o =>
      rw [Heap.parts_object ho]
      by_cases hc : o.content.isContainer
      · simp only [Heap.links, ho, Option.elim_some, Heap.children_container hc]
        exact List.Subset.refl _
      · rw [Content.parts_reference (by simpa using hc)]
        exact List.nil_subset _
  | _ => exact List.nil_subset _

theorem Heap.Knows.below (hv : h.Knows start v) (hx : ReachedFrom h.parts [v] x) : h.Knows start x := by
  induction hx with
  | start mem => exact List.mem_singleton.mp mem ▸ hv
  | step _ mem ih => exact ih.link (h.parts_subset_links _ mem)

/-- There is no cell in a tree. -/
theorem Heap.Denotes.below_isCell (hd : h.Denotes v d) (hx : ReachedFrom h.parts [v] x) : x.isCell = false := by
  revert x
  refine hd.induction_parts (P := fun v => ∀ {x}, ReachedFrom h.parts [v] x → x.isCell = false) ?_
  intro v d hd ih x hx
  have hcases : x = v ∨ ∃ w ∈ h.parts v, ReachedFrom h.parts [w] x := by
    induction hx with
    | start mem => exact .inl (List.mem_singleton.mp mem)
    | @step u y _ mem ih =>
      rcases ih with rfl | ⟨w, hw, hreached⟩
      · exact .inr ⟨y, mem, .start (List.mem_singleton.mpr rfl)⟩
      · exact .inr ⟨w, hw, .step hreached mem⟩
  rcases hcases with rfl | ⟨w, hw, hreached⟩
  · exact hd.isCell
  · exact ih w hw hreached

end Below

namespace Machine

variable {m m' : Machine} {s : Seat} {extra : List Value} {item own v w x : Value} {d : Datum}

/-- What is in a tree that is reached without a seat is reached so, if the seat is not in the tree. -/
theorem Without.below (hv : m.Without s v) (hx : ReachedFrom m.heap.parts [v] x)
    (hapart : ∀ y, ReachedFrom m.heap.parts [v] y → s.holder? ≠ some y) : m.Without s x := by
  induction hx with
  | start mem => exact List.mem_singleton.mp mem ▸ hv
  | @step u y hu mem ih =>
    refine .step ih ?_
    have hmem := m.heap.parts_subset_links u mem
    cases s with
    | inside holder k =>
      have hne : u ≠ holder := fun heq => hapart u hu (congrArg some heq.symm)
      simpa only [linksBut, if_neg hne] using hmem
    | _ => exact hmem

-- ---------------------------------------------------------------------------
-- Taken trees
-- ---------------------------------------------------------------------------

theorem Takes.reached (h : m.Takes m' s extra item own)
    (hholder : ∀ y, s.holder? = some y → ReachedFrom m.heap.links m.roots y) :
    ReachedFrom m'.heap.links m'.roots own := by
  refine held_reached h.held fun y hy => ?_
  cases s with
  | inside holder k =>
    cases hy
    exact (h.without.mpr (without_holder (hholder _ rfl))).reached
  | _ => cases hy

/-- What a seat holds stays the same tree when it becomes the seat's own. -/
theorem Takes.denotes (h : m.Takes m' s extra item own) (hd : m.heap.Denotes item d)
    (hknown : m.heap.Knows (m.roots ++ extra) item)
    (hapart : ∀ y, ReachedFrom m.heap.parts [item] y → s.holder? ≠ some y) : m'.heap.Denotes own d := by
  have hsame {x : Value} (hx : ReachedFrom m.heap.parts [item] x) : Same m.heap m'.heap x :=
    h.same (hknown.below hx) (hapart x hx)
  cases h.stands with
  | shared => exact hd.transfer fun x => hsame
  | @copied i j o old container fresh new =>
    cases hd with
    | scalar plain => cases plain
    | @container _ o' _ alive fits part =>
      cases old.symm.trans alive
      have hstart : ReachedFrom m.heap.parts [.object i] (.object i) := .start (List.mem_singleton.mpr rfl)
      have hpart {z : Value} (hz : z ∈ o.content.parts) : ReachedFrom m.heap.parts [.object i] z :=
        .step hstart (by rwa [Heap.parts_object alive])
      have hresolve {z : Value} (hz : z ∈ o.content.parts) : m.heap.resolve z = z := by
        obtain ⟨k, hk⟩ := List.mem_iff_getElem?.mp hz
        have hlt : k < d.parts.length := fits.length_parts ▸ (List.getElem?_eq_some_iff.mp hk).1
        exact Heap.resolve_of_isCell (part k z _ hk (List.getElem?_eq_getElem hlt)).isCell
      have hcopy : Run.copyContent m.heap.resolve o.content = o.content := by
        refine (copyContent_congr (h := m.heap) (g := id) fun z hz => ?_).trans ?_
        · rw [Heap.children_container container] at hz
          exact hresolve hz
        · cases o.content with
          | table entries => simp [Run.copyContent, OrderedMap.map]
          | _ => simp [Run.copyContent]
      rw [hcopy] at new
      refine .container new fits fun k z p hz hp => (part k z p hz hp).transfer fun x hx => hsame ?_
      refine hx.trans (fun u hu => ?_) fun u hu y hy => .step hu hy
      exact List.mem_singleton.mp hu ▸ hpart (List.mem_of_getElem? hz)
    | object alive reference =>
      cases old.symm.trans alive
      rw [reference] at container
      cases container

end Machine

-- ---------------------------------------------------------------------------
-- Places in containers
-- ---------------------------------------------------------------------------

/-- A place in a container, and the same place in the tree that the container is: what is there, and the container
and the tree with something else there. -/
structure Place (o : Object) (d : Datum) (k : Nat) (item : Value) (c : Datum) (value : Value → Content)
    (datum : Datum → Datum) : Prop where
  item : o.content.parts[k]? = some item
  part : d.parts[k]? = some c
  kind (u : Value) : o.content.sameKind (value u)
  valueParts (u : Value) : (value u).parts = o.content.parts.set k u
  datumParts (e : Datum) : (datum e).parts = d.parts.set k e
  fits (u : Value) (e : Datum) : Object.Fits ⟨o.cls, value u⟩ (datum e)

theorem place_list {cls : ClassId} {items : Array Value} {data : Array Datum} {k : Nat} (hsize : data.size = items.size)
    (hk : k < items.size) : Place ⟨cls, .list items⟩ (.list cls data) k (items.getD k .null)
      (data.getD k (.scalar .null)) (fun u => .list (items.setIfInBounds k u))
      fun e => .list cls (data.setIfInBounds k e) where
  item := by
    rw [Array.getD_eq_getD_getElem?, Array.getElem?_eq_getElem hk]
    simp [Content.parts, hk]
  part := by
    have hk : k < data.size := hsize.symm ▸ hk
    rw [Array.getD_eq_getD_getElem?, Array.getElem?_eq_getElem hk]
    simp [Datum.parts, hk]
  kind _ := rfl
  valueParts _ := Array.toList_setIfInBounds ..
  datumParts _ := Array.toList_setIfInBounds ..
  fits _ _ := .list (by simpa using hsize)

section Tables

variable {cls : ClassId} {entries : Table} {data : OrderedMap Key Datum} {key : Key}

theorem position?_fits (hkeys : data.keys = entries.keys) : data.position? key = entries.position? key := by
  rw [OrderedMap.position?_keys, OrderedMap.position?_keys, hkeys]

theorem fits_insert (hkeys : data.keys = entries.keys) (u : Value) (e : Datum) :
    Object.Fits ⟨cls, .table (entries.insert key u)⟩ (.table cls (data.insert key e)) := by
  refine .table (Array.toList_inj.mp ?_)
  rw [OrderedMap.keys_insert, OrderedMap.keys_insert, hkeys]

/-- A table has an entry where the tree has one. Without one, a new entry comes behind the others. -/
theorem place_table (cls : ClassId) (key : Key) (hkeys : data.keys = entries.keys) :
    entries.find? key = none ∧ data.find? key = none ∧
        (∀ u, (entries.insert key u).values.toList = entries.values.toList ++ [u]) ∧
        (∀ e, (data.insert key e).values.toList = data.values.toList ++ [e]) ∨ ∃ k item c, entries.find? key = some item ∧
      data.find? key = some c ∧ Place ⟨cls, .table entries⟩ (.table cls data) k item c
        (fun u => .table (entries.insert key u)) fun e => .table cls (data.insert key e) := by
  rw [OrderedMap.find?_values, OrderedMap.find?_values, position?_fits hkeys]
  cases hposition : entries.position? key with
  | none =>
    refine .inl ⟨rfl, rfl, fun u => ?_, fun e => ?_⟩
    · simp only [OrderedMap.values_insert, hposition]
    · simp only [OrderedMap.values_insert, position?_fits hkeys, hposition]
  | some k =>
    right
    have hk : k < entries.values.toList.length := by
      rw [OrderedMap.position?_keys] at hposition
      obtain ⟨hk, -⟩ := List.findIdx?_eq_some_iff_getElem.mp hposition
      simpa [OrderedMap.keys, OrderedMap.values] using hk
    have hk' : k < data.values.toList.length := by
      have hsize := congrArg Array.size hkeys
      simp only [OrderedMap.keys, Array.size_map] at hsize
      simpa [OrderedMap.values, hsize] using hk
    refine ⟨k, _, _, List.getElem?_eq_getElem hk, List.getElem?_eq_getElem hk', List.getElem?_eq_getElem hk,
      List.getElem?_eq_getElem hk', fun _ => rfl, fun u => ?_, fun e => ?_, fits_insert hkeys⟩
    · simp only [Content.parts, OrderedMap.values_insert, hposition]
    · simp only [Datum.parts, OrderedMap.values_insert, position?_fits hkeys, hposition]

end Tables

/-- The tree with another one in a place. -/
theorem Place.denotes {h : Heap} {id : ObjectId} {o : Object} {d c e : Datum} {k : Nat} {item u : Value}
    {value : Value → Content} {datum : Datum → Datum} (hplace : Place o d k item c value datum)
    (hself : h.object? id = some { o with content := value u }) (hu : h.Denotes u e)
    (hothers : ∀ (j : Nat) (v : Value) (p : Datum), j ≠ k → o.content.parts[j]? = some v → d.parts[j]? = some p →
      h.Denotes v p) : h.Denotes (.object id) (datum e) := by
  refine .container hself (hplace.fits u e) fun j v p hv hp => ?_
  change (value u).parts[j]? = some v at hv
  rw [hplace.valueParts, List.getElem?_set] at hv
  rw [hplace.datumParts, List.getElem?_set] at hp
  split at hv
  · next hj =>
    rw [if_pos hj] at hp
    have hk := (List.getElem?_eq_some_iff.mp hplace.item).1
    have hk' := (List.getElem?_eq_some_iff.mp hplace.part).1
    rw [if_pos hk] at hv
    rw [if_pos hk'] at hp
    cases hv
    cases hp
    exact hu
  · next hj =>
    rw [if_neg hj] at hp
    exact hothers j v p (Ne.symm hj) hv hp

-- ---------------------------------------------------------------------------
-- Ways down
-- ---------------------------------------------------------------------------

/-- The tree is a container. -/
def Datum.isContainer : Datum → Bool
  | .scalar _ | .object .. => false
  | _ => true

theorem Heap.Denotes.container_of {h : Heap} {v : Value} {d : Datum} (hd : h.Denotes v d) (hc : d.isContainer) :
    ∃ id o, v = .object id ∧ h.object? id = some o ∧ o.Fits d ∧ ∀ (k : Nat) (w : Value) (p : Datum),
      o.content.parts[k]? = some w → d.parts[k]? = some p → h.Denotes w p := by
  cases hd with
  | scalar plain => cases hc
  | container alive fits part => exact ⟨_, _, rfl, alive, fits, part⟩
  | object alive reference => cases hc

namespace Machine

/-- The way down a path is open. It starts at what the variable in the seat `s₀` holds now, the tree `d₀`, and has come
to the value `w` in the seat `s`. A heap on which everything is the same that is reached without that seat has another
tree there only; the rest of the variable and whatever is reached without it are as they were. -/
structure Opens (m₀ m : Machine) (s₀ : Seat) (v₀ : Value) (d₀ : Datum) (path : List PlaceStep) (s : Seat) (w : Value)
    (d : Datum) : Prop where
  classes : m.heap.classes = m₀.heap.classes
  intact : m.heap.Intact m.roots
  held : m.held? s₀ = some v₀
  leads : d₀.follow m₀.heap path = .ok d
  known : m.heap.Knows m.roots w
  denotes : m.heap.Denotes w d
  sole : d.isContainer → ¬m.Without s w
  keeps {h : Heap} {x : Value} : (∀ y, m.Without s y → Same m.heap h y) → m₀.Without s₀ x → s₀.holder? ≠ some x →
    Same m₀.heap h x
  outside {x : Value} : s₀.holder? = some x → m.Without s x
  whole {h : Heap} {d' : Datum} : (∀ y, m.Without s y → Same m.heap h y) → h.Denotes w d' →
    h.Denotes v₀ (d₀.update m₀.heap path d')

variable {m₀ m m' : Machine} {s₀ s : Seat} {v₀ w item own : Value} {d₀ d c : Datum} {path : List PlaceStep}
  {step : PlaceStep}

/-- What a variable holds has been taken. -/
theorem opens_root (h : m₀.Takes m s₀ [] item own) (hi : m₀.heap.Denotes item d₀)
    (hknown : m₀.heap.Knows m₀.roots item) (hcell : ∀ y, s₀.holder? = some y → y.isCell)
    (hholder : ∀ y, s₀.holder? = some y → ReachedFrom m₀.heap.links m₀.roots y) :
    m₀.Opens m s₀ own d₀ [] s₀ own d₀ where
  classes := h.classes
  intact := h.intact
  held := h.held
  leads := rfl
  known := .inr (h.reached hholder)
  denotes := h.denotes hi (by rwa [List.append_nil]) fun y hy hseat => by
    have hplain := hi.below_isCell hy
    rw [hcell y hseat] at hplain
    cases hplain
  sole hc := by
    obtain ⟨id, o, rfl, ho, hfits, -⟩ := hi.container_of hc
    exact h.sole rfl ho hfits.isContainer
  keeps hsame hx hne := same_trans (h.same (hx.knows []) hne) (hsame _ (h.without.mpr hx))
  outside hx := by
    cases s₀ with
    | inside holder k =>
      cases hx
      exact h.without.mpr (without_holder (hholder _ rfl))
    | _ => cases hx
  whole _ hd := hd

/-- A way down goes on into a place of the container that it has come to. -/
theorem Opens.place {id : ObjectId} {o : Object} {k : Nat} {extra : List Value} {value : Value → Content}
    {datum : Datum → Datum} (h : m₀.Opens m s₀ v₀ d₀ path s (.object id) d)
    (hplace : Place o d k item c value datum) (ho : m.heap.object? id = some o) (hd : d.isContainer)
    (hchild : d.child m₀.heap step = .ok c) (hreplace : ∀ e, d.replace m₀.heap step e = datum e)
    (hbeside : m.Beside m') (htakes : m.Takes m' (.inside (.object id) k) extra item own)
    (hself : m'.heap.object? id = some { o with content := value own }) :
    m₀.Opens m' s₀ v₀ d₀ (path ++ [step]) (.inside (.object id) k) own c := by
  obtain ⟨_, _, heq, ho', hfits, hpart⟩ := h.denotes.container_of hd
  cases heq
  cases ho.symm.trans ho'
  have hwreached : ReachedFrom m.heap.links m.roots (.object id) := h.known.resolve_left (by simp [Value.isScalar])
  have hparts : m.heap.parts (.object id) = o.content.parts := Heap.parts_object ho
  have hlinks : m.heap.links (.object id) = o.content.parts := by
    simp only [Heap.links, ho, Option.elim_some, Heap.children_container hfits.isContainer]
  have hitemMem : item ∈ m.heap.links (.object id) := hlinks ▸ List.mem_of_getElem? hplace.item
  have hback : m'.Without (.inside (.object id) k) (.object id) := htakes.without.mpr (without_holder hwreached)
  have hextra {x : Value} (hx : ReachedFrom m.heap.links m.roots x) : m.heap.Knows (m.roots ++ extra) x :=
    .inr (hx.trans (fun _ hw => .start (List.mem_append_left _ hw)) fun _ hu _ hw => .step hu hw)
  -- The container does not come up again in what is in it.
  have hbelow {v y : Value} (hv : v ∈ o.content.parts) (hy : ReachedFrom m.heap.parts [v] y) :
      Seat.holder? (.inside (.object id) k) ≠ some y := fun heq =>
    h.denotes.not_below v (hparts ▸ hv) (Option.some.inj heq ▸ hy)
  -- What is reached without the container is reached without the place in it.
  have hapart {x : Value} (hx : m.Without s x) : Same m.heap m'.heap x ∧ m'.Without (.inside (.object id) k) x := by
    have hne : Seat.holder? (.inside (.object id) k) ≠ some x := fun heq =>
      h.sole hd (Option.some.inj heq ▸ hx)
    exact ⟨htakes.same (hx.knows extra) hne, htakes.without.mpr (hx.inner (h.sole hd))⟩
  have hafter {h' : Heap} (hsame : ∀ y, m'.Without (.inside (.object id) k) y → Same m'.heap h' y) (x : Value)
      (hx : m.Without s x) : Same m.heap h' x := same_trans (hapart hx).1 (hsame x (hapart hx).2)
  have hitem : m.heap.Denotes item c := hpart k item c hplace.item hplace.part
  refine ⟨htakes.classes.trans h.classes, htakes.intact, ?_, (Datum.follow_ok h.leads).trans hchild, ?_, ?_, ?_,
    fun hsame => h.keeps (hafter hsame), fun hx => (hapart (h.outside hx)).2, fun {h' d'} hsame hd' => ?_⟩
  · cases s₀ with
    | slot j => exact (congrArg (·[j]?) hbeside.stack).trans h.held
    | global name => exact (congrArg (·.find? name) hbeside.globals).trans h.held
    | inside holder j =>
      have hlinks := links_of_same (hapart (h.outside rfl)).1 htakes.classes
      exact (congrArg (·[j]?) hlinks).trans h.held
  · exact .inr (htakes.reached fun y hy => Option.some.inj hy ▸ hwreached)
  · refine htakes.denotes hitem (hextra (.step hwreached hitemMem)) fun y hy => ?_
    exact hbelow (List.mem_of_getElem? hplace.item) hy
  · intro hc
    obtain ⟨i, p, rfl, hp, hpfits, -⟩ := hitem.container_of hc
    exact htakes.sole rfl hp hpfits.isContainer
  · rw [Datum.update_append h.leads hchild, hreplace]
    refine h.whole (hafter hsame) (hplace.denotes ((hsame _ hback : _ = _).trans hself) hd' fun j v p hj hv hp => ?_)
    refine (hpart j v p hv hp).transfer fun x hx => ?_
    have hvmem : v ∈ m.linksBut (.inside (.object id) k) (.object id) := by
      simp only [linksBut, if_true, hlinks]
      exact List.mem_eraseIdx_iff_getElem?.mpr ⟨j, hj, hv⟩
    have hvwithout : m.Without (.inside (.object id) k) v := .step (without_holder hwreached) hvmem
    have hxwithout := hvwithout.below hx fun y hy => hbelow (List.mem_of_getElem? hv) hy
    exact same_trans (htakes.same (hxwithout.knows extra) (hbelow (List.mem_of_getElem? hv) hx))
      (hsame x (htakes.without.mpr hxwithout))

theorem without_scalar {u x : Value} {k : Nat} (hu : u.isScalar) (hx : ReachedFrom m.heap.links m.roots x) :
    m.Without (.inside u k) x := by
  induction hx with
  | start mem => exact .start mem
  | @step v x _ mem ih =>
    refine .step ih ?_
    have hne : v ≠ u := by
      rintro rfl
      cases v <;> first | cases mem | cases hu
    simpa only [linksBut, if_neg hne] using mem

/-- A way down goes on to a scalar that is not in a place. -/
theorem Opens.scalar {u : Value} (h : m₀.Opens m s₀ v₀ d₀ path s w d) (hu : u.isScalar)
    (hchild : d.child m₀.heap step = .ok (.scalar u)) (hreplace : ∀ e, d.replace m₀.heap step e = d) :
    m₀.Opens m s₀ v₀ d₀ (path ++ [step]) (.inside u 0) u (.scalar u) := by
  have hall {h' : Heap} (hsame : ∀ y, m.Without (.inside u 0) y → Same m.heap h' y) (x : Value)
      (hx : ReachedFrom m.heap.links m.roots x) : Same m.heap h' x := hsame x (without_scalar hu hx)
  refine ⟨h.classes, h.intact, h.held, (Datum.follow_ok h.leads).trans hchild, .inl hu, .scalar hu, nofun,
    fun hsame => h.keeps fun y hy => hall hsame y hy.reached, fun hx => without_scalar hu (h.outside hx).reached,
    fun {h' d'} hsame hd' => ?_⟩
  rw [Datum.update_append h.leads hchild, hreplace]
  refine h.whole (fun y hy => hall hsame y hy.reached) (h.denotes.transfer fun x hx => ?_)
  rcases h.known.below hx with hscalar | hreached
  · cases x <;> trivial
  · exact hall hsame x hreached

/-- What was there before a way down is the same tree as before. -/
theorem Opens.unchanged (h : m₀.Opens m s₀ v₀ d₀ path s w d) : m.heap.Denotes v₀ d₀ := by
  have hself := h.whole (fun y _ => same_refl m.heap y) h.denotes
  rwa [Datum.update_follow h.leads] at hself

end Machine

theorem Heap.Intact.subset {h : Heap} {start start' : List Value} (hi : h.Intact start) (hsubset : start' ⊆ start) :
    h.Intact start' := by
  have hreached {x : Value} (hx : ReachedFrom h.links start' x) : ReachedFrom h.links start x :=
    hx.trans (fun _ hw => .start (hsubset hw)) fun _ hu _ hw => .step hu hw
  exact ⟨fun hx => hi.object (hreached hx), fun hx => hi.cell (hreached hx)⟩

theorem Heap.Intact.append {h : Heap} {roots extra : List Value} (hi : h.Intact roots)
    (hextra : ∀ x ∈ extra, h.Knows roots x) : h.Intact (roots ++ extra) := by
  have hknown {x : Value} (hx : ReachedFrom h.links (roots ++ extra) x) : h.Knows roots x := by
    induction hx with
    | start mem => exact (List.mem_append.mp mem).elim (fun mem => .inr (.start mem)) (hextra _)
    | step _ mem ih => exact ih.link mem
  refine ⟨fun hx => hi.knows_object (hknown hx), fun hx => ?_⟩
  obtain ⟨w, hw, hplain, -⟩ := hi.knows_cell (hknown hx)
  exact ⟨w, hw, hplain⟩

namespace Machine

variable {m₀ m : Machine} {s₀ s : Seat} {v₀ w : Value} {d₀ d c : Datum} {path : List PlaceStep} {step : PlaceStep}

/-- The way down goes on to the tree that the step leads to, or fails as the step does. -/
def Goes (m₀ m : Machine) (s₀ : Seat) (v₀ : Value) (d₀ : Datum) (path : List PlaceStep) (step : PlaceStep) :
    Except Failure Datum → EStateM.Result Failure Machine Value → Prop
  | .ok c, .ok own after => m.Beside after ∧ ∃ s, m₀.Opens after s₀ v₀ d₀ (path ++ [step]) s own c
  | .error e, .error e' after => e' = e ∧ after = m
  | _, _ => False

/-- A place is made ready for a change on the way down. -/
theorem Opens.own_place {id : ObjectId} {o : Object} {k : Nat} {extra : List Value} {item : Value}
    {value : Value → Content} {datum : Datum → Datum} (h : m₀.Opens m s₀ v₀ d₀ path s (.object id) d)
    (hplace : Place o d k item c value datum) (ho : m.heap.object? id = some o) (hd : d.isContainer)
    (hchild : d.child m₀.heap step = .ok c) (hreplace : ∀ e, d.replace m₀.heap step e = datum e)
    (hextra : ∀ x ∈ extra, m.heap.Knows m.roots x) :
    m₀.Goes m s₀ v₀ d₀ path step (.ok c) ((do
      let (held, own) ← Run.unshareSlot item extra
      Run.setContent id (value held)
      return own : Run Value) m) := by
  obtain ⟨_, _, heq, ho', hfits, hpart⟩ := h.denotes.container_of hd
  cases heq
  cases ho.symm.trans ho'
  have hchildren : m.heap.children o.content = o.content.parts := Heap.children_container hfits.isContainer
  have hknown : m.heap.Knows (m.roots ++ extra) (.object id) :=
    .inr ((h.known.resolve_left (by simp [Value.isScalar])).trans (fun _ hw => .start (List.mem_append_left _ hw))
      fun _ hu _ hw => .step hu hw)
  have hput (held : Value) : m.heap.children (value held) = (m.heap.children o.content).set k held := by
    have hcontainer : (value held).isContainer := (hplace.fits held c).isContainer
    rw [Heap.children_container hcontainer, hplace.valueParts, hchildren]
  obtain ⟨own, after, hrun, hbeside, htakes, hself⟩ := place_takes value (h.intact.append hextra) hknown ho
    (hchildren ▸ hplace.item) (hpart k item c hplace.item hplace.part).isCell hplace.kind hput
  rw [hrun]
  exact ⟨hbeside, _, h.place hplace ho hd hchild hreplace hbeside htakes hself⟩

end Machine

end Rill
