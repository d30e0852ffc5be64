-- SUMMARY: Steps of a path on the machine do what they do on trees.
import Rill.Proofs.Assignment.Descent

/-!
# Elements and fields

On the way down a path the machine goes from an element or a field to the next one as the steps go in the tree, and
fails where they fail. At the end, what is assigned to an element or a field is put there in the tree. Two cases are
left out. Into a module no way is open: its members are shared by all that know the module. And a field that the class
computes or has as a member is in no place of the object.
-/

namespace Rill

-- ---------------------------------------------------------------------------
-- Indices
-- ---------------------------------------------------------------------------

/-- The values select the same as indices, each on its heap. -/
structure Heap.Selects (h h' : Heap) (x y : Value) : Prop where
  index : h'.indexOf y = h.indexOf x
  key : h'.key y = h.key x

section Indices

variable {h h' : Heap} {x y : Value} {xs ys : Array Value}

theorem Heap.typeName_scalar (hclasses : h'.classes = h.classes) (hx : x.isScalar) : h'.typeName x = h.typeName x := by
  cases x with
  | object _ | cell _ => cases hx
  | _ => simp only [typeName, classOf, resolve, hclasses]

theorem Heap.selects_scalar (hclasses : h'.classes = h.classes) (hx : x.isScalar) : h.Selects h' x x := by
  have htype := typeName_scalar hclasses hx
  cases x with
  | object _ | cell _ => cases hx
  | _ => exact ⟨by simp only [indexOf, resolve, htype], by simp only [key, resolve, htype]⟩

theorem Heap.selects_object {i j : ObjectId} (htype : h'.typeName (.object j) = h.typeName (.object i)) :
    h.Selects h' (.object i) (.object j) :=
  ⟨by simp only [indexOf, resolve, htype], by simp only [key, resolve, Value.key?, htype]⟩

variable (hxs : List.Forall₂ (h.Selects h') xs.toList ys.toList)
include hxs

theorem Heap.onlyIndex_selects :
    (∃ x y, onlyIndex xs = .ok x ∧ onlyIndex ys = .ok y ∧ h.Selects h' x y) ∨
      ∃ e, onlyIndex xs = .error e ∧ onlyIndex ys = .error e := by
  have hsize : ys.size = xs.size := by simpa using hxs.length_eq.symm
  unfold onlyIndex
  rw [hsize]
  generalize xs.toList = xs' at hxs
  generalize ys.toList = ys' at hxs
  cases hxs with
  | nil => exact .inr ⟨_, rfl, rfl⟩
  | cons hxy hrest =>
    cases hrest with
    | nil => exact .inl ⟨_, _, rfl, rfl, hxy⟩
    | cons => exact .inr ⟨_, rfl, rfl⟩

theorem Heap.offsetOf_selects (size : Nat) : h'.offsetOf ys size = h.offsetOf xs size := by
  unfold offsetOf
  rcases onlyIndex_selects hxs with ⟨x, y, hx, hy, hxy⟩ | ⟨e, hx, hy⟩
  · simp only [hx, hy, bind, Except.bind, hxy.index]
  · simp only [hx, hy, bind, Except.bind]

theorem Heap.keyOf_selects : h'.keyOf ys = h.keyOf xs := by
  unfold keyOf
  rcases onlyIndex_selects hxs with ⟨x, y, hx, hy, hxy⟩ | ⟨e, hx, hy⟩
  · simp only [hx, hy, bind, Except.bind, hxy.key]
  · simp only [hx, hy, bind, Except.bind]

theorem Heap.matrixOffset_selects (matrix : Matrix) : h'.matrixOffset matrix ys = h.matrixOffset matrix xs := by
  have hall : ys.toList.mapM h'.indexOf = xs.toList.mapM h.indexOf := by
    generalize xs.toList = xs' at hxs
    generalize ys.toList = ys' at hxs
    induction hxs with
    | nil => rfl
    | cons hxy _ ih => simp only [List.mapM_cons, hxy.index, ih]
  unfold matrixOffset
  rw [hall]

end Indices

/-- The steps go alike, each on its heap. -/
inductive PlaceStep.Alike (h h' : Heap) : PlaceStep → PlaceStep → Prop
  | element {xs ys : Array Value} (indices : List.Forall₂ (h.Selects h') xs.toList ys.toList) :
    Alike h h' (.element xs) (.element ys)
  | field (name : String) : Alike h h' (.field name) (.field name)

-- ---------------------------------------------------------------------------
-- Stored places
-- ---------------------------------------------------------------------------

namespace Datum

/-- The tree is a module. -/
def isModule : Datum → Bool
  | .object _ ⟨_, .space _⟩ => true
  | _ => false

/-- The tree is a class. -/
def isClass : Datum → Bool
  | .object _ ⟨_, .cls _⟩ => true
  | _ => false

/-- The step leads to what is stored in the tree, if it leads anywhere: not into a module, and to a field neither of a
class nor one that the class of the tree computes or has as a member. Entries of tables come first. -/
structure Stores (h : Heap) (d : Datum) (s : PlaceStep) : Prop where
  notModule : d.isModule = false
  field {name : String} : s = .field name → (∃ cls entries, d = .table cls entries) ∨
    d.isClass = false ∧ h.classes.accessor? (d.cls h) name = none ∧ h.classes.member? (d.cls h) name = none

/-- So it is for every step of a path, as far as it leads. -/
def StoresAlong (h : Heap) (d : Datum) (path : List PlaceStep) : Prop :=
  ∀ before step e, before ++ [step] <+: path → d.follow h before = .ok e → e.Stores h step

/-- An assignment to where the step leads is one to what is stored in the tree, if it is possible: not into a module,
and not by way of a function of the class. -/
structure Settles (h : Heap) (d : Datum) (s : PlaceStep) : Prop where
  notModule : d.isModule = false
  field {name : String} {accessor : Accessor} : s = .field name → h.classes.accessor? (d.cls h) name = some accessor →
    accessor.setter = none

end Datum

section Trees

variable {h h' : Heap} {v : Value} {d : Datum}

theorem Heap.Denotes.classOf (hd : h'.Denotes v d) : h'.classOf v = d.cls h := by
  cases hd with
  | scalar plain => cases v <;> first | rfl | cases plain
  | container alive fits =>
    simp only [Heap.classOf, resolve, alive, Option.elim_some]
    cases fits <;> rfl
  | object alive => simp only [Heap.classOf, resolve, alive, Option.elim_some, Datum.cls]

theorem Heap.Denotes.typeName (hd : h'.Denotes v d) (hclasses : h'.classes = h.classes) :
    h'.typeName v = d.typeName h := by
  rw [Heap.typeName, hd.classOf, hclasses, Datum.typeName]

/-- Trees that are the same select the same as indices. -/
theorem Heap.Denotes.selects {w : Value} (hv : h.Denotes v d) (hw : h'.Denotes w d) (hclasses : h'.classes = h.classes) :
    h.Selects h' v w := by
  have htype : h'.typeName w = h.typeName v := (hw.typeName hclasses).trans (hv.typeName rfl).symm
  cases hv with
  | scalar plain =>
    cases hw with
    | scalar => exact selects_scalar hclasses plain
    | container _ fits => cases fits
  | container _ fits =>
    have hcontainer : d.isContainer := by cases fits <;> rfl
    obtain ⟨j, _, rfl, -⟩ := hw.container_of hcontainer
    exact selects_object htype
  | object =>
    cases hw with
    | container _ fits => cases fits
    | object => exact selects_object htype

theorem Heap.Denotes.isTrue (hd : h.Denotes v d) : v.isTrue = d.isTrue := by
  cases hd with
  | scalar => rfl
  | container _ fits => cases fits <;> rfl
  | object => rfl

theorem Heap.Denotes.number (hd : h'.Denotes v d) (hclasses : h'.classes = h.classes) :
    h'.numberOf v = d.number h := by
  have htype := hd.typeName hclasses
  cases hd with
  | scalar plain =>
    cases v with
    | object _ | cell _ => cases plain
    | _ => simp only [numberOf, resolve, Datum.number, mistyped, typeName_scalar hclasses plain]
  | container _ fits => cases fits <;> simp only [numberOf, resolve, Datum.number, mistyped, htype]
  | object => simp only [numberOf, resolve, Datum.number, mistyped, htype]

end Trees

-- ---------------------------------------------------------------------------
-- Steps down
-- ---------------------------------------------------------------------------

namespace Machine

variable {m₀ m : Machine} {s₀ s : Seat} {v₀ w : Value} {d₀ d : Datum} {path : List PlaceStep} {step : PlaceStep}

/-- What is only read on the way down is a scalar, or nothing. -/
theorem Opens.read {read : Except Failure Value} (h : m₀.Opens m s₀ v₀ d₀ path s w d)
    (hchild : d.child m₀.heap step = read.map .scalar) (hscalar : ∀ u, read = .ok u → u.isScalar)
    (hreplace : ∀ e, d.replace m₀.heap step e = d) :
    m₀.Goes m s₀ v₀ d₀ path step (d.child m₀.heap step) ((liftM read : Run Value) m) := by
  cases read with
  | error e =>
    rw [hchild]
    exact ⟨rfl, rfl⟩
  | ok u =>
    rw [hchild]
    exact ⟨.refl m, _, h.scalar (hscalar u rfl) hchild hreplace⟩

/-- An entry of a table is made ready for a change on the way down. -/
theorem Opens.own_entry {id : ObjectId} {cls : ClassId} {entries : Table} {data : OrderedMap Key Datum} {key : Key}
    {fault : Fault} {extra : List Value} (h : m₀.Opens m s₀ v₀ d₀ path s (.object id) (.table cls data))
    (ho : m.heap.object? id = some ⟨cls, .table entries⟩) (hkeys : data.keys = entries.keys)
    (hchild : (Datum.table cls data).child m₀.heap step = (data.find? key).elim (.error fault.failure) .ok)
    (hreplace : ∀ e, (Datum.table cls data).replace m₀.heap step e = .table cls (data.insert key e))
    (hextra : ∀ x ∈ extra, m.heap.Knows m.roots x) :
    m₀.Goes m s₀ v₀ d₀ path step ((Datum.table cls data).child m₀.heap step)
      ((match entries.find? key with
        | some v => do
          let (held, own) ← Run.unshareSlot v extra
          Run.setContent id (.table (entries.insert key held))
          return own
        | none => Run.fail fault : Run Value) m) := by
  rcases place_table cls key hkeys with ⟨hnone, hnone', -⟩ | ⟨k, item, c, hitem, hc, hplace⟩
  · rw [hchild, hnone, hnone']
    exact ⟨rfl, rfl⟩
  · rw [hc] at hchild
    rw [hchild, hitem]
    exact h.own_place hplace ho rfl hchild hreplace hextra

/-- The way down goes on to an element. -/
theorem Opens.own_element {xs ys : Array Value} (h : m₀.Opens m s₀ v₀ d₀ path s w d)
    (hxs : List.Forall₂ (m₀.heap.Selects m.heap) xs.toList ys.toList) (hknown : ∀ y ∈ ys.toList, m.heap.Knows m.roots y)
    (hstores : d.Stores m₀.heap (.element xs)) :
    m₀.Goes m s₀ v₀ d₀ path (.element xs) (d.child m₀.heap (.element xs)) (Run.ownElement w ys m) := by
  have htype := h.denotes.typeName h.classes
  have hextra : ∀ x ∈ w :: ys.toList, m.heap.Knows m.roots x := fun x hx =>
    (List.mem_cons.mp hx).elim (fun heq => heq ▸ h.known) (hknown x)
  rw [Run.ownElement, Run.bind_heap]
  have hd := h.denotes
  cases hd with
  | scalar plain =>
    have hcontent : m.heap.contentOf w = none := by cases w <;> first | rfl | cases plain
    rw [hcontent]
    refine h.read ?_ ?_ fun _ => rfl
    · cases w with
      | object _ | cell _ => cases plain
      | text t =>
        simp only [Datum.child, Heap.element, Heap.resolve, Heap.offsetOf_selects hxs, bind, Except.bind]
        cases m₀.heap.offsetOf xs t.toList.length <;> rfl
      | _ => exact congrArg (fun name => Except.error (Fault.notIndexable name).failure) htype.symm
    · intro u hu
      cases w with
      | object _ | cell _ => cases plain
      | text t =>
        simp only [Heap.element, Heap.resolve, bind, Except.bind] at hu
        split at hu
        · cases hu
        · cases hu
          rfl
      | _ => cases hu
  | @container id o d alive fits part =>
    rw [Heap.contentOf_object rfl alive]
    cases fits with
    | @list cls items data size =>
      have hoffset := Heap.offsetOf_selects hxs items.size
      dsimp only
      simp only [Heap.resolve]
      rw [hoffset]
      cases hk : m₀.heap.offsetOf xs items.size with
      | error e =>
        have hchild : (Datum.list cls data).child m₀.heap (.element xs) = .error e := by
          simp only [Datum.child, size, hk, bind, Except.bind]
        rw [hchild]
        exact ⟨rfl, rfl⟩
      | ok k =>
        have hchild : (Datum.list cls data).child m₀.heap (.element xs) = .ok (data.getD k (.scalar .null)) := by
          simp only [Datum.child, size, hk, bind, Except.bind, pure, Except.pure]
        have hreplace (e : Datum) : (Datum.list cls data).replace m₀.heap (.element xs) e =
            .list cls (data.setIfInBounds k e) := by
          simp only [Datum.replace, size, hk]
        rw [hchild]
        exact h.own_place (place_list size (Heap.offsetOf_lt hk)) alive rfl hchild hreplace hextra
    | @table cls entries data keys =>
      have hkey := Heap.keyOf_selects hxs
      dsimp only
      simp only [Heap.resolve]
      rw [hkey]
      cases hk : m₀.heap.keyOf xs with
      | error e =>
        have hchild : (Datum.table cls data).child m₀.heap (.element xs) = .error e := by
          simp only [Datum.child, hk, bind, Except.bind]
        rw [hchild]
        exact ⟨rfl, rfl⟩
      | ok key =>
        refine h.own_entry alive keys ?_ (fun e => ?_) hextra
        · simp only [Datum.child, hk, bind, Except.bind]
          cases data.find? key <;> rfl
        · simp only [Datum.replace, hk]
    | set cls elements =>
      have helement : m.heap.element (.object id) ys = (do return .bool (elements.contains (← m.heap.keyOf ys))) := by
        simp only [Heap.element, Heap.resolve, Heap.content?, alive, Option.map_some]
      rw [helement, Heap.keyOf_selects hxs]
      refine h.read ?_ ?_ fun _ => rfl
      · simp only [Datum.child, bind, Except.bind]
        cases m₀.heap.keyOf xs <;> rfl
      · intro u hu
        simp only [bind, Except.bind] at hu
        split at hu
        · cases hu
        · cases hu
          rfl
    | array cls matrix =>
      have helement : m.heap.element (.object id) ys =
          (do return .float (matrix.data.getD (← m.heap.matrixOffset matrix ys) 0)) := by
        simp only [Heap.element, Heap.resolve, Heap.content?, alive, Option.map_some]
      rw [helement, Heap.matrixOffset_selects hxs]
      refine h.read ?_ ?_ fun _ => rfl
      · simp only [Datum.child, bind, Except.bind]
        cases m₀.heap.matrixOffset matrix xs <;> rfl
      · intro u hu
        simp only [bind, Except.bind] at hu
        split at hu
        · cases hu
        · cases hu
          rfl
  | @object id o alive reference =>
    rw [Heap.contentOf_object rfl alive]
    have hmodule := hstores.notModule
    have helement : m.heap.element (.object id) ys = .error (Fault.notIndexable (m.heap.typeName (.object id))) := by
      simp only [Heap.element, Heap.resolve, Heap.content?, alive, Option.map_some]
      obtain ⟨cls, content⟩ := o
      cases content with
      | list _ | table _ | set _ | array _ => cases reference
      | space _ => cases hmodule
      | _ => rfl
    obtain ⟨cls, content⟩ := o
    cases content with
    | list _ | table _ | set _ | array _ => cases reference
    | _ =>
      dsimp only
      rw [helement, htype]
      exact h.read rfl (fun _ hu => by cases hu) fun _ => rfl

/-- A field that neither the value nor its class has. -/
theorem ownField_none {name : String} (hcell : w.isCell = false)
    (haccessor : m.heap.classes.accessor? (m.heap.classOf w) name = none)
    (hmember : m.heap.classes.member? (m.heap.classOf w) name = none)
    (hcontent : ∀ c, m.heap.contentOf w = some c → match c with
      | .table _ | .cls _ | .space _ => False
      | _ => True) :
    Run.ownField w name m = .error (Fault.noMember (m.heap.typeName w) name) m := by
  have hresolve := Heap.resolve_of_isCell (h := m.heap) hcell
  have hfield : Run.field w name m = .error (Fault.noMember (m.heap.typeName w) name) m := by
    unfold Run.field
    simp only [Run.heap, bind, EStateM.bind, Run.get_run, pure, EStateM.pure, hresolve, haccessor]
    cases hc : m.heap.contentOf w with
    | none =>
      simp only [hmember]
      rfl
    | some c =>
      have hplain := hcontent c hc
      cases c with
      | table _ | cls _ | space _ => exact hplain.elim
      | _ =>
        simp only [hmember]
        rfl
  rw [Run.ownField, Run.bind_heap, hresolve]
  cases hc : m.heap.contentOf w with
  | none => exact hfield
  | some c =>
    have hplain := hcontent c hc
    cases c with
    | table _ | cls _ | space _ => exact hplain.elim
    | _ => exact hfield

/-- The way down goes on to a field. -/
theorem Opens.own_field {name : String} (h : m₀.Opens m s₀ v₀ d₀ path s w d)
    (hstores : d.Stores m₀.heap (.field name)) :
    m₀.Goes m s₀ v₀ d₀ path (.field name) (d.child m₀.heap (.field name)) (Run.ownField w name m) := by
  have hd := h.denotes
  have htype := hd.typeName h.classes
  by_cases htable : ∃ cls data, d = .table cls data
  · obtain ⟨cls, data, rfl⟩ := htable
    obtain ⟨id, o, rfl, ho, hfits, -⟩ := hd.container_of rfl
    cases hfits with
    | @table cls entries data keys =>
      rw [Run.ownField, Run.bind_heap, Heap.contentOf_object rfl ho]
      refine h.own_entry ho keys ?_ (fun e => rfl) fun x hx => List.mem_singleton.mp hx ▸ h.known
      simp only [Datum.child]
      cases data.find? (.text name) <;> rfl
  · obtain ⟨hclass, haccessor, hmember⟩ := (hstores.field rfl).resolve_left htable
    have hmodule := hstores.notModule
    have hchild : d.child m₀.heap (.field name) = .error (Fault.noMember (d.typeName m₀.heap) name) := by
      cases d with
      | table cls data => exact absurd ⟨cls, data, rfl⟩ htable
      | scalar v => cases v <;> rfl
      | _ => rfl
    rw [← hd.classOf, ← h.classes] at haccessor hmember
    rw [hchild, ownField_none hd.isCell haccessor hmember, htype]
    · exact ⟨rfl, rfl⟩
    · intro c hc
      cases hd with
      | scalar plain => cases w <;> first | cases hc | cases plain
      | container alive fits =>
        rw [Heap.contentOf_object rfl alive] at hc
        cases hc
        cases fits with
        | table => exact htable ⟨_, _, rfl⟩
        | _ => trivial
      | @object id o alive reference =>
        rw [Heap.contentOf_object rfl alive] at hc
        cases hc
        obtain ⟨cls, content⟩ := o
        cases content with
        | table _ => cases reference
        | cls _ => cases hclass
        | space _ => cases hmodule
        | _ => trivial

/-- The way down goes on as the step does in the tree. -/
theorem Opens.own_step {step' : PlaceStep} (h : m₀.Opens m s₀ v₀ d₀ path s w d) (halike : step.Alike m₀.heap m.heap step')
    (hknown : ∀ y ∈ step'.indices, m.heap.Knows m.roots y) (hstores : d.Stores m₀.heap step) :
    m₀.Goes m s₀ v₀ d₀ path step (d.child m₀.heap step) (Run.ownStep w step' m) := by
  cases halike with
  | element indices => exact h.own_element indices hknown hstores
  | field name => exact h.own_field hstores

end Machine

-- ---------------------------------------------------------------------------
-- Assignments at the end
-- ---------------------------------------------------------------------------

/-- Assigns to what a step leads to. -/
def Run.setStep (w : Value) (step : PlaceStep) (v : Value) : Run Unit :=
  match step with
  | .element indices => Run.setElement w indices v
  | .field name => Run.setField w name v

namespace Machine

variable {m₀ m now : Machine} {s₀ s : Seat} {v₀ w v : Value} {d₀ d new : Datum} {path : List PlaceStep}
  {step : PlaceStep}

/-- At the end of a way down the value in the seat becomes the tree that the assignment makes of it, and what is reached
without the seat stays the same; or the assignment fails, and nothing changes. -/
def Ends (m now : Machine) (s : Seat) (w : Value) : Except Failure Datum → EStateM.Result Failure Machine Unit → Prop
  | .ok d, .ok _ after => ∃ h, after = { now with heap := h } ∧ h.classes = m.heap.classes ∧
      (∀ y, m.Without s y → Same m.heap h y) ∧ h.Denotes w d
  | .error e, .error e' after => e' = e ∧ after = now
  | _, _ => False

/-- The value to be assigned is a tree, whatever happens to the value in the seat. -/
def Bears (m : Machine) (s : Seat) (v : Value) (new : Datum) : Prop :=
  ∀ h : Heap, (∀ y, m.Without s y → Same m.heap h y) → h.Denotes v new

/-- A container at the end of a way down gets another content. -/
theorem Opens.set_content {id : ObjectId} {o : Object} {c : Content} {d' : Datum}
    (h : m₀.Opens m s₀ v₀ d₀ path s (.object id) d) (hnow : now.heap = m.heap) (hd : d.isContainer)
    (ho : m.heap.object? id = some o) (hkind : o.content.sameKind c)
    (hdenotes : ∀ h' : Heap, (∀ y, m.Without s y → Same m.heap h' y) → h'.object? id = some { o with content := c } →
      (∀ (j : Nat) (u : Value) (p : Datum), o.content.parts[j]? = some u → d.parts[j]? = some p → h'.Denotes u p) →
      h'.Denotes (.object id) d') : m.Ends now s (.object id) (.ok d') (Run.setContent id c now) := by
  obtain ⟨_, _, heq, ho', hfits, hpart⟩ := h.denotes.container_of hd
  cases heq
  cases ho.symm.trans ho'
  have hself : (m.heap.setContent id c).object? id = some { o with content := c } := by
    rw [Heap.object?_setContent, if_pos rfl, ho, Option.map_some, if_pos hkind]
  have hother {x : Value} (hx : x ≠ .object id) : Same m.heap (m.heap.setContent id c) x := by
    cases x with
    | object i =>
      have hne : id ≠ i := fun heq => hx (heq ▸ rfl)
      exact (Heap.object?_setContent m.heap id i c).trans (if_neg hne)
    | cell c => exact rfl
    | _ => trivial
  have hsame (y : Value) (hy : m.Without s y) : Same m.heap (m.heap.setContent id c) y :=
    hother fun heq => h.sole hd (heq ▸ hy)
  refine ⟨m.heap.setContent id c, by rw [← hnow], rfl, hsame, hdenotes _ hsame hself fun j u p hu hp => ?_⟩
  refine (hpart j u p hu hp).transfer fun x hx => hother fun heq => ?_
  have hmem : u ∈ m.heap.parts (.object id) := by
    rw [Heap.parts_object ho]
    exact List.mem_of_getElem? hu
  exact h.denotes.not_below u hmem (heq ▸ hx)

theorem assign_plain {old : Value} (hold : old.isCell = false) : Run.assign old v = pure v := by
  cases old with
  | cell c => cases hold
  | _ => rfl

/-- A place in a container gets the value. -/
theorem Opens.set_place {id : ObjectId} {o : Object} {k : Nat} {item : Value} {c : Datum} {value : Value → Content}
    {datum : Datum → Datum} (h : m₀.Opens m s₀ v₀ d₀ path s (.object id) d) (hnow : now.heap = m.heap)
    (hplace : Place o d k item c value datum) (ho : m.heap.object? id = some o) (hd : d.isContainer)
    (hv : m.Bears s v new) :
    m.Ends now s (.object id) (.ok (datum new)) ((do
      let held ← Run.assign item v
      Run.setContent id (value held) : Run Unit) now) := by
  obtain ⟨_, _, heq, ho', -, hpart⟩ := h.denotes.container_of hd
  cases heq
  cases ho.symm.trans ho'
  rw [assign_plain (hpart k item c hplace.item hplace.part).isCell]
  exact h.set_content hnow hd ho (hplace.kind v) fun h' hsame hself hparts =>
    hplace.denotes hself (hv h' hsame) fun j u p _ => hparts j u p

/-- An entry of a table gets the value; without such an entry it comes behind the others. -/
theorem Opens.set_entry {id : ObjectId} {cls : ClassId} {entries : Table} {data : OrderedMap Key Datum} {key : Key}
    (h : m₀.Opens m s₀ v₀ d₀ path s (.object id) (.table cls data)) (hnow : now.heap = m.heap)
    (ho : m.heap.object? id = some ⟨cls, .table entries⟩) (hkeys : data.keys = entries.keys) (hv : m.Bears s v new) :
    m.Ends now s (.object id) (.ok (.table cls (data.insert key new))) (Run.assignEntry id entries key v now) := by
  rcases place_table cls key hkeys with
    ⟨hnone, -, hvalues, hdata⟩ | ⟨k, item, c, hitem, -, hplace⟩
  · have hrun : Run.assignEntry id entries key v = Run.setContent id (.table (entries.insert key v)) := by
      rw [Run.assignEntry, hnone]
      rfl
    rw [hrun]
    refine h.set_content hnow rfl ho rfl fun h' hsame hself hparts => ?_
    refine .container hself (fits_insert hkeys v new) fun j u p hu hp => ?_
    have hfits : Object.Fits ⟨cls, .table entries⟩ (.table cls data) := .table hkeys
    have hlength := hfits.length_parts
    simp only [Content.parts, Datum.parts] at hparts hlength
    change (entries.insert key v).values.toList[j]? = some u at hu
    change (data.insert key new).values.toList[j]? = some p at hp
    rw [hvalues, List.getElem?_append] at hu
    rw [hdata, List.getElem?_append, hlength] at hp
    split at hu
    · next hj =>
      rw [if_pos hj] at hp
      exact hparts j u p hu hp
    · next hj =>
      rw [if_neg hj] at hp
      rw [List.mem_singleton.mp (List.mem_of_getElem? hu), List.mem_singleton.mp (List.mem_of_getElem? hp)]
      exact hv h' hsame
  · have hrun : Run.assignEntry id entries key v = (do
        let held ← Run.assign item v
        Run.setContent id (.table (entries.insert key held))) := by
      rw [Run.assignEntry, hitem]
      rfl
    rw [hrun]
    exact h.set_place hnow hplace ho rfl hv

/-- What is assigned to an element at the end of a way down is put there in the tree. -/
theorem Opens.set_element {xs ys : Array Value} (h : m₀.Opens m s₀ v₀ d₀ path s w d) (hnow : now.heap = m.heap)
    (hxs : List.Forall₂ (m₀.heap.Selects m.heap) xs.toList ys.toList) (hsettles : d.Settles m₀.heap (.element xs))
    (hv : m.Bears s v new) :
    m.Ends now s w (d.put m₀.heap (.element xs) new) (Run.setElement w ys v now) := by
  have htype := h.denotes.typeName h.classes
  have hnew : m.heap.Denotes v new := hv m.heap fun y _ => same_refl m.heap y
  have hresolve := Heap.resolve_of_isCell (h := m.heap) hnew.isCell
  rw [Run.setElement, Run.bind_heap, hnow, hresolve]
  have hd := h.denotes
  cases hd with
  | scalar plain =>
    cases w with
    | object _ | cell _ => cases plain
    | text t => exact ⟨rfl, rfl⟩
    | _ => exact ⟨congrArg (fun name => (Fault.notIndexable name).failure) htype, rfl⟩
  | @container id o d alive fits part =>
    have hcontent : m.heap.content? id = some o.content := by rw [Heap.content?, alive, Option.map_some]
    simp only [Heap.resolve, hcontent]
    cases fits with
    | @list cls items data size =>
      dsimp only
      rw [Heap.offsetOf_selects hxs]
      simp only [Datum.put, size]
      cases hk : m₀.heap.offsetOf xs items.size with
      | error e => exact ⟨rfl, rfl⟩
      | ok k => exact h.set_place hnow (place_list size (Heap.offsetOf_lt hk)) alive rfl hv
    | @table cls entries data keys =>
      dsimp only
      rw [Heap.keyOf_selects hxs]
      simp only [Datum.put]
      cases hk : m₀.heap.keyOf xs with
      | error e => exact ⟨rfl, rfl⟩
      | ok key => exact h.set_entry hnow alive keys hv
    | set cls elements =>
      dsimp only
      rw [Heap.keyOf_selects hxs, hnew.isTrue]
      simp only [Datum.put]
      cases hk : m₀.heap.keyOf xs with
      | error e => exact ⟨rfl, rfl⟩
      | ok key =>
        exact h.set_content hnow rfl alive rfl fun h' _ hself _ => .container hself (.set ..) fun k u p hu => by cases hu
    | array cls matrix =>
      dsimp only
      rw [Heap.matrixOffset_selects hxs, hnew.number h.classes]
      simp only [Datum.put]
      cases hk : m₀.heap.matrixOffset matrix xs with
      | error e => exact ⟨rfl, rfl⟩
      | ok offset =>
        cases hx : new.number m₀.heap with
        | error e => exact ⟨rfl, rfl⟩
        | ok x =>
          exact h.set_content hnow rfl alive rfl fun h' _ hself _ =>
            .container hself (.array ..) fun k u p hu => by cases hu
  | @object id o alive reference =>
    have hcontent : m.heap.content? id = some o.content := by rw [Heap.content?, alive, Option.map_some]
    have hmodule := hsettles.notModule
    simp only [Heap.resolve, hcontent, htype]
    obtain ⟨cls, content⟩ := o
    cases content with
    | list _ | table _ | set _ | array _ => cases reference
    | space _ => cases hmodule
    | _ => exact ⟨rfl, rfl⟩

/-- What is assigned to a field at the end of a way down is put there in the tree. -/
theorem Opens.set_field {name : String} (h : m₀.Opens m s₀ v₀ d₀ path s w d) (hnow : now.heap = m.heap)
    (hsettles : d.Settles m₀.heap (.field name)) (hv : m.Bears s v new) :
    m.Ends now s w (d.put m₀.heap (.field name) new) (Run.setField w name v now) := by
  have hd := h.denotes
  have htype := hd.typeName h.classes
  have hnew : m.heap.Denotes v new := hv m.heap fun y _ => same_refl m.heap y
  have hresolve := Heap.resolve_of_isCell (h := m.heap) hnew.isCell
  have hresolve' := Heap.resolve_of_isCell (h := m.heap) hd.isCell
  have haccessor : m.heap.classes.accessor? (m.heap.classOf w) name = m₀.heap.classes.accessor? (d.cls m₀.heap) name := by
    rw [hd.classOf, h.classes]
  rw [Run.setField, Run.bind_heap, hnow, hresolve, hresolve', haccessor]
  cases hfound : m₀.heap.classes.accessor? (d.cls m₀.heap) name with
  | some accessor =>
    have hput : d.put m₀.heap (.field name) new = .error (Fault.readOnlyField name (d.typeName m₀.heap)) := by
      cases d with
      | scalar v => cases v <;> simp only [Datum.put, hfound, Option.isSome_some, if_true]
      | _ => simp only [Datum.put, hfound, Option.isSome_some, if_true]
    rw [hput]
    simp only [hsettles.field rfl hfound]
    exact ⟨congrArg (fun type => (Fault.readOnlyField name type).failure) htype, rfl⟩
  | none =>
    have hfails {d : Datum} (hnone : m₀.heap.classes.accessor? (d.cls m₀.heap) name = none)
        (htable : ∀ cls data, d ≠ .table cls data) :
        d.put m₀.heap (.field name) new = .error (Fault.fieldNotSettable name (d.typeName m₀.heap)) := by
      cases d with
      | scalar v => cases v <;> simp only [Datum.put, hnone, Option.isSome_none, Bool.false_eq_true, if_false]
      | table cls data => exact absurd rfl (htable cls data)
      | _ => simp only [Datum.put, hnone, Option.isSome_none, Bool.false_eq_true, if_false]
    have hfault : (Fault.fieldNotSettable name (m.heap.classes.name (m.heap.classOf w))).failure =
        (Fault.fieldNotSettable name (d.typeName m₀.heap)).failure :=
      congrArg (fun type => (Fault.fieldNotSettable name type).failure) htype
    dsimp only
    cases hd with
    | scalar plain =>
      have hcontent : m.heap.contentOf w = none := by cases w <;> first | rfl | cases plain
      rw [hfails hfound nofun, hcontent]
      exact ⟨hfault, rfl⟩
    | @container id o d alive fits part =>
      rw [Heap.contentOf_object rfl alive]
      cases fits with
      | @table cls entries data keys =>
        simp only [Datum.put, hfound, Option.isSome_none, Bool.false_eq_true, if_false]
        exact h.set_entry hnow alive keys hv
      | _ =>
        rw [hfails hfound nofun]
        exact ⟨hfault, rfl⟩
    | @object id o alive reference =>
      have hmodule := hsettles.notModule
      rw [hfails hfound nofun, Heap.contentOf_object rfl alive]
      obtain ⟨cls, content⟩ := o
      cases content with
      | table _ => cases reference
      | space _ => cases hmodule
      | _ => exact ⟨hfault, rfl⟩

/-- The assignment at the end of a way down is the one in the tree. -/
theorem Opens.set_step {step' : PlaceStep} (h : m₀.Opens m s₀ v₀ d₀ path s w d) (hnow : now.heap = m.heap)
    (halike : step.Alike m₀.heap m.heap step') (hsettles : d.Settles m₀.heap step) (hv : m.Bears s v new) :
    m.Ends now s w (d.put m₀.heap step new) (Run.setStep w step' v now) := by
  cases halike with
  | element indices => exact h.set_element hnow indices hsettles hv
  | field name => exact h.set_field hnow hsettles hv

end Machine

end Rill
