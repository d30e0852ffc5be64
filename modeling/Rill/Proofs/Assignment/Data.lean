-- SUMMARY: Values as trees of data, and what an assignment makes of a tree.
import Rill.Proofs.Comparison.Ending
import Rill.Proofs.Comparison.Keys
import Rill.Proofs.Ownership.Paths

/-!
# Data

Lists, tables, sets and arrays behave as values: a variable that holds one holds the tree of all that is in it.
What an assignment to an element has to do is said here on trees alone, where nothing can be shared. Objects of
other kinds are leaves, known by their identity and what they hold. A value with a cell among its elements, or one
that contains itself, is no tree.
-/

namespace Rill

-- ---------------------------------------------------------------------------
-- Trees
-- ---------------------------------------------------------------------------

/-- A value with everything that is in it. -/
inductive Datum
  | scalar (v : Value)
  | list (cls : ClassId) (items : Array Datum)
  | table (cls : ClassId) (entries : OrderedMap Key Datum)
  | set (cls : ClassId) (elements : KeySet)
  | array (cls : ClassId) (matrix : Matrix)
  | object (id : ObjectId) (o : Object)

/-- The trees in a tree. -/
def Datum.parts : Datum → List Datum
  | .list _ items => items.toList
  | .table _ entries => entries.values.toList
  | _ => []

/-- The container has the class, the kind and the size of the tree, and what the tree says apart from its parts. -/
inductive Object.Fits : Object → Datum → Prop
  | list {cls : ClassId} {items : Array Value} {data : Array Datum} (size : data.size = items.size) :
    Fits ⟨cls, .list items⟩ (.list cls data)
  | table {cls : ClassId} {entries : Table} {data : OrderedMap Key Datum} (keys : data.keys = entries.keys) :
    Fits ⟨cls, .table entries⟩ (.table cls data)
  | set (cls : ClassId) (elements : KeySet) : Fits ⟨cls, .set elements⟩ (.set cls elements)
  | array (cls : ClassId) (matrix : Matrix) : Fits ⟨cls, .array matrix⟩ (.array cls matrix)

namespace Heap

/-- The elements of a value. -/
def parts (h : Heap) : Value → List Value
  | .object id => (h.content? id).elim [] Content.parts
  | _ => []

/-- The value is the tree. -/
inductive Denotes (h : Heap) : Value → Datum → Prop
  | scalar {v : Value} (plain : v.isScalar) : Denotes h v (.scalar v)
  | container {id : ObjectId} {o : Object} {d : Datum} (alive : h.object? id = some o) (fits : o.Fits d)
      (part : ∀ (k : Nat) (v : Value) (part : Datum), o.content.parts[k]? = some v → d.parts[k]? = some part →
        Denotes h v part) : Denotes h (.object id) d
  | object {id : ObjectId} {o : Object} (alive : h.object? id = some o) (reference : o.content.isContainer = false) :
      Denotes h (.object id) (.object id o)

end Heap

section Trees

variable {h h' : Heap} {v w : Value} {d : Datum} {o : Object} {id : ObjectId}

theorem Object.Fits.length_parts (hfits : o.Fits d) : d.parts.length = o.content.parts.length := by
  cases hfits with
  | list size => simpa [Datum.parts, Content.parts] using size
  | table keys =>
    have hsize := congrArg Array.size keys
    simpa [Datum.parts, Content.parts, OrderedMap.keys, OrderedMap.values] using hsize
  | _ => rfl

theorem Object.Fits.isContainer (hfits : o.Fits d) : o.content.isContainer := by cases hfits <;> rfl

theorem Heap.parts_object (ho : h.object? id = some o) : h.parts (.object id) = o.content.parts := by
  simp only [parts, content?, ho, Option.map_some, Option.elim_some]

theorem Content.parts_reference {c : Content} (hc : c.isContainer = false) : c.parts = [] := by
  cases c <;> first | rfl | cases hc

theorem Heap.Denotes.isCell (hd : h.Denotes v d) : v.isCell = false := by
  cases hd with
  | scalar plain => cases v <;> first | rfl | cases plain
  | _ => rfl

/-- What holds of a value if it holds of its elements holds of trees. -/
theorem Heap.Denotes.induction_parts {P : Value → Prop} (hd : h.Denotes v d)
    (hP : ∀ v d, h.Denotes v d → (∀ w ∈ h.parts v, P w) → P v) : P v := by
  induction hd with
  | @scalar v plain =>
    refine hP _ _ (.scalar plain) fun w hw => ?_
    cases v <;> first | cases hw | cases plain
  | @container id o d alive fits part ih =>
    refine hP _ _ (.container alive fits part) fun w hw => ?_
    rw [parts_object alive] at hw
    obtain ⟨k, hk⟩ := List.mem_iff_getElem?.mp hw
    have hlt : k < d.parts.length := fits.length_parts ▸ (List.getElem?_eq_some_iff.mp hk).1
    exact ih k w _ hk (List.getElem?_eq_getElem hlt)
  | object alive reference =>
    refine hP _ _ (.object alive reference) fun w hw => ?_
    rw [parts_object alive, Content.parts_reference reference] at hw
    cases hw

/-- A tree does not come up again below one of its elements. -/
theorem Heap.Denotes.not_below (hd : h.Denotes v d) : ∀ w ∈ h.parts v, ¬ReachedFrom h.parts [w] v := by
  refine hd.induction_parts (P := fun v => ∀ w ∈ h.parts v, ¬ReachedFrom h.parts [w] v) fun v _ _ ih w hw hback => ?_
  -- The way back to `v` goes on to `w`, so `w` comes up below itself.
  have hround : ∀ u, ReachedFrom h.parts [w] u → u = w ∨ ∃ x ∈ h.parts w, ReachedFrom h.parts [x] u := by
    intro u hu
    induction hu with
    | start mem => exact .inl (List.mem_singleton.mp mem)
    | @step u y _ mem ih =>
      rcases ih with rfl | ⟨x, hx, hreached⟩
      · exact .inr ⟨y, mem, .start (List.mem_singleton.mpr rfl)⟩
      · exact .inr ⟨x, hx, .step hreached mem⟩
  rcases hround v hback with rfl | ⟨x, hx, hreached⟩
  · exact ih v hw v hw (.start (List.mem_singleton.mpr rfl))
  · exact ih w hw x hx (.step hreached hw)

/-- A value is the same tree on another heap if all that is in it is as it was. -/
theorem Heap.Denotes.transfer (hd : h.Denotes v d)
    (hsame : ∀ x, ReachedFrom h.parts [v] x → Machine.Same h h' x) : h'.Denotes v d := by
  have hstart (v : Value) : ReachedFrom h.parts [v] v := .start (List.mem_singleton.mpr rfl)
  induction hd with
  | scalar plain => exact .scalar plain
  | @container id o d alive fits part ih =>
    have hself : h'.object? id = h.object? id := hsame _ (hstart _)
    refine .container (hself.trans alive) fits fun k w p hk hp => ih k w p hk hp fun x hx => hsame x ?_
    refine hx.trans (fun u hu => ?_) fun u hu x hx => .step hu hx
    obtain rfl := List.mem_singleton.mp hu
    exact .step (hstart _) (by rw [parts_object alive]; exact List.mem_of_getElem? hk)
  | @object id o alive reference =>
    have hself : h'.object? id = h.object? id := hsame _ (hstart _)
    exact .object (hself.trans alive) reference

/-- A list is the tree of its items. -/
theorem Heap.denotes_list {cls : ClassId} {items : Array Value} {data : Array Datum}
    (ho : h.object? id = some ⟨cls, .list items⟩) (hitems : List.Forall₂ h.Denotes items.toList data.toList) :
    h.Denotes (.object id) (.list cls data) := by
  refine .container ho (.list (by simpa using hitems.length_eq.symm)) fun k w p hw hp => ?_
  obtain ⟨hk, rfl⟩ := List.getElem?_eq_some_iff.mp hw
  obtain ⟨hk', rfl⟩ := List.getElem?_eq_some_iff.mp hp
  exact hitems.get hk hk'

end Trees

-- ---------------------------------------------------------------------------
-- Assignments
-- ---------------------------------------------------------------------------

namespace Datum

variable (h : Heap)

/-- The class of a tree. -/
def cls : Datum → ClassId
  | .scalar v => h.classOf v
  | .list cls _ | .table cls _ | .set cls _ | .array cls _ => cls
  | .object _ o => o.cls

def typeName (d : Datum) : String := h.classes.name (d.cls h)

/-- The truth of a tree. -/
def isTrue : Datum → Bool
  | .scalar v => v.isTrue
  | _ => true

/-- The number that a tree is. -/
def number : Datum → Except Failure Float
  | .scalar v => h.numberOf v
  | d => .error (Fault.expectedType "Number" (d.typeName h))

-- ---------------------------------------------------------------------------
-- Steps
-- ---------------------------------------------------------------------------

/-- What a step leads to. -/
def child (d : Datum) (s : PlaceStep) : Except Failure Datum :=
  match d, s with
  | .scalar (.text s), .element indices => do
    let cs := s.toList
    return .scalar (.text (String.ofList ((cs.drop (← h.offsetOf indices cs.length)).take 1)))
  | .list _ items, .element indices => do
    return items.getD (← h.offsetOf indices items.size) (.scalar .null)
  | .table _ entries, .element indices => do
    let key ← h.keyOf indices
    match entries.find? key with
    | some d => return d
    | none => throw (Fault.keyNotFound key.display).failure
  | .set _ elements, .element indices => do return .scalar (.bool (elements.contains (← h.keyOf indices)))
  | .array _ matrix, .element indices => do
    return .scalar (.float (matrix.data.getD (← h.matrixOffset matrix indices) 0))
  | .table _ entries, .field name =>
    match entries.find? (.text name) with
    | some d => .ok d
    | none => .error (Fault.keyNotFound name)
  | d, .element _ => .error (Fault.notIndexable (d.typeName h))
  | d, .field name => .error (Fault.noMember (d.typeName h) name)

/-- The tree with another one where a step leads. -/
def replace (d : Datum) (s : PlaceStep) (c : Datum) : Datum :=
  match d, s with
  | .list cls items, .element indices =>
    match h.offsetOf indices items.size with
    | .ok k => .list cls (items.setIfInBounds k c)
    | .error _ => d
  | .table cls entries, .element indices =>
    match h.keyOf indices with
    | .ok key => .table cls (entries.insert key c)
    | .error _ => d
  | .table cls entries, .field name => .table cls (entries.insert (.text name) c)
  | d, _ => d

/-- The tree after an assignment to what a step leads to. A key that a table lacks is added behind the others; to
assign to an element of a set adds it or removes it; and an array has only numbers in it. -/
def put (d : Datum) (s : PlaceStep) (new : Datum) : Except Failure Datum :=
  match d, s with
  | .list cls items, .element indices => do
    return .list cls (items.setIfInBounds (← h.offsetOf indices items.size) new)
  | .table cls entries, .element indices => do return .table cls (entries.insert (← h.keyOf indices) new)
  | .set cls elements, .element indices => do
    let key ← h.keyOf indices
    return .set cls (if new.isTrue then elements.insert key else elements.erase key)
  | .array cls matrix, .element indices => do
    let offset ← h.matrixOffset matrix indices
    let x ← new.number h
    return .array cls { matrix with data := matrix.data.setIfInBounds offset x }
  | .scalar (.text _), .element _ => .error Fault.fixedString
  | d, .element _ => .error (Fault.notIndexable (d.typeName h))
  | d, .field name =>
    if (h.classes.accessor? (d.cls h) name).isSome then .error (Fault.readOnlyField name (d.typeName h))
    else
      match d with
      | .table cls entries => .ok (.table cls (entries.insert (.text name) new))
      | d => .error (Fault.fieldNotSettable name (d.typeName h))

-- ---------------------------------------------------------------------------
-- Paths
-- ---------------------------------------------------------------------------

/-- What a path leads to. -/
def follow (d : Datum) : List PlaceStep → Except Failure Datum
  | [] => .ok d
  | s :: path => do (← d.child h s).follow path

/-- The tree with another one where a path leads. -/
def update (d : Datum) (path : List PlaceStep) (c : Datum) : Datum :=
  match path with
  | [] => c
  | s :: path =>
    match d.child h s with
    | .ok e => d.replace h s (e.update path c)
    | .error _ => d

/-- The tree after an assignment to what a path with a last step leads to. -/
def assign (d : Datum) (path : List PlaceStep) (last : PlaceStep) (new : Datum) : Except Failure Datum := do
  let e ← d.follow h path
  return d.update h path (← e.put h last new)

variable {h} {d e c : Datum} {s : PlaceStep} {path : List PlaceStep}

theorem follow_append (d : Datum) (path : List PlaceStep) (s : PlaceStep) :
    d.follow h (path ++ [s]) = d.follow h path >>= fun e => e.child h s := by
  induction path generalizing d with
  | nil =>
    change (d.child h s >>= fun e => .ok e) = d.child h s
    cases d.child h s <;> rfl
  | cons t path ih =>
    change (d.child h t >>= fun e => e.follow h (path ++ [s])) = (d.child h t >>= fun e => e.follow h path) >>= _
    cases d.child h t with
    | error f => rfl
    | ok e => exact ih e

theorem follow_ok (hpath : d.follow h path = .ok e) : d.follow h (path ++ [s]) = e.child h s := by
  rw [follow_append, hpath]
  rfl

theorem update_append (hpath : d.follow h path = .ok e) (hchild : e.child h s = .ok c) (c' : Datum) :
    d.update h (path ++ [s]) c' = d.update h path (e.replace h s c') := by
  induction path generalizing d with
  | nil =>
    cases hpath
    simp only [List.nil_append, update, hchild]
  | cons t path ih =>
    simp only [follow, bind, Except.bind] at hpath
    cases hfirst : d.child h t with
    | error f =>
      rw [hfirst] at hpath
      cases hpath
    | ok e =>
      rw [hfirst] at hpath
      simp only [List.cons_append, update, hfirst, ih hpath]

/-- A tree in the place where it is already changes nothing. -/
theorem replace_child (hchild : d.child h s = .ok c) : d.replace h s c = d := by
  have hentry {entries : OrderedMap Key Datum} {key : Key} {e : Failure}
      (hc : (match entries.find? key with | some d => .ok d | none => .error e) = Except.ok c) :
      entries.insert key c = entries := by
    cases hfind : entries.find? key with
    | none =>
      rw [hfind] at hc
      cases hc
    | some c' =>
      rw [hfind] at hc
      cases hc
      exact OrderedMap.insert_find? hfind
  cases s with
  | element indices =>
    cases d with
    | list cls items =>
      simp only [child, bind, Except.bind, replace] at hchild ⊢
      cases hoffset : h.offsetOf indices items.size with
      | error f => rfl
      | ok k =>
        rw [hoffset] at hchild
        cases hchild
        have hself : items.setIfInBounds k (items.getD k (.scalar .null)) = items := by
          refine Array.ext (by simp) fun j hj hj' => ?_
          rw [Array.getElem_setIfInBounds hj']
          split
          · next hkj =>
            subst hkj
            rw [Array.getD_eq_getD_getElem?, Array.getElem?_eq_getElem hj', Option.getD_some]
          · rfl
        exact congrArg (Datum.list cls) hself
    | table cls entries =>
      simp only [child, bind, Except.bind, replace] at hchild ⊢
      cases hkey : h.keyOf indices with
      | error f => rfl
      | ok key =>
        rw [hkey] at hchild
        simp only [hentry hchild]
    | _ => rfl
  | field name =>
    cases d with
    | table cls entries => simp only [replace, hentry hchild]
    | _ => rfl

theorem update_follow (hpath : d.follow h path = .ok e) : d.update h path e = d := by
  induction path generalizing d with
  | nil =>
    cases hpath
    rfl
  | cons s path ih =>
    simp only [follow, bind, Except.bind] at hpath
    cases hchild : d.child h s with
    | error f =>
      rw [hchild] at hpath
      cases hpath
    | ok e =>
      rw [hchild] at hpath
      simp only [update, hchild, ih hpath, replace_child hchild]

theorem assign_ok {new : Datum} (hpath : d.follow h path = .ok e) :
    d.assign h path s new = (e.put h s new).map (d.update h path) := by
  unfold assign
  rw [hpath]
  change (e.put h s new >>= fun e' => .ok (d.update h path e')) = _
  cases e.put h s new <;> rfl

theorem assign_error {new : Datum} {f : Failure} (hpath : d.follow h path = .error f) :
    d.assign h path s new = .error f := by
  unfold assign
  rw [hpath]
  rfl

end Datum

end Rill
