-- SUMMARY: Values of two heaps that reading does not tell apart.
import Mathlib.Data.List.Forall2
import Mathlib.Logic.Relation
import Rill.Machine.Access
import Rill.Proofs.Collection.Reclamation

/-!
# Likeness

A relation between the values of two heaps is a simulation if related values are the same scalar, or objects
of one class with related contents. Elements that are read from related containers are related again, and
what cannot be read fails alike. Identities do not matter, so a copy is like what it was made from.
-/

namespace Rill

/-- The value refers to nothing. -/
def Value.isScalar : Value → Bool
  | .object _ | .cell _ => false
  | _ => true

-- ---------------------------------------------------------------------------
-- Related values
-- ---------------------------------------------------------------------------

section Relations

variable (R : Value → Value → Prop)

/-- The entries have the same keys in the same order, and related values. -/
def OrderedMap.Alike {κ : Type} (xs ys : OrderedMap κ Value) : Prop :=
  List.Forall₂ (fun x y => y.1 = x.1 ∧ R x.2 y.2) xs.entries.toList ys.entries.toList

/-- Contents of one kind with related values in the same places; or the same content, of values that are
related to themselves. -/
inductive Content.Alike (h : Heap) : Content → Content → Prop
  | list {xs ys : Array Value} (items : List.Forall₂ R xs.toList ys.toList) : Alike h (.list xs) (.list ys)
  | table {xs ys : Table} (entries : xs.Alike R ys) : Alike h (.table xs) (.table ys)
  | space {s : Space} {ys : OrderedMap String Value} (members : s.members.Alike R ys) :
    Alike h (.space s) (.space { s with members := ys })
  | same {c : Content} (children : ∀ v ∈ h.children c, R v v) : Alike h c c

/-- The same scalar, or objects of one class whose contents are alike. -/
inductive Heap.Agree (h h' : Heap) : Value → Value → Prop
  | scalar {v : Value} (plain : v.isScalar) : Agree h h' v v
  | object {i j : ObjectId} {o p : Object} (left : h.object? i = some o) (right : h'.object? j = some p)
      (cls : p.cls = o.cls) (content : o.content.Alike R h p.content) : Agree h h' (.object i) (.object j)

/-- Related values agree, and so does what they hold. -/
structure Heap.Simulates (h h' : Heap) : Prop where
  classes : h'.classes = h.classes
  scalar {v : Value} : v.isScalar → R v v
  cell {v : Value} {c : CellId} : R v (.cell c) → ∃ w, h'.cell? c = some w ∧ w.isCell = false
  resolve {v w : Value} : R v w → R (h.resolve v) (h'.resolve w)
  agree {v w : Value} : R v w → h.Agree R h' (h.resolve v) (h'.resolve w)

/-- Two computations give related results, or fail alike. -/
def Matching {α β : Type} (S : α → β → Prop) : Except Failure α → Except Failure β → Prop
  | .ok a, .ok b => S a b
  | .error e, .error e' => e' = e
  | _, _ => False

end Relations

section Contents

variable {R : Value → Value → Prop} {h h' : Heap}

theorem Content.Alike.of_list {xs : Array Value} {c : Content} (halike : (Content.list xs).Alike R h c) :
    ∃ ys, c = .list ys ∧ List.Forall₂ R xs.toList ys.toList := by
  cases halike with
  | list items => exact ⟨_, rfl, items⟩
  | same children => exact ⟨xs, rfl, List.forall₂_same.mpr children⟩

theorem OrderedMap.alike_self {κ : Type} {xs : OrderedMap κ Value} (h : ∀ v ∈ xs.values.toList, R v v) :
    xs.Alike R xs := by
  refine List.forall₂_same.mpr fun x hx => ⟨rfl, h x.2 ?_⟩
  rw [OrderedMap.values, Array.toList_map]
  exact List.mem_map_of_mem hx

theorem Content.Alike.of_table {xs : Table} {c : Content} (halike : (Content.table xs).Alike R h c) :
    ∃ ys, c = .table ys ∧ xs.Alike R ys := by
  cases halike with
  | table entries => exact ⟨_, rfl, entries⟩
  | same children => exact ⟨xs, rfl, OrderedMap.alike_self children⟩

theorem Content.Alike.of_space {s : Space} {c : Content} (halike : (Content.space s).Alike R h c) :
    ∃ ys, c = .space { s with members := ys } ∧ s.members.Alike R ys := by
  cases halike with
  | space members => exact ⟨_, rfl, members⟩
  | same children => exact ⟨s.members, rfl, OrderedMap.alike_self children⟩

/-- A key that one of the maps has is one of the other map, too. -/
theorem OrderedMap.Alike.find? {κ : Type} [DecidableEq κ] {xs ys : OrderedMap κ Value} (halike : xs.Alike R ys)
    (key : κ) : Option.Rel R (xs.find? key) (ys.find? key) := by
  obtain ⟨⟨xs⟩⟩ := xs
  obtain ⟨⟨ys⟩⟩ := ys
  simp only [OrderedMap.find?, List.find?_toArray]
  change List.Forall₂ _ xs ys at halike
  induction halike with
  | nil => exact .none
  | @cons x y xs ys hxy _ ih =>
    rw [List.find?_cons, List.find?_cons, hxy.1]
    split
    · exact .some hxy.2
    · exact ih

theorem getD_alike {xs ys : Array Value} (halike : List.Forall₂ R xs.toList ys.toList) {v : Value} (hv : R v v)
    (k : Nat) : R (xs.getD k v) (ys.getD k v) := by
  obtain ⟨xs⟩ := xs
  obtain ⟨ys⟩ := ys
  simp only [Array.getD_eq_getD_getElem?, List.getElem?_toArray]
  change List.Forall₂ R xs ys at halike
  induction halike generalizing k with
  | nil => exact hv
  | cons hxy _ ih =>
    cases k with
    | zero => exact hxy
    | succ k => exact ih k

end Contents

-- ---------------------------------------------------------------------------
-- Reading
-- ---------------------------------------------------------------------------

namespace Matching

variable {α β γ δ : Type} {S : α → β → Prop} {T : γ → δ → Prop} {x : Except Failure α} {y : Except Failure β}

protected theorem refl {S : α → α → Prop} (h : ∀ a, x = .ok a → S a a) : Matching S x x := by
  cases x with
  | ok a => exact h a rfl
  | error e => exact rfl

theorem of_eq {x y : Except Failure α} (h : y = x) : Matching (fun a b => b = a) x y :=
  h ▸ .refl fun _ _ => rfl

theorem bind {f : α → Except Failure γ} {g : β → Except Failure δ} (h : Matching S x y)
    (hfg : ∀ a b, S a b → Matching T (f a) (g b)) : Matching T (x >>= f) (y >>= g) := by
  cases x with
  | ok a =>
    cases y with
    | ok b => exact hfg a b h
    | error e => exact h.elim
  | error e =>
    cases y with
    | ok b => exact h.elim
    | error e' => exact h

theorem of_ok {a : α} (h : Matching S (.ok a) y) : ∃ b, y = .ok b ∧ S a b := by
  cases y with
  | ok b => exact ⟨b, rfl, h⟩
  | error e => exact h.elim

theorem of_error {e : Failure} (h : Matching S (.error e) y) : y = .error e := by
  cases y with
  | ok b => exact h.elim
  | error e' => exact congrArg _ h

end Matching

namespace Heap.Simulates

variable {R : Value → Value → Prop} {h h' : Heap} (hS : h.Simulates R h') {v w : Value}
include hS

/-- Related values are the same scalar, or alike objects. -/
theorem cases (hvw : R v w) : (∃ u, u.isScalar ∧ h.resolve v = u ∧ h'.resolve w = u) ∨
    ∃ i j o p, h.resolve v = .object i ∧ h'.resolve w = .object j ∧ h.object? i = some o ∧
      h'.object? j = some p ∧ p.cls = o.cls ∧ o.content.Alike R h p.content := by
  have hagree := hS.agree hvw
  generalize h.resolve v = v' at hagree
  generalize h'.resolve w = w' at hagree
  cases hagree with
  | scalar plain => exact .inl ⟨_, plain, rfl, rfl⟩
  | object left right cls content => exact .inr ⟨_, _, _, _, rfl, rfl, left, right, cls, content⟩

/-- What is behind related values is alike. -/
theorem contentOf (hvw : R v w) : Option.Rel (Content.Alike R h) (h.contentOf v) (h'.contentOf w) := by
  unfold Heap.contentOf
  rcases hS.cases hvw with ⟨u, hu, hv, hw⟩ | ⟨i, j, o, p, hv, hw, ho, hp, -, halike⟩
  · rw [hv, hw]
    cases u with
    | object _ => cases hu
    | _ => exact .none
  · rw [hv, hw]
    simp only [content?, ho, hp, Option.map_some]
    exact .some halike

theorem classOf (hvw : R v w) : h'.classOf w = h.classOf v := by
  unfold Heap.classOf
  rcases hS.cases hvw with ⟨u, hu, hv, hw⟩ | ⟨i, j, o, p, hv, hw, ho, hp, hcls, -⟩
  · rw [hv, hw]
    cases u <;> first | rfl | cases hu
  · simp only [hv, hw, ho, hp, Option.elim, hcls]

theorem typeName (hvw : R v w) : h'.typeName w = h.typeName v := by
  rw [Heap.typeName, Heap.typeName, hS.classes, hS.classOf hvw]

theorem mistyped (expected : String) (hvw : R v w) : h'.mistyped expected w = h.mistyped expected v := by
  rw [Heap.mistyped, Heap.mistyped, hS.typeName hvw]

theorem indexOf (hvw : R v w) : h'.indexOf w = h.indexOf v := by
  have htype := hS.typeName (hS.resolve hvw)
  unfold Heap.indexOf
  rcases hS.cases hvw with ⟨u, hu, hv, hw⟩ | ⟨i, j, o, p, hv, hw, -⟩
  · rw [hv, hw] at htype ⊢
    cases u <;> simp_all
  · rw [hv, hw] at htype ⊢
    simp only [htype]

theorem textOf (hvw : R v w) : h'.textOf w = h.textOf v := by
  have htype := hS.mistyped "String" (hS.resolve hvw)
  unfold Heap.textOf
  rcases hS.cases hvw with ⟨u, hu, hv, hw⟩ | ⟨i, j, o, p, hv, hw, -⟩
  · rw [hv, hw] at htype ⊢
    cases u <;> simp_all
  · rw [hv, hw] at htype ⊢
    simp only [htype]

theorem key (hvw : R v w) : h'.key w = h.key v := by
  have htype := hS.typeName hvw
  unfold Heap.key
  rcases hS.cases hvw with ⟨u, hu, hv, hw⟩ | ⟨i, j, o, p, hv, hw, -⟩
  · rw [hv, hw, htype]
  · rw [hv, hw]
    simp only [Value.key?, htype]

omit hS in
theorem onlyIndex {xs ys : Array Value} (hxys : List.Forall₂ R xs.toList ys.toList) :
    Matching R (Heap.onlyIndex xs) (Heap.onlyIndex ys) := by
  obtain ⟨xs⟩ := xs
  obtain ⟨ys⟩ := ys
  have hsize : ys.length = xs.length := hxys.length_eq.symm
  simp only [Heap.onlyIndex, List.size_toArray, hsize]
  change List.Forall₂ R xs ys at hxys
  cases hxys with
  | nil => exact rfl
  | cons hxy hrest =>
    cases hrest with
    | nil => exact hxy
    | cons => exact rfl

variable {xs ys : Array Value} (hxys : List.Forall₂ R xs.toList ys.toList)
include hxys

theorem offsetOf (size : Nat) : Matching (fun a b => b = a) (h.offsetOf xs size) (h'.offsetOf ys size) :=
  (onlyIndex hxys).bind fun _ _ hab => (Matching.of_eq (hS.indexOf hab)).bind fun _ _ hnk =>
    .of_eq (congrArg (resolveIndex · size) hnk)

theorem keyOf : Matching (fun a b => b = a) (h.keyOf xs) (h'.keyOf ys) :=
  (onlyIndex hxys).bind fun _ _ hab => .of_eq (hS.key hab)

theorem memberOf : Matching (fun a b => b = a) (h.memberOf xs) (h'.memberOf ys) :=
  (onlyIndex hxys).bind fun _ _ hab => .of_eq (hS.textOf hab)

theorem matrixOffset (m : Matrix) :
    Matching (fun a b => b = a) (h.matrixOffset m xs) (h'.matrixOffset m ys) := by
  have hindices : ys.toList.mapM h'.indexOf = xs.toList.mapM h.indexOf := by
    generalize xs.toList = xs at hxys
    generalize ys.toList = ys at hxys
    induction hxys with
    | nil => rfl
    | cons hxy _ ih => rw [List.mapM_cons, List.mapM_cons, hS.indexOf hxy, ih]
  exact .of_eq (by rw [Heap.matrixOffset, Heap.matrixOffset, hindices])

omit hxys in
theorem member {s : Space} {members : OrderedMap String Value} (halike : s.members.Alike R members)
    (name : String) : Matching R (h.member s name) (h'.member { s with members := members } name) := by
  have hfind := halike.find? name
  unfold Heap.member
  simp only
  generalize s.members.find? name = x at hfind
  generalize members.find? name = y at hfind
  cases hfind with
  | none => exact rfl
  | some hvw => exact hS.resolve hvw

/-- Elements of related values at related indices are related. -/
theorem element (hvw : R v w) : Matching R (h.element v xs) (h'.element w ys) := by
  have htype := hS.typeName hvw
  unfold Heap.element
  rcases hS.cases hvw with ⟨u, hu, hv, hw⟩ | ⟨i, j, o, p, hv, hw, ho, hp, hcls, halike⟩
  · rw [hv, hw]
    have hself := hS.typeName (hS.scalar hu)
    cases u with
    | object _ | cell _ => cases hu
    | text s => exact (hS.offsetOf hxys _).bind fun a b hab => hab ▸ hS.scalar rfl
    | _ => exact congrArg (fun name => (Fault.notIndexable name).failure) hself
  · rw [hv, hw]
    simp only [content?, ho, hp, Option.map_some]
    generalize o.content = c at halike
    generalize p.content = d at halike
    cases c with
    | list items =>
      obtain ⟨items', rfl, hitems⟩ := halike.of_list
      have hsize : items'.size = items.size := by simpa using hitems.length_eq.symm
      simp only [hsize]
      refine (hS.offsetOf hxys _).bind fun _ offset hoffset => ?_
      subst hoffset
      exact hS.resolve (getD_alike hitems (hS.scalar rfl) offset)
    | table entries =>
      obtain ⟨entries', rfl, hentries⟩ := halike.of_table
      refine (hS.keyOf hxys).bind fun _ key hkey => ?_
      subst hkey
      have hfind := hentries.find? key
      generalize entries.find? key = x at hfind
      generalize entries'.find? key = y at hfind
      cases hfind with
      | none => exact rfl
      | some hvw => exact hS.resolve hvw
    | space s =>
      obtain ⟨members, rfl, hmembers⟩ := halike.of_space
      refine (hS.memberOf hxys).bind fun _ name hname => ?_
      subst hname
      exact hS.member hmembers name
    | set elements =>
      cases halike with
      | same => exact (hS.keyOf hxys).bind fun key _ hkey => hkey ▸ hS.scalar rfl
    | array m =>
      cases halike with
      | same => exact (hS.matrixOffset hxys m).bind fun offset _ hoffset => hoffset ▸ hS.scalar rfl
    | _ =>
      cases halike with
      | same => exact congrArg (fun name => (Fault.notIndexable name).failure) htype

end Heap.Simulates

-- ---------------------------------------------------------------------------
-- Simulations one after the other
-- ---------------------------------------------------------------------------

section Composition

variable {R S : Value → Value → Prop} {h h' h'' : Heap}

theorem forall₂_comp {α β γ : Type} {P : α → β → Prop} {Q : β → γ → Prop} {T : α → γ → Prop}
    (hT : ∀ a b c, P a b → Q b c → T a c) {as : List α} {bs : List β} {cs : List γ}
    (hab : List.Forall₂ P as bs) (hbc : List.Forall₂ Q bs cs) : List.Forall₂ T as cs := by
  induction hab generalizing cs with
  | nil =>
    cases hbc
    exact .nil
  | cons hab _ ih =>
    cases hbc with
    | cons hbc hrest => exact .cons (hT _ _ _ hab hbc) (ih hrest)

theorem OrderedMap.Alike.comp {κ : Type} {xs ys zs : OrderedMap κ Value} (hxy : xs.Alike R ys)
    (hyz : ys.Alike S zs) : xs.Alike (Relation.Comp R S) zs :=
  forall₂_comp (fun _ b _ hab hbc => ⟨hbc.1.trans hab.1, b.2, hab.2, hbc.2⟩) hxy hyz

theorem children_of_classes (hclasses : h'.classes = h.classes) (c : Content) : h'.children c = h.children c := by
  cases c with
  | cls id => simp only [Heap.children, hclasses]
  | _ => rfl

theorem Content.Alike.comp (hclasses : h'.classes = h.classes) {c d e : Content} (hcd : c.Alike R h d)
    (hde : d.Alike S h' e) : c.Alike (Relation.Comp R S) h e := by
  cases c with
  | list xs =>
    obtain ⟨ys, rfl, hxys⟩ := hcd.of_list
    obtain ⟨zs, rfl, hyzs⟩ := hde.of_list
    exact .list (forall₂_comp (fun _ b _ hab hbc => ⟨b, hab, hbc⟩) hxys hyzs)
  | table xs =>
    obtain ⟨ys, rfl, hxys⟩ := hcd.of_table
    obtain ⟨zs, rfl, hyzs⟩ := hde.of_table
    exact .table (hxys.comp hyzs)
  | space s =>
    obtain ⟨ys, rfl, hxys⟩ := hcd.of_space
    obtain ⟨zs, rfl, hyzs⟩ := hde.of_space
    exact .space (hxys.comp hyzs)
  | _ =>
    cases hcd with
    | same children =>
      cases hde with
      | same children' =>
        exact .same fun v hv => ⟨v, children v hv, children' v (by rwa [children_of_classes hclasses])⟩

theorem Heap.Agree.comp (hclasses : h'.classes = h.classes) {u v w : Value} (huv : h.Agree R h' u v)
    (hvw : h'.Agree S h'' v w) : h.Agree (Relation.Comp R S) h'' u w := by
  cases huv with
  | scalar plain =>
    cases hvw with
    | scalar => exact .scalar plain
    | object => cases plain
  | object left right cls content =>
    cases hvw with
    | scalar plain => cases plain
    | object left' right' cls' content' =>
      cases left'.symm.trans right
      exact .object left right' (cls'.trans cls) (content.comp hclasses content')

theorem Heap.Simulates.comp (hR : h.Simulates R h') (hS : h'.Simulates S h'') :
    h.Simulates (Relation.Comp R S) h'' where
  classes := hS.classes.trans hR.classes
  scalar hv := ⟨_, hR.scalar hv, hS.scalar hv⟩
  cell := fun ⟨_, _, hvw⟩ => hS.cell hvw
  resolve := fun ⟨_, huv, hvw⟩ => ⟨_, hR.resolve huv, hS.resolve hvw⟩
  agree := fun ⟨_, huv, hvw⟩ => (hR.agree huv).comp hR.classes (hS.agree hvw)

end Composition

-- ---------------------------------------------------------------------------
-- What can be reached
-- ---------------------------------------------------------------------------

/-- Whatever can be reached is there, and no cell holds another one. -/
structure Heap.Intact (h : Heap) (start : List Value) : Prop where
  object {i : ObjectId} : ReachedFrom h.links start (.object i) → ∃ o, h.object? i = some o
  cell {c : CellId} : ReachedFrom h.links start (.cell c) → ∃ w, h.cell? c = some w ∧ w.isCell = false

section Reached

variable {R : Value → Value → Prop} {h h' : Heap}

theorem exists_of_forall₂ {α β : Type} {P : α → β → Prop} {as : List α} {bs : List β}
    (h : List.Forall₂ P as bs) {b : β} (hb : b ∈ bs) : ∃ a, P a b := by
  induction h with
  | nil => cases hb
  | cons hab _ ih =>
    rcases List.mem_cons.mp hb with rfl | hb
    · exact ⟨_, hab⟩
    · exact ih hb

theorem OrderedMap.Alike.exists_value {κ : Type} {xs ys : OrderedMap κ Value} (h : xs.Alike R ys) {w : Value}
    (hw : w ∈ ys.values.toList) : ∃ v, R v w := by
  rw [OrderedMap.values, Array.toList_map] at hw
  obtain ⟨y, hy, rfl⟩ := List.mem_map.mp hw
  obtain ⟨x, hxy⟩ := exists_of_forall₂ h hy
  exact ⟨x.2, hxy.2⟩

theorem Content.Alike.exists_child (hclasses : h'.classes = h.classes) {c d : Content} (h : c.Alike R h d)
    {w : Value} (hw : w ∈ h'.children d) : ∃ v, R v w := by
  rw [children_of_classes hclasses] at hw
  cases h with
  | list items => exact exists_of_forall₂ items hw
  | table entries => exact entries.exists_value hw
  | space members => exact members.exists_value hw
  | same children => exact ⟨w, children w hw⟩

/-- What values can reach that have related ones has one, too. -/
theorem Heap.Simulates.exists_reached (hS : h.Simulates R h') {start : List Value}
    (hstart : ∀ w ∈ start, ∃ v, R v w) {w : Value} (hw : ReachedFrom h'.links start w) : ∃ v, R v w := by
  induction hw with
  | start mem => exact hstart _ mem
  | @step w u _ mem ih =>
    obtain ⟨v, hvw⟩ := ih
    cases w with
    | object j =>
      rcases hS.cases hvw with ⟨x, hx, -, hw⟩ | ⟨i, j', o, p, -, hw, -, hp, -, halike⟩
      · subst hw
        cases hx
      · cases hw
        exact halike.exists_child hS.classes (by simpa [Heap.links, hp] using mem)
    | cell c =>
      have hresolve : h'.resolve (.cell c) = u := by
        simp only [Heap.links, Option.mem_toList] at mem
        exact congrArg (·.getD .null) mem
      exact ⟨_, hresolve ▸ hS.resolve hvw⟩
    | _ => cases mem

theorem Heap.Simulates.intact (hS : h.Simulates R h') {start : List Value}
    (hstart : ∀ w ∈ start, ∃ v, R v w) : h'.Intact start where
  object hi := by
    obtain ⟨v, hv⟩ := hS.exists_reached hstart hi
    rcases hS.cases hv with ⟨x, hx, -, hw⟩ | ⟨i, j', o, p, -, hw, -, hp, -⟩
    · subst hw
      cases hx
    · cases hw
      exact ⟨p, hp⟩
  cell hc := by
    obtain ⟨v, hv⟩ := hS.exists_reached hstart hc
    exact hS.cell hv

/-- The value is a scalar, or can be reached. -/
def Heap.Knows (h : Heap) (start : List Value) (v : Value) : Prop := v.isScalar ∨ ReachedFrom h.links start v

variable {start : List Value}

/-- What a known object holds is known. -/
theorem Heap.Knows.child {i : ObjectId} {o : Object} {w : Value} (hv : h.Knows start (.object i))
    (ho : h.object? i = some o) (hw : w ∈ h.children o.content) : h.Knows start w :=
  .inr (.step (hv.resolve_left (by simp [Value.isScalar])) (by simpa [Heap.links, ho] using hw))

namespace Heap.Intact

variable (hi : h.Intact start) {v : Value}
include hi

theorem knows_object {i : ObjectId} (hv : h.Knows start (.object i)) : ∃ o, h.object? i = some o :=
  hi.object (hv.resolve_left (by simp [Value.isScalar]))

theorem knows_cell {c : CellId} (hv : h.Knows start (.cell c)) :
    ∃ w, h.cell? c = some w ∧ w.isCell = false ∧ h.Knows start w := by
  have hreached := hv.resolve_left (by simp [Value.isScalar])
  obtain ⟨w, hw, hcell⟩ := hi.cell hreached
  exact ⟨w, hw, hcell, .inr (.step hreached (by simpa [Heap.links] using hw))⟩

theorem knows_resolve (hv : h.Knows start v) : h.Knows start (h.resolve v) ∧ (h.resolve v).isCell = false := by
  cases v with
  | cell c =>
    obtain ⟨w, hw, hcell, hknows⟩ := hi.knows_cell hv
    have hresolve : h.resolve (.cell c) = w := congrArg (·.getD .null) hw
    exact hresolve ▸ ⟨hknows, hcell⟩
  | _ => exact ⟨hv, rfl⟩

end Heap.Intact

end Reached

end Rill
