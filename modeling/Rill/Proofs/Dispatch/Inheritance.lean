-- SUMMARY: Queries of the class tree agree with climbing from parent to parent, whatever was created and registered.
import Rill.Class
import Rill.Proofs.Comparison.Keys

/-!
# Ancestors and inheritance

A class is reached from another one by steps to the parent. In a tree that grows by creations, the path
that a class keeps is the path of its parent and the class itself, so the distance that is read off two
paths is the number of those steps.

A class tree is made by changes: classes are created below others, and members, accessors and initializers are
registered for them. What is asked of the tree is answered from the paths that its classes keep; it is what climbing
from parent to parent finds. A distance is a number of steps, the depth is the distance to the root, and a member,
accessor or initializer is the one registered last for the nearest class on the way that has one.
-/

namespace Rill.ClassTree

-- ---------------------------------------------------------------------------
-- Trees
-- ---------------------------------------------------------------------------

/-- The trees that creations of classes below existing ones make, with any registrations in between. -/
inductive Grown : ClassTree → Prop
  | empty : Grown #[]
  | create {t : ClassTree} (before : Grown t) (name : String) (parent : Option ClassId)
      (collectable : Bool) (object : ObjectId) (known : ∀ p ∈ parent, p.index < t.size) :
      Grown (t.create name parent collectable object)
  | setMember {t : ClassTree} (before : Grown t) (c : ClassId) (name : String) (value : Value) :
      Grown (t.setMember c name value)
  | setAccessor {t : ClassTree} (before : Grown t) (c : ClassId) (name : String) (accessor : Accessor) :
      Grown (t.setAccessor c name accessor)
  | setInitializer {t : ClassTree} (before : Grown t) (c : ClassId) (function : ObjectId) :
      Grown (t.setInitializer c function)

/-- A class is reached from another one by a number of steps to the parent. -/
inductive Ascends (t : ClassTree) : Nat → ClassId → ClassId → Prop
  | self {c : ClassId} (known : c.index < t.size) : Ascends t 0 c c
  | step {n : Nat} {c p b : ClassId} (parent : t.parent? c = some p) (rest : Ascends t n p b) :
      Ascends t (n + 1) c b

/-- The path of every class ends with the class; before that it is empty or the path of an older class. -/
def Lineal (t : ClassTree) : Prop :=
  ∀ c : ClassId, c.index < t.size → ∃ above, t.lineage c = above.push c ∧
    (above = #[] ∨ ∃ p : ClassId, p.index < c.index ∧ above = t.lineage p)

-- ---------------------------------------------------------------------------
-- Paths
-- ---------------------------------------------------------------------------

theorem lineage_of_size_le {t : ClassTree} {c : ClassId} (h : t.size ≤ c.index) : t.lineage c = #[] := by
  simp [lineage, get?, Array.getElem?_eq_none h]

theorem lineage_create_lt {t : ClassTree} {name : String} {parent : Option ClassId} {collectable : Bool}
    {object : ObjectId} {c : ClassId} (h : c.index < t.size) :
    (t.create name parent collectable object).lineage c = t.lineage c := by
  simp only [lineage, get?, create]
  rw [Array.getElem?_push_lt h, Array.getElem?_eq_getElem h]

theorem lineage_create_size {t : ClassTree} {name : String} {parent : Option ClassId} {collectable : Bool}
    {object : ObjectId} :
    (t.create name parent collectable object).lineage ⟨t.size⟩
      = (parent.elim #[] t.lineage).push ⟨t.size⟩ := by
  simp [lineage, get?, create]

/-- A change of one class that keeps its path keeps all paths. -/
theorem lineage_modify {t : ClassTree} {i : Nat} {f : ClassInfo → ClassInfo}
    (hf : ∀ info, (f info).lineage = info.lineage) (c : ClassId) :
    lineage (t.modify i f) c = t.lineage c := by
  simp only [lineage, get?, Array.getElem?_modify]
  split
  · cases t[c.index]? with
    | none => rfl
    | some info => exact hf info
  · rfl

theorem Lineal.modify {t : ClassTree} (h : t.Lineal) {i : Nat} {f : ClassInfo → ClassInfo}
    (hf : ∀ info, (f info).lineage = info.lineage) : Lineal (t.modify i f) := by
  intro c hc
  rw [Array.size_modify] at hc
  obtain ⟨above, hpath, habove⟩ := h c hc
  refine ⟨above, (lineage_modify hf c).trans hpath, habove.imp id ?_⟩
  rintro ⟨p, hp, rfl⟩
  exact ⟨p, hp, (lineage_modify hf p).symm⟩

theorem Lineal.create {t : ClassTree} (h : t.Lineal) {name : String} {parent : Option ClassId}
    {collectable : Bool} {object : ObjectId} (known : ∀ p ∈ parent, p.index < t.size) :
    Lineal (t.create name parent collectable object) := by
  intro c hc
  have hsize : (t.create name parent collectable object).size = t.size + 1 := Array.size_push ..
  rcases Nat.lt_or_ge c.index t.size with hold | hnew
  · obtain ⟨above, hpath, habove⟩ := h c hold
    refine ⟨above, (lineage_create_lt hold).trans hpath, habove.imp id ?_⟩
    rintro ⟨p, hp, rfl⟩
    exact ⟨p, hp, (lineage_create_lt (Nat.lt_trans hp hold)).symm⟩
  · obtain rfl : c = ⟨t.size⟩ := by
      obtain ⟨i⟩ := c
      rw [hsize] at hc
      exact congrArg ClassId.mk (Nat.le_antisymm (Nat.le_of_lt_succ hc) hnew)
    refine ⟨_, lineage_create_size, ?_⟩
    cases parent with
    | none => exact .inl rfl
    | some p =>
      have hp := known p rfl
      exact .inr ⟨p, hp, (lineage_create_lt hp).symm⟩

theorem Grown.lineal {t : ClassTree} (h : t.Grown) : t.Lineal := by
  induction h with
  | empty =>
    intro c hc
    exact absurd hc (Nat.not_lt_zero _)
  | create _ name parent collectable object known ih => exact ih.create known
  | setMember _ c name value ih => exact ih.modify fun _ => rfl
  | setAccessor _ c name accessor ih => exact ih.modify fun _ => rfl
  | setInitializer _ c function ih => exact ih.modify fun _ => rfl

-- ---------------------------------------------------------------------------
-- Distances
-- ---------------------------------------------------------------------------

section Distances

variable {t : ClassTree} {c b p : ClassId} {n : Nat}

/-- A class with a parent exists, and its path is the path of the parent and the class. -/
theorem Lineal.lineage_eq_push (h : t.Lineal) (hp : t.parent? c = some p) :
    c.index < t.size ∧ p.index < t.size ∧ t.lineage c = (t.lineage p).push c := by
  rcases Nat.lt_or_ge c.index t.size with hc | hc
  · obtain ⟨above, hpath, rfl | ⟨q, hq, rfl⟩⟩ := h c hc
    · simp [parent?, hpath] at hp
    · obtain ⟨above, hpath', -⟩ := h q (Nat.lt_trans hq hc)
      obtain rfl : q = p := by simpa [parent?, hpath, hpath'] using hp
      exact ⟨hc, Nat.lt_trans hq hc, hpath⟩
  · simp [parent?, lineage_of_size_le hc] at hp

/-- The path of an ancestor is where the path of a class begins. -/
theorem Lineal.lineage_of_ascends (h : t.Lineal) (ha : t.Ascends n c b) :
    b.index < t.size ∧ ∃ below, t.lineage c = t.lineage b ++ below ∧ below.size = n := by
  induction ha with
  | self known => exact ⟨known, #[], by simp, rfl⟩
  | @step n c p b parent _ ih =>
    obtain ⟨hb, below, hpath, hsize⟩ := ih
    refine ⟨hb, below.push c, ?_, by rw [Array.size_push, hsize]⟩
    rw [(h.lineage_eq_push parent).2.2, hpath, Array.append_push]

/-- Every class on a path is an ancestor. -/
theorem Lineal.ascends_of_mem (h : t.Lineal) (hb : b ∈ t.lineage c) : ∃ n, t.Ascends n c b := by
  -- The class above is older, so the induction is on the identity.
  induction hi : c.index using Nat.strongRecOn generalizing c with
  | ind i ih =>
    rcases Nat.lt_or_ge c.index t.size with hc | hc
    · obtain ⟨above, hpath, habove⟩ := h c hc
      rw [hpath, Array.mem_push] at hb
      rcases hb with hb | rfl
      · rcases habove with rfl | ⟨q, hq, rfl⟩
        · simp at hb
        · obtain ⟨n, hn⟩ := ih q.index (hi ▸ hq) hb rfl
          obtain ⟨above, hpath', -⟩ := h q (Nat.lt_trans hq hc)
          exact ⟨n + 1, .step (by simp [parent?, hpath, hpath']) hn⟩
      · exact ⟨0, .self hc⟩
    · simp [lineage_of_size_le hc] at hb

theorem Lineal.lineage_size (h : t.Lineal) (hc : c.index < t.size) :
    (t.lineage c).size = t.depth c + 1 := by
  obtain ⟨above, hpath, -⟩ := h c hc
  have hdepth : t.depth c = (t.lineage c).size - 1 := by
    unfold depth lineage ClassInfo.depth
    cases t.get? c <;> rfl
  rw [hdepth, hpath, Array.size_push]
  omega

/-- The distance is the number of steps to the parent. -/
theorem Lineal.distance?_eq_some_iff (h : t.Lineal) : t.distance? c b = some n ↔ t.Ascends n c b := by
  -- Both directions compare the lengths of the two paths.
  have hsteps {k : Nat} (ha : t.Ascends k c b) : t.depth c - t.depth b = k := by
    have hc : c.index < t.size := by
      cases ha with
      | self known => exact known
      | step parent _ => exact (h.lineage_eq_push parent).1
    obtain ⟨hb, below, hpath, hbelow⟩ := h.lineage_of_ascends ha
    have hsize := congrArg Array.size hpath
    rw [Array.size_append, h.lineage_size hc, h.lineage_size hb] at hsize
    omega
  unfold distance?
  constructor
  · intro hd
    split at hd
    · next hentry =>
      obtain ⟨k, hk⟩ := h.ascends_of_mem (Array.mem_of_getElem? hentry)
      rw [hsteps hk, Option.some.injEq] at hd
      exact hd ▸ hk
    · cases hd
  · intro ha
    obtain ⟨hb, below, hpath, -⟩ := h.lineage_of_ascends ha
    have hsize := h.lineage_size hb
    obtain ⟨above, hpath', -⟩ := h b hb
    have hlast : (t.lineage b)[t.depth b]? = some b := by
      have hdepth : t.depth b = above.size := by
        rw [hpath', Array.size_push] at hsize
        omega
      rw [hpath', hdepth, Array.getElem?_push_size]
    rw [hpath, Array.getElem?_append_left (by omega), hlast, if_pos rfl, hsteps ha]

end Distances

-- ---------------------------------------------------------------------------
-- Changes
-- ---------------------------------------------------------------------------

inductive Change
  | create (name : String) (parent : Option ClassId) (collectable : Bool) (object : ObjectId)
  | member (c : ClassId) (name : String) (value : Value)
  | accessor (c : ClassId) (name : String) (field : Accessor)
  | initializer (c : ClassId) (function : ObjectId)

def Change.apply (t : ClassTree) : Change → ClassTree
  | .create name parent collectable object => t.create name parent collectable object
  | .member c name value => t.setMember c name value
  | .accessor c name field => t.setAccessor c name field
  | .initializer c function => t.setInitializer c function

/-- The first class is the root, and every other one has a parent. What a change speaks of is in the tree. -/
def Change.Allowed (t : ClassTree) : Change → Prop
  | .create _ none _ _ => t.size = 0
  | .create _ (some p) _ _ => p.index < t.size
  | .member c _ _ | .accessor c _ _ | .initializer c _ => c.index < t.size

instance (t : ClassTree) : DecidablePred (Change.Allowed t)
  | .create _ none _ _ => inferInstanceAs (Decidable (t.size = 0))
  | .create _ (some p) _ _ => inferInstanceAs (Decidable (p.index < t.size))
  | .member c _ _ | .accessor c _ _ | .initializer c _ => inferInstanceAs (Decidable (c.index < t.size))

/-- A tree with the changes that have made it, the latest first. -/
inductive Built : List Change → ClassTree → Prop
  | empty : Built [] #[]
  | change {history : List Change} {t : ClassTree} {e : Change} (before : Built history t)
      (allowed : e.Allowed t) : Built (e :: history) (e.apply t)

/-- Number of classes that changes create. -/
def created : List Change → Nat
  | [] => 0
  | .create .. :: older => created older + 1
  | _ :: older => created older

/-- The class that a class was created below. -/
def declaredParent : List Change → ClassId → Option ClassId
  | [], _ => none
  | .create _ parent _ _ :: older, c => if c.index = created older then parent else declaredParent older c
  | _ :: older, c => declaredParent older c

/-- What a change registers as a member of a class. -/
def Change.member? (name : String) (c : ClassId) : Change → Option Value
  | .member c' name' value => if c' = c ∧ name' = name then some value else none
  | _ => none

def Change.accessor? (name : String) (c : ClassId) : Change → Option Accessor
  | .accessor c' name' field => if c' = c ∧ name' = name then some field else none
  | _ => none

def Change.initializer? (c : ClassId) : Change → Option ObjectId
  | .initializer c' function => if c' = c then some function else none
  | _ => none

/-- What was registered last for the nearest class, going up from a class to the root, for which there is something. -/
def Nearest (t : ClassTree) (c : ClassId) (registered : ClassId → Option α) (a : α) : Prop :=
  ∃ n b, t.Ascends n c b ∧ registered b = some a ∧ ∀ m < n, ∀ below, t.Ascends m c below → registered below = none

-- ---------------------------------------------------------------------------
-- Trees that are built
-- ---------------------------------------------------------------------------

section Built

variable {history : List Change} {t : ClassTree} {c : ClassId}

theorem Built.grown (h : Built history t) : t.Grown := by
  induction h with
  | empty => exact .empty
  | @change history t e _ allowed ih =>
    cases e with
    | create name parent collectable object =>
      refine ih.create name parent collectable object ?_
      rintro p rfl
      exact allowed
    | member c name value => exact ih.setMember c name value
    | accessor c name field => exact ih.setAccessor c name field
    | initializer c function => exact ih.setInitializer c function

theorem Built.size (h : Built history t) : t.size = created history := by
  induction h with
  | empty => rfl
  | @change history t e _ _ ih =>
    cases e with
    | create => exact (Array.size_push _).trans (congrArg (· + 1) ih)
    | member | accessor | initializer => exact Array.size_modify.trans ih

theorem parent?_of_size_le (h : t.size ≤ c.index) : t.parent? c = none := by
  simp [parent?, lineage_of_size_le h]

theorem parent?_of_lineage {s : ClassTree} (h : s.lineage c = t.lineage c) : s.parent? c = t.parent? c := by
  rw [parent?, parent?, h]

/-- A registration leaves the paths as they are. -/
theorem parent?_modify {i : Nat} {f : ClassInfo → ClassInfo} (hf : ∀ info, (f info).lineage = info.lineage) :
    ClassTree.parent? (t.modify i f) c = t.parent? c :=
  parent?_of_lineage (lineage_modify hf c)

/-- The parent of a class is the one it was created below. -/
theorem Built.parent? (h : Built history t) (c : ClassId) : t.parent? c = declaredParent history c := by
  induction h with
  | empty => simp [ClassTree.parent?, lineage, get?, declaredParent]
  | @change history t e before allowed ih =>
    cases e with
    | create name parent collectable object =>
      simp only [declaredParent, ← before.size, Change.apply]
      split
      · next hnew =>
        obtain rfl : c = ⟨t.size⟩ := congrArg ClassId.mk hnew
        cases parent with
        | none => simp [ClassTree.parent?, lineage_create_size]
        | some p =>
          obtain ⟨above, hpath, -⟩ := before.grown.lineal p allowed
          simp [ClassTree.parent?, lineage_create_size, hpath]
      · next hne =>
        rw [← ih]
        rcases Nat.lt_or_gt_of_ne hne with hlt | hgt
        · exact parent?_of_lineage (lineage_create_lt hlt)
        · rw [parent?_of_size_le (Nat.le_of_lt hgt), parent?_of_size_le]
          exact Nat.le_trans (Nat.le_of_eq (Array.size_push _)) hgt
    | member d name value =>
      have hsame : (t.setMember d name value).parent? c = t.parent? c := parent?_modify fun _ => rfl
      exact hsame.trans ih
    | accessor d name field =>
      have hsame : (t.setAccessor d name field).parent? c = t.parent? c := parent?_modify fun _ => rfl
      exact hsame.trans ih
    | initializer d function =>
      have hsame : (t.setInitializer d function).parent? c = t.parent? c := parent?_modify fun _ => rfl
      exact hsame.trans ih

/-- Only the root has no parent. -/
theorem Built.eq_root (h : Built history t) (hc : c.index < t.size) (hnone : t.parent? c = none) : c = .root := by
  rw [h.parent?] at hnone
  induction h with
  | empty => cases hc
  | @change history t e before allowed ih =>
    cases e with
    | create name parent collectable object =>
      simp only [declaredParent, ← before.size] at hnone
      have hsize : c.index < t.size + 1 := Nat.lt_of_lt_of_eq hc (Array.size_push _)
      split at hnone
      · next hnew =>
        subst hnone
        exact congrArg ClassId.mk (hnew.trans allowed)
      · next hne => exact ih (by omega) hnone
    | member | accessor | initializer => exact ih (Nat.lt_of_lt_of_eq hc Array.size_modify) hnone

/-- What a class has of its own is what was registered for it last, if a change registers what it seems to. -/
theorem Built.own_eq {own : ClassInfo → Option α} {registered : ClassId → Change → Option α}
    (hstep : ∀ (t : ClassTree) (e : Change) (c : ClassId), e.Allowed t →
      ((e.apply t).get? c).bind own = (registered c e).or ((t.get? c).bind own))
    (h : Built history t) (c : ClassId) : (t.get? c).bind own = history.findSome? (registered c) := by
  induction h with
  | empty => rfl
  | @change history t e _ allowed ih =>
    rw [hstep t e c allowed, ih, List.findSome?_cons]
    cases registered c e <;> rfl

end Built

-- ---------------------------------------------------------------------------
-- Registrations
-- ---------------------------------------------------------------------------

section Registrations

variable {own : ClassInfo → Option α}

theorem get?_modify (t : ClassTree) (i : Nat) (f : ClassInfo → ClassInfo) (c : ClassId) :
    get? (t.modify i f) c = if i = c.index then (t.get? c).map f else t.get? c :=
  Array.getElem?_modify ..

/-- A new class has nothing of its own. -/
theorem own_create {t : ClassTree} {name : String} {parent : Option ClassId} {collectable : Bool} {object : ObjectId}
    (hfresh : ∀ lineage, own { name, lineage, collectable, object } = none) (c : ClassId) :
    ((t.create name parent collectable object).get? c).bind own = (t.get? c).bind own := by
  simp only [get?, create, Array.getElem?_push]
  split
  · next hnew =>
    rw [hnew, Array.getElem?_eq_none (Nat.le_refl _)]
    exact hfresh _
  · rfl

/-- A change of one class that what is asked for does not depend on. -/
theorem own_modify {t : ClassTree} {i : Nat} {f : ClassInfo → ClassInfo} (hf : ∀ info, own (f info) = own info)
    (c : ClassId) : (get? (t.modify i f) c).bind own = (t.get? c).bind own := by
  rw [get?_modify]
  split
  · cases t.get? c with
    | none => rfl
    | some info => exact hf info
  · rfl

/-- A change of one class that registers something for it. -/
theorem own_register {t : ClassTree} {d : ClassId} {f : ClassInfo → ClassInfo} {p : Prop} [Decidable p] {a : α}
    (hd : d.index < t.size) (hf : ∀ info, own (f info) = if p then some a else own info) (c : ClassId) :
    (get? (t.modify d.index f) c).bind own = (if d = c ∧ p then some a else none).or ((t.get? c).bind own) := by
  rw [get?_modify]
  by_cases hdc : d = c
  · subst hdc
    have hinfo : t.get? d = some t[d.index] := Array.getElem?_eq_getElem hd
    by_cases hp : p <;> simp [hinfo, hf, hp]
  · have hindex : d.index ≠ c.index := fun heq => hdc (congrArg ClassId.mk heq)
    simp [hdc, hindex]

theorem member_step (name : String) (t : ClassTree) (e : Change) (c : ClassId) (he : e.Allowed t) :
    ((e.apply t).get? c).bind (·.members.find? name) =
      (e.member? name c).or ((t.get? c).bind (·.members.find? name)) := by
  cases e with
  | create name' parent collectable object => exact own_create (fun _ => rfl) c
  | member d name' value =>
    refine own_register (p := name' = name) he (fun info => ?_) c
    rw [OrderedMap.find?_insert]
    simp only [eq_comm]
  | accessor d name' field =>
    refine own_modify (fun info => ?_) c
    rfl
  | initializer d function =>
    refine own_modify (fun info => ?_) c
    rfl

theorem accessor_step (name : String) (t : ClassTree) (e : Change) (c : ClassId) (he : e.Allowed t) :
    ((e.apply t).get? c).bind (·.accessors.find? name) =
      (e.accessor? name c).or ((t.get? c).bind (·.accessors.find? name)) := by
  cases e with
  | create name' parent collectable object => exact own_create (fun _ => rfl) c
  | member d name' value =>
    refine own_modify (fun info => ?_) c
    rfl
  | accessor d name' field =>
    refine own_register (p := name' = name) he (fun info => ?_) c
    rw [OrderedMap.find?_insert]
    simp only [eq_comm]
  | initializer d function =>
    refine own_modify (fun info => ?_) c
    rfl

theorem initializer_step (t : ClassTree) (e : Change) (c : ClassId) (he : e.Allowed t) :
    ((e.apply t).get? c).bind (·.initializer) = (e.initializer? c).or ((t.get? c).bind (·.initializer)) := by
  cases e with
  | create name' parent collectable object => exact own_create (fun _ => rfl) c
  | member d name' value =>
    refine own_modify (fun info => ?_) c
    rfl
  | accessor d name' field =>
    refine own_modify (fun info => ?_) c
    rfl
  | initializer d function =>
    have hset : ((t.setInitializer d function).get? c).bind (·.initializer) =
        (if d = c ∧ True then some function else none).or ((t.get? c).bind (·.initializer)) := by
      refine own_register he (fun info => ?_) c
      exact (if_pos trivial).symm
    simp only [and_true] at hset
    exact hset

end Registrations

-- ---------------------------------------------------------------------------
-- Steps up
-- ---------------------------------------------------------------------------

section Paths

variable {t : ClassTree} {a b c p : ClassId} {m n : Nat}

theorem Ascends.trans (h : t.Ascends m c b) (h' : t.Ascends n b a) : t.Ascends (m + n) c a := by
  induction h with
  | self _ => rwa [Nat.zero_add]
  | @step m c p b parent _ ih =>
    rw [Nat.succ_add]
    exact .step parent (ih h')

theorem Lineal.parent_lt (h : t.Lineal) (hp : t.parent? c = some p) : p.index < c.index := by
  have hc := (h.lineage_eq_push hp).1
  obtain ⟨above, hpath, rfl | ⟨q, hq, rfl⟩⟩ := h c hc
  · simp [parent?, hpath] at hp
  · obtain ⟨above, hpath', -⟩ := h q (Nat.lt_trans hq hc)
    obtain rfl : q = p := by simpa [parent?, hpath, hpath'] using hp
    exact hq

/-- Every step up leads to an older class. -/
theorem Lineal.index_add_le (h : t.Lineal) (ha : t.Ascends n c b) : b.index + n ≤ c.index := by
  induction ha with
  | self _ => exact Nat.le_refl _
  | step parent _ ih =>
    have := h.parent_lt parent
    omega

theorem Lineal.known (h : t.Lineal) (ha : t.Ascends n c b) : c.index < t.size := by
  cases ha with
  | self known => exact known
  | step parent _ => exact (h.lineage_eq_push parent).1

/-- The path of a class, read from the class to the root, is the class and then the path of its parent. -/
theorem Lineal.reverse_path (h : t.Lineal) (hc : c.index < t.size) :
    (t.lineage c).toList.reverse = c :: (t.parent? c).elim [] fun p => (t.lineage p).toList.reverse := by
  cases hp : t.parent? c with
  | some p =>
    rw [(h.lineage_eq_push hp).2.2]
    simp
  | none =>
    obtain ⟨above, hpath, rfl | ⟨q, hq, rfl⟩⟩ := h c hc
    · simp [hpath]
    · obtain ⟨above, hpath', -⟩ := h q (Nat.lt_trans hq hc)
      simp [parent?, hpath, hpath'] at hp

/-- What stands on the path `n` places before a class is reached from it by `n` steps. -/
theorem Lineal.getElem?_path (h : t.Lineal) : (t.lineage c).toList.reverse[n]? = some b ↔ t.Ascends n c b := by
  rcases Nat.lt_or_ge c.index t.size with hc | hc
  · rw [h.reverse_path hc]
    induction n generalizing c with
    | zero =>
      simp only [List.getElem?_cons_zero, Option.some.injEq]
      constructor
      · rintro rfl
        exact .self hc
      · rintro ⟨-⟩
        rfl
    | succ n ih =>
      rw [List.getElem?_cons_succ]
      constructor
      · intro hb
        cases hp : t.parent? c with
        | none => simp [hp] at hb
        | some p =>
          have hknown := (h.lineage_eq_push hp).2.1
          simp only [hp, Option.elim_some, h.reverse_path hknown] at hb
          exact .step hp ((ih hknown).mp hb)
      · rintro (_ | ⟨hp, hrest⟩)
        have hknown := (h.lineage_eq_push hp).2.1
        simp only [hp, Option.elim_some, h.reverse_path hknown]
        exact (ih hknown).mpr hrest
  · simp only [lineage_of_size_le hc]
    exact ⟨fun hb => by simp at hb, fun ha => absurd (h.known ha) (Nat.not_lt.mpr hc)⟩

/-- What is inherited is what the nearest class on the way up has. -/
theorem Lineal.inherited?_eq_some_iff {own : ClassInfo → Option α} {x : α} (h : t.Lineal) :
    t.inherited? c own = some x ↔ t.Nearest c (fun b => (t.get? b).bind own) x := by
  rw [inherited?, List.findSome?_eq_some_iff]
  constructor
  · rintro ⟨below, b, above, hpath, hb, hnone⟩
    refine ⟨below.length, b, h.getElem?_path.mp ?_, hb, fun m hm d hd => hnone d ?_⟩
    · rw [hpath]
      simp
    · have hentry := h.getElem?_path.mpr hd
      rw [hpath, List.getElem?_append_left hm] at hentry
      exact List.mem_of_getElem? hentry
  · rintro ⟨n, b, hn, hb, hnone⟩
    have hentry := h.getElem?_path.mpr hn
    obtain ⟨hlt, hget⟩ := List.getElem?_eq_some_iff.mp hentry
    refine ⟨(t.lineage c).toList.reverse.take n, b, (t.lineage c).toList.reverse.drop (n + 1), ?_, hb, ?_⟩
    · rw [← hget, List.getElem_cons_drop, List.take_append_drop]
    · intro d hd
      obtain ⟨m, hm⟩ := List.mem_iff_getElem?.mp hd
      rw [List.getElem?_take] at hm
      split at hm
      · next hlt => exact hnone m hlt d (h.getElem?_path.mp hm)
      · cases hm

/-- A class is as many steps below the root as its depth tells. -/
theorem Built.ascends_root {history : List Change} (h : Built history t) (hc : c.index < t.size) :
    t.Ascends (t.depth c) c .root := by
  have hlineal := h.grown.lineal
  have hlength : (t.lineage c).toList.reverse.length = t.depth c + 1 := by
    simpa using hlineal.lineage_size hc
  -- The class at the end of the path has no parent, since the path would go on with it.
  obtain ⟨b, hb⟩ : ∃ b, (t.lineage c).toList.reverse[t.depth c]? = some b :=
    ⟨_, List.getElem?_eq_getElem (by omega)⟩
  have hsteps := hlineal.getElem?_path.mp hb
  have hknown : b.index < t.size := (hlineal.lineage_of_ascends hsteps).1
  have htop : t.parent? b = none := by
    cases hp : t.parent? b with
    | none => rfl
    | some p =>
      have hbeyond := hsteps.trans (.step hp (.self (hlineal.lineage_eq_push hp).2.1))
      obtain ⟨hlt, -⟩ := List.getElem?_eq_some_iff.mp (hlineal.getElem?_path.mpr hbeyond)
      omega
  exact h.eq_root hknown htop ▸ hsteps

end Paths

/-- The queries of a class tree agree with climbing from parent to parent. The parent of a class is the one it was
created below. A distance is the number of steps up to an ancestor, and there is none to any other class; the depth is
the distance to the root, the only class without a parent. Inheritance is a partial order, along which distances add
up. A member, an accessor or an initializer is what was registered last for the nearest class on the way to the root
that has one. -/
theorem queries_climb {history : List Change} {t : ClassTree} (h : Built history t) :
    t.size = created history ∧
    (∀ c, t.parent? c = declaredParent history c) ∧
    (∀ c b n, t.distance? c b = some n ↔ t.Ascends n c b) ∧
    (∀ c, c.index < t.size → t.distance? c .root = some (t.depth c) ∧ (t.parent? c = none ↔ c = .root)) ∧
    (∀ c, c.index < t.size → t.distance? c c = some 0) ∧
    (∀ c b m n, t.distance? c b = some m → t.distance? b c = some n → c = b) ∧
    (∀ c b a m n, t.distance? c b = some m → t.distance? b a = some n → t.distance? c a = some (m + n)) ∧
    (∀ c name v, t.member? c name = some v ↔
      t.Nearest c (fun b => history.findSome? (Change.member? name b)) v) ∧
    (∀ c name f, t.accessor? c name = some f ↔
      t.Nearest c (fun b => history.findSome? (Change.accessor? name b)) f) ∧
    ∀ c f, t.initializer? c = some f ↔ t.Nearest c (fun b => history.findSome? (Change.initializer? b)) f := by
  have hlineal := h.grown.lineal
  have hsteps {c b : ClassId} {n : Nat} : t.distance? c b = some n ↔ t.Ascends n c b := hlineal.distance?_eq_some_iff
  refine ⟨h.size, h.parent?, fun _ _ _ => hsteps, fun c hc => ⟨hsteps.mpr (h.ascends_root hc), h.eq_root hc, ?_⟩,
    fun c hc => hsteps.mpr (.self hc), ?_, ?_, ?_, ?_, ?_⟩
  · rintro rfl
    cases hp : t.parent? .root with
    | none => rfl
    | some p => exact absurd (hlineal.parent_lt hp) (Nat.not_lt_zero _)
  · intro c b m n hm hn
    have hup := hlineal.index_add_le (hsteps.mp hm)
    have hback := hlineal.index_add_le (hsteps.mp hn)
    obtain rfl : m = 0 := by omega
    cases hsteps.mp hm
    rfl
  · exact fun c b a m n hm hn => hsteps.mpr ((hsteps.mp hm).trans (hsteps.mp hn))
  · intro c name v
    rw [← funext (h.own_eq (member_step name))]
    exact hlineal.inherited?_eq_some_iff
  · intro c name f
    rw [← funext (h.own_eq (accessor_step name))]
    exact hlineal.inherited?_eq_some_iff
  · intro c f
    rw [← funext (h.own_eq initializer_step)]
    exact hlineal.inherited?_eq_some_iff

/-- Three classes in a line; the one in the middle gets a member twice, and the one below it inherits the later one. -/
theorem queries_climb_shapes :
    ∃ (history : List Change) (t : ClassTree), Built history t ∧ t.size = 3 ∧
      t.distance? ⟨2⟩ .root = some (t.depth ⟨2⟩) ∧ t.depth ⟨2⟩ = 2 ∧ t.member? ⟨2⟩ "sides" = some (.int 4) ∧
      t.Nearest ⟨2⟩ (fun b => history.findSome? (Change.member? "sides" b)) (.int 4) := by
  have hobject : Built [.create "Object" none false ⟨0⟩] _ := .change .empty rfl
  have hshape := Built.change (e := .create "Shape" (some ⟨0⟩) false ⟨1⟩) hobject (by decide)
  have hsquare := Built.change (e := .create "Square" (some ⟨1⟩) false ⟨2⟩) hshape (by decide)
  have hfirst := Built.change (e := .member ⟨1⟩ "sides" (.int 3)) hsquare (by decide)
  have hsecond := Built.change (e := .member ⟨1⟩ "sides" (.int 4)) hfirst (by decide)
  obtain ⟨-, -, -, hdepth, -, -, -, hmember, -⟩ := queries_climb hsecond
  refine ⟨_, _, hsecond, rfl, (hdepth ⟨2⟩ (by decide)).1, rfl, ?sides, (hmember ⟨2⟩ "sides" (.int 4)).mp ?sides⟩
  decide +kernel

end Rill.ClassTree
