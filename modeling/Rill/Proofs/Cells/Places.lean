-- SUMMARY: Variables, elements and fields are read, changed and referred to without references that lead nowhere.
import Rill.Proofs.Cells.Natives
import Rill.Proofs.Safety.Variables

/-!
# Places and cells

To assign to a place makes no cells. To refer to one, to take a value from a loop by reference and to pass an
argument by reference may make a cell, which is then the last one on the heap. Either way a machine in which
every reference to a cell leads somewhere stays one.
-/

namespace Rill

open Bounded (below)

-- ---------------------------------------------------------------------------
-- Operators
-- ---------------------------------------------------------------------------

/-- The computation gives no cell. -/
def Plain (x : Except Failure Value) : Prop := ∀ v, x = .ok v → v.isCell = false

namespace Plain

theorem ok {v : Value} (h : v.isCell = false) : Plain (.ok v) := by
  intro w hw
  cases hw
  exact h

@[grind .] theorem int (k : Int64) : Plain (.ok (.int k)) := ok rfl
@[grind .] theorem float (x : Float) : Plain (.ok (.float x)) := ok rfl
@[grind .] theorem bool (b : Bool) : Plain (.ok (.bool b)) := ok rfl
@[grind .] theorem pureInt (k : Int64) : Plain (pure (.int k)) := ok rfl
@[grind .] theorem pureFloat (x : Float) : Plain (pure (.float x)) := ok rfl
@[grind .] theorem pureBool (b : Bool) : Plain (pure (.bool b)) := ok rfl

@[grind .]
theorem error (e : Failure) : Plain (.error e) := nofun

@[grind .]
theorem throw (e : Failure) : Plain (MonadExcept.throw e) := error e

@[grind .]
theorem bind {α : Type} {x : Except Failure α} {f : α → Except Failure Value} (hf : ∀ a, Plain (f a)) :
    Plain (x >>= f) := by
  cases x with
  | error e => exact error e
  | ok a => exact hf a

theorem below {n : Nat} {x : Except Failure Value} (h : Plain x) : below n x :=
  fun v hv => Bounded.below_of_plain (h v hv)

end Plain

namespace Heap

@[grind .]
theorem binary_plain (h : Heap) (op : BinaryOp) (a b : Value) : Plain (h.binary op a b) := by
  cases op <;> grind [binary, arithmetic, divide, modulus, power, ordered, signOfOrder]

theorem negate_plain (h : Heap) (v : Value) : Plain (h.negate v) := by grind [negate]

theorem stepCounter_plain (h : Heap) (v : Value) (up : Bool) : Plain (h.stepCounter v up) := by
  grind [stepCounter]

end Heap

-- ---------------------------------------------------------------------------
-- Elements
-- ---------------------------------------------------------------------------

/-- The items of a list, and null behind them. -/
theorem Bounded.below_getD {n : Nat} {items : Array Value} (hitems : Bounded.below n items) (k : Nat) :
    Bounded.below n (items.getD k .null) := Library.Arguments.below_nth k hitems

theorem Bounded.below_set {n : Nat} {items : Array Value} (hitems : below n items) (k : Nat) {v : Value}
    (hv : below n v) : below n (items.setIfInBounds k v) := by
  intro w hw
  rcases Array.mem_or_eq_of_mem_setIfInBounds hw with hold | rfl
  · exact hitems w hold
  · exact hv

/-- A place that may be missing. -/
theorem Bounded.below_getNull {n : Nat} {v : Option Value} (h : Bounded.below n v) :
    Bounded.below n (v.getD .null) := by
  cases v with
  | none => trivial
  | some v => exact h v rfl

section Heaps

variable {n : Nat} {h : Heap} (hh : h.Below n)
include hh

theorem Heap.Below.member {s : Space} (hs : Bounded.below n s.members) (name : String) :
    Bounded.below n (h.member s name) := by
  unfold Heap.member
  split
  · next v hv => exact Bounded.ok (hh.resolve (Bounded.below_found hs hv))
  · exact nofun

theorem Heap.Below.element (container : Value) (indices : Array Value) :
    Bounded.below n (h.element container indices) := by
  unfold Heap.element
  split
  · exact Bounded.below_except_bind fun _ _ => Bounded.ok trivial
  · split
    · next items hitems =>
      have hitems : Bounded.below n items := hh.content? hitems
      exact Bounded.below_except_bind fun _ _ => Bounded.ok (hh.resolve (Bounded.below_getD hitems _))
    · next entries hentries =>
      have hentries : Bounded.below n entries := hh.content? hentries
      refine Bounded.below_except_bind fun key _ => ?_
      split
      · next v hv => exact Bounded.ok (hh.resolve (Bounded.below_found hentries hv))
      · exact nofun
    · exact Bounded.below_except_bind fun _ _ => Bounded.ok trivial
    · exact Bounded.below_except_bind fun _ _ => Bounded.ok trivial
    · next s hs =>
      have hs : Bounded.below n s.members := hh.content? hs
      exact Bounded.below_except_bind fun _ _ => hh.member hs _
    · exact nofun
  · exact nofun

end Heaps

-- ---------------------------------------------------------------------------
-- Assignments
-- ---------------------------------------------------------------------------

namespace Still

variable {n : Nat}

section Assignments

variable {old v : Value} (id : ObjectId)

theorem assign (hold : below n old) (hv : below n v) : Still n (Run.assign old v) := by
  fun_cases Run.assign old v <;> grind

theorem assignEntry {entries : Table} (hentries : below n entries) (key : Key) (hv : below n v) :
    Still n (Run.assignEntry id entries key v) :=
  (assign (Bounded.below_getNull (Bounded.below_find? hentries key)) hv).bind fun _ hheld =>
    setContent id (c := .table _) (Bounded.below_insert hentries key hheld)

theorem assignMember {s : Space} (hs : below n s.members) (name : String) (hv : below n v) :
    Still n (Run.assignMember id s name v) :=
  (assign (Bounded.below_getNull (Bounded.below_find? hs name)) hv).bind fun _ hheld =>
    setContent id (c := .space _) (Bounded.below_insert hs name hheld)

end Assignments

-- ---------------------------------------------------------------------------
-- Elements
-- ---------------------------------------------------------------------------

theorem notReferenceable {α : Type} [Bounded α] (v : Value) : Still n (Run.notReferenceable v : Run α) :=
  heap.bind fun _ _ => fail _

section Elements

variable (container : Value) (indices : Array Value)

theorem ownElement : Still n (Run.ownElement container indices) := by
  refine heap.bind fun h hh => ?_
  dsimp only
  split
  · next items id hitems _ =>
    have hitems : below n items := hh.contentOf hitems
    refine (lift (Cellfree.below n _)).bind fun offset _ =>
      (unshareSlot (Bounded.below_getD hitems offset) _).bind fun (held, own) ⟨hheld, hown⟩ => ?_
    exact (setContent id (c := .list _) (Bounded.below_set hitems offset hheld)).bind fun _ _ => pure hown
  · next entries id hentries _ =>
    have hentries : below n entries := hh.contentOf hentries
    refine (lift (Cellfree.below n _)).bind fun key _ => ?_
    split
    · next v hv =>
      refine (unshareSlot (Bounded.below_found hentries hv) _).bind fun (held, own) ⟨hheld, hown⟩ => ?_
      exact (setContent id (c := .table _) (Bounded.below_insert hentries key hheld)).bind fun _ _ => pure hown
    · exact fail _
  · exact lift (hh.element container indices)

theorem setElement {v : Value} (hv : below n v) : Still n (Run.setElement container indices v) := by
  refine heap.bind fun h hh => ?_
  dsimp only
  have hv : below n (h.resolve v) := hh.resolve hv
  split
  · next id _ =>
    split
    · next items hitems =>
      have hitems : below n items := hh.content? hitems
      refine (lift (Cellfree.below n _)).bind fun offset _ =>
        (assign (Bounded.below_getD hitems offset) hv).bind fun held hheld => ?_
      exact setContent id (c := .list _) (Bounded.below_set hitems offset hheld)
    · next entries hentries =>
      exact (lift (Cellfree.below n _)).bind fun key _ => assignEntry id (hh.content? hentries) key hv
    · exact (lift (Cellfree.below n _)).bind fun key _ => setContent id (c := .set _) trivial
    · exact (lift (Cellfree.below n _)).bind fun offset _ => (lift (Cellfree.below n _)).bind fun x _ =>
        setContent id (c := .array _) trivial
    · next s hs =>
      exact (lift (Cellfree.below n _)).bind fun name _ => assignMember id (hh.content? hs) name hv
    · exact fail _
  · exact fail _
  · exact fail _

end Elements

-- ---------------------------------------------------------------------------
-- Fields
-- ---------------------------------------------------------------------------

section Fields

variable {object : Value} (hobject : below n object) (name : String)
include hobject

theorem field : Still n (Run.field object name) := by
  refine heap.bind fun h hh => ?_
  dsimp only
  have hobject : below n (h.resolve object) := hh.resolve hobject
  split
  · next accessor haccessor =>
    have hgetter : below n accessor.getter := (hh.accessor? _ _ _ haccessor).1
    have hargs : below n #[h.resolve object] := by simpa using hobject
    exact accessor.getter.answer_still hgetter hargs
  · split
    · next v hown =>
      refine pure ?_
      split at hown
      · next entries hentries =>
        obtain ⟨w, hw, rfl⟩ := Option.map_eq_some_iff.mp hown
        have hentries : below n entries := hh.contentOf hentries
        exact hh.resolve (Bounded.below_found hentries hw)
      · exact hh.member? _ name v hown
      · cases hown
    · next s hs => exact lift (hh.member (hh.contentOf hs) name)
    · split
      · next v hv => exact pure (hh.member? _ name v hv)
      · exact fail _
      · exact fail _

theorem ownField : Still n (Run.ownField object name) := by
  refine heap.bind fun h hh => ?_
  split
  · next entries id hentries _ =>
    have hentries : below n entries := hh.contentOf hentries
    split
    · next v hv =>
      refine (unshareSlot (Bounded.below_found hentries hv) _).bind fun (held, own) ⟨hheld, hown⟩ => ?_
      exact (setContent id (c := .table _) (Bounded.below_insert hentries _ hheld)).bind fun _ _ => pure hown
    · exact fail _
  · next s id hs _ =>
    have hs : below n s.members := hh.contentOf hs
    split
    · next v hv =>
      refine (unshareSlot (Bounded.below_found hs hv) _).bind fun (held, own) ⟨hheld, hown⟩ => ?_
      exact (setContent id (c := .space _) (Bounded.below_insert hs _ hheld)).bind fun _ _ => pure hown
    · exact fail _
  · exact field (hh.resolve hobject) name

theorem setField {v : Value} (hv : below n v) : Still n (Run.setField object name v) := by
  refine heap.bind fun h hh => ?_
  dsimp only
  have hobject : below n (h.resolve object) := hh.resolve hobject
  have hv : below n (h.resolve v) := hh.resolve hv
  split
  · next accessor haccessor =>
    split
    · next setter hsetter =>
      have hsetter : below n setter := (hh.accessor? _ _ _ haccessor).2 _ hsetter
      have hargs : below n #[h.resolve object, h.resolve v] := by simpa using ⟨hobject, hv⟩
      exact (setter.answer_still hsetter hargs).bind fun _ _ => pure trivial
    · exact fail _
  · split
    · next entries id hentries _ => exact assignEntry id (hh.contentOf hentries) _ hv
    · next s id hs _ => exact assignMember id (hh.contentOf hs) name hv
    · exact fail _

end Fields

end Still

-- ---------------------------------------------------------------------------
-- References to places
-- ---------------------------------------------------------------------------

/-- Started in a whole machine with at least so many cells, the computation ends in a whole one with at
least as many as before. Its result refers to cells that are there. -/
def Ages {α : Type} [Bounded α] (n : Nat) (x : Run α) : Prop :=
  ∀ m : Machine, m.IsWhole → n ≤ m.heap.cells.size → match x m with
    | .ok a m' => m'.IsWhole ∧ m.heap.cells.size ≤ m'.heap.cells.size ∧ below m'.heap.cells.size a
    | .error _ m' => m'.IsWhole ∧ m.heap.cells.size ≤ m'.heap.cells.size

namespace Ages

variable {α β : Type} [Bounded α] [Bounded β] {n : Nat}

-- ---------------------------------------------------------------------------
-- Composition
-- ---------------------------------------------------------------------------

theorem bind {x : Run α} {f : α → Run β} (hx : Ages n x)
    (hf : ∀ n' a, n ≤ n' → below n' a → Ages n' (f a)) : Ages n (x >>= f) := by
  intro m hm hn
  have hxm := hx m hm hn
  change match EStateM.bind x f m with
    | .ok b m' => m'.IsWhole ∧ m.heap.cells.size ≤ m'.heap.cells.size ∧ below m'.heap.cells.size b
    | .error _ m' => m'.IsWhole ∧ m.heap.cells.size ≤ m'.heap.cells.size
  cases h : x m with
  | error e m' =>
    simp only [h] at hxm
    simpa only [EStateM.bind, h] using hxm
  | ok a m' =>
    simp only [h] at hxm
    obtain ⟨hm', hsize, ha⟩ := hxm
    have hfm := hf m'.heap.cells.size a (by omega) ha m' hm' (Nat.le_refl _)
    simp only [EStateM.bind, h]
    cases h' : f a m' with
    | ok b m'' =>
      simp only [h'] at hfm
      exact ⟨hfm.1, hsize.trans hfm.2.1, hfm.2.2⟩
    | error e m'' =>
      simp only [h'] at hfm
      exact ⟨hfm.1, hsize.trans hfm.2⟩

/-- A computation that is still whatever cells there are. -/
theorem of_still {x : Run α} (h : ∀ n', n ≤ n' → Still n' x) : Ages n x := by
  intro m hm hn
  have hxm := h m.heap.cells.size hn m hm
  cases hx : x m with
  | ok a m' =>
    simp only [hx] at hxm
    obtain ⟨hbelow, hsize, ha⟩ := hxm
    rw [← hsize] at hbelow ha
    exact ⟨hbelow, Nat.le_of_eq hsize.symm, ha⟩
  | error e m' =>
    simp only [hx] at hxm
    obtain ⟨hbelow, hsize⟩ := hxm
    rw [← hsize] at hbelow
    exact ⟨hbelow, Nat.le_of_eq hsize.symm⟩

theorem pure {a : α} (ha : below n a) : Ages n (Pure.pure a : Run α) :=
  of_still fun _ hle => .pure (Bounded.mono hle ha)

theorem fail (fault : Fault) : Ages n (Run.fail fault : Run α) := of_still fun _ _ => .fail fault

/-- A computation that goes on unless a condition makes it fail. -/
theorem failUnless {c : Prop} [Decidable c] {fault : Fault} {x : PUnit → Run α} (hx : ∀ u, Ages n (x u)) :
    Ages n (if c then Run.fail fault >>= x else x ⟨⟩) := by
  split
  · exact bind (of_still fun _ _ => .fail fault) fun n' u hle _ m hm hn => hx u m hm (hle.trans hn)
  · exact hx ⟨⟩

theorem lift {x : Except Failure α} (hx : below n x) : Ages n (monadLift x : Run α) :=
  of_still fun _ hle => .lift (Bounded.mono hle hx)

theorem heap : Ages n Run.heap := of_still fun _ _ => .heap

theorem get : Ages n (MonadState.get : Run Machine) := of_still fun _ _ => .get

-- ---------------------------------------------------------------------------
-- Cells
-- ---------------------------------------------------------------------------

/-- A new cell is the last one on the heap. -/
theorem allocateCell {v : Value} (hv : below n v) : Ages n (Run.allocateCell v) := by
  intro m hm hn
  have hsize : (m.heap.allocateCell v).2.cells.size = m.heap.cells.size + 1 := by simp [Heap.allocateCell]
  have hgrown : m.Below (m.heap.cells.size + 1) := Bounded.mono (α := Machine) (Nat.le_succ _) hm
  have hvalue : below (m.heap.cells.size + 1) v := Bounded.mono (by omega) hv
  let grown : Machine :=
    { m with heap := (m.heap.allocateCell v).2, registrations := m.registrations + 1 }
  have hwhole : grown.Below (m.heap.cells.size + 1) :=
    ⟨hgrown.heap.allocateCell hvalue, hgrown.stack, hgrown.globals, hgrown.control, hgrown.held⟩
  rw [← hsize] at hwhole
  have hle : m.heap.cells.size < (m.heap.allocateCell v).2.cells.size := by omega
  exact ⟨hwhole, Nat.le_of_lt hle, hle⟩

theorem cellFor {v : Value} (hv : below n v) : Ages n (Run.cellFor v) := by
  cases v with
  | cell id => exact pure hv
  | _ => exact allocateCell hv

theorem setContent {id : ObjectId} {c : Content} (hc : below n c) : Ages n (Run.setContent id c) :=
  of_still fun _ hle => .setContent id (Bounded.mono hle hc)

theorem entryCell (id : ObjectId) {entries : Table} (hentries : below n entries) (key : Key) :
    Ages n (Run.entryCell id entries key) := by
  refine (cellFor (Bounded.below_getNull (Bounded.below_find? hentries key))).bind fun n' cell hle hcell => ?_
  have hchanged : below n' (entries.insert key (.cell cell)) :=
    Bounded.below_insert (Bounded.mono hle hentries) key hcell
  exact (setContent (c := .table _) hchanged).bind fun _ _ hle' _ => pure (Bounded.mono hle' hcell)

theorem memberCell (id : ObjectId) {s : Space} (hs : below n s.members) (name : String) :
    Ages n (Run.memberCell id s name) := by
  refine (cellFor (Bounded.below_getNull (Bounded.below_find? hs name))).bind fun n' cell hle hcell => ?_
  have hchanged : below n' (s.members.insert name (.cell cell)) :=
    Bounded.below_insert (Bounded.mono hle hs) name hcell
  exact (setContent (c := .space _) hchanged).bind fun _ _ hle' _ => pure (Bounded.mono hle' hcell)

theorem elementCell (container : Value) (indices : Array Value) : Ages n (Run.elementCell container indices) := by
  refine heap.bind fun n h _ hh => ?_
  split
  · next id _ =>
    split
    · next items hitems =>
      have hitems : below n items := hh.content? hitems
      refine (lift (Cellfree.below n _)).bind fun n₁ offset hle _ => ?_
      have hitems := Bounded.mono hle hitems
      refine (cellFor (Bounded.below_getD hitems offset)).bind fun n₂ cell hle hcell => ?_
      have hchanged : below n₂ (items.setIfInBounds offset (.cell cell)) :=
        Bounded.below_set (Bounded.mono hle hitems) offset hcell
      exact (setContent (c := .list _) hchanged).bind fun _ _ hle' _ => pure (Bounded.mono hle' hcell)
    · next entries hentries =>
      have hentries : below n entries := hh.content? hentries
      exact (lift (Cellfree.below n _)).bind fun _ key hle _ => entryCell id (Bounded.mono hle hentries) key
    · next s hs =>
      have hs : below n s.members := hh.content? hs
      exact (lift (Cellfree.below n _)).bind fun _ name hle _ => memberCell id (Bounded.mono hle hs) name
    · exact of_still fun _ _ => .notReferenceable _
  · exact of_still fun _ _ => .notReferenceable _

theorem fieldCell (object : Value) (name : String) : Ages n (Run.fieldCell object name) := by
  refine heap.bind fun n h _ hh => ?_
  split
  · next entries id hentries _ => exact entryCell id (hh.contentOf hentries) _
  · next s id hs _ => exact memberCell id (hh.contentOf hs) name
  · exact of_still fun _ _ => .notReferenceable _

theorem takeFrom {v : Value} (hv : below n v) (byRef : Bool) : Ages n (Run.takeFrom v byRef) := by
  cases byRef with
  | false => exact heap.bind fun _ h hle hh => pure ⟨hh.resolve (Bounded.mono hle hv), Bounded.mono hle hv⟩
  | true =>
    cases v with
    | cell id => exact pure ⟨hv, hv⟩
    | _ => exact (allocateCell hv).bind fun _ cell _ hcell => pure ⟨hcell, hcell⟩

theorem takeElement (source : ObjectId) (position : Nat) (byRef : Bool) :
    Ages n (Run.takeElement source position byRef) := by
  refine heap.bind fun n h _ hh => ?_
  split
  · next items hitems =>
    have hitems : below n items := hh.content? hitems
    split
    · next v hv =>
      refine (takeFrom (hitems v (Array.mem_of_getElem? hv)) byRef).bind fun n' (taken, held) hle ⟨htaken, hheld⟩ => ?_
      have hchanged : below n' (items.setIfInBounds position held) :=
        Bounded.below_set (Bounded.mono hle hitems) position hheld
      exact (setContent (c := .list _) hchanged).bind fun _ _ hle' _ => pure (Bounded.mono hle' htaken)
    · exact pure trivial
  · next entries hentries =>
    have hentries : below n entries := hh.content? hentries
    split
    · next key v hv =>
      have hv : below n v := hentries (key, v) (Array.mem_of_getElem? hv)
      refine (takeFrom hv byRef).bind fun n' (taken, held) hle ⟨htaken, hheld⟩ => ?_
      have hchanged : below n' (⟨entries.entries.setIfInBounds position (key, held)⟩ : Table) := by
        intro e he
        rcases Array.mem_or_eq_of_mem_setIfInBounds he with hold | rfl
        · exact Bounded.mono hle (hentries e hold)
        · exact hheld
      exact (setContent (c := .table _) hchanged).bind fun _ _ hle' _ => pure (Bounded.mono hle' htaken)
    · exact pure trivial
  · next elements _ =>
    refine pure ?_
    cases elements[position]? with
    | none => trivial
    | some key => exact Bounded.below_key key ▸ trivial
  · next m _ =>
    refine pure ?_
    cases m.at? position <;> trivial
  · exact pure trivial

theorem iteratorOf (v : Value) : Ages n (Run.iteratorOf v) := by
  refine of_still fun n' _ => ?_
  cases v with
  | object id =>
    refine Still.heap.bind fun h hh => ?_
    split
    · exact .pure ⟨trivial, trivial⟩
    · exact .fail _
  | _ => exact .fail _

theorem nextValue (v : Value) : Ages n (Run.nextValue v) := by
  refine (iteratorOf v).bind fun _ (id, it) _ _ => ?_
  have hadvance {n : Nat} (source : Sequence) (position : Nat) :
      Ages n (Run.setContent id (.iterator { it with source := source, position := position, count := it.count + 1 })) :=
    setContent trivial
  dsimp only
  split
  · exact (hadvance _ _).bind fun _ _ _ _ => pure trivial
  · exact (hadvance _ _).bind fun _ _ _ _ => pure trivial
  · exact (hadvance _ _).bind fun _ _ _ _ => takeElement _ _ _

theorem prepare {v : Value} (hv : below n v) (byRef : Bool) : Ages n (Run.prepare v byRef) := by
  cases byRef with
  | true => exact (cellFor hv).bind fun _ _ _ hcell => pure hcell
  | false => exact heap.bind fun _ h hle hh => pure (hh.resolve (Bounded.mono hle hv))

end Ages

end Rill
