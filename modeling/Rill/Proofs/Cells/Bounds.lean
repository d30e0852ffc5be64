-- SUMMARY: Data whose cells are among the first ones on a heap, and what keeps it so.
import Rill.Machine.Step
import Rill.Proofs.Safety.Tame

/-!
# Bounds on cells

Cells are numbered in the order in which they are made. Data is *below* a number if all cells that it
refers to have smaller ones. A machine is *whole* if everything in it is below the number of its cells:
none of its references leads nowhere. A new cell is then different from everything there is.
-/

namespace Rill

-- ---------------------------------------------------------------------------
-- Data
-- ---------------------------------------------------------------------------

/-- Data that may refer to cells. -/
class Bounded (α : Type) where
  below : Nat → α → Prop
  mono : ∀ {n n' : Nat} {a : α}, n ≤ n' → below n a → below n' a

namespace Bounded

/-- Data that refers to no cells. -/
instance (priority := low) plain {α : Type} : Bounded α where
  below _ _ := True
  mono _ h := h

instance : Bounded CellId where
  below n c := c.index < n
  mono hle h := Nat.lt_of_lt_of_le h hle

instance : Bounded Value where
  below
    | n, .cell c => c.index < n
    | _, _ => True
  mono {n n' v} hle h := by
    cases v with
    | cell c => exact Nat.lt_of_lt_of_le h hle
    | _ => trivial

section Collections

variable {α β κ : Type} [Bounded α] [Bounded β]

instance : Bounded (Option α) where
  below n a := ∀ b ∈ a, below n b
  mono hle h b hb := mono hle (h b hb)

instance : Bounded (Except Failure α) where
  below n x := ∀ a, x = .ok a → below n a
  mono hle h a ha := mono hle (h a ha)

instance : Bounded (α × β) where
  below n p := below n p.1 ∧ below n p.2
  mono hle h := ⟨mono hle h.1, mono hle h.2⟩

instance : Bounded (List α) where
  below n as := ∀ a ∈ as, below n a
  mono hle h a ha := mono hle (h a ha)

instance : Bounded (Array α) where
  below n as := ∀ a ∈ as, below n a
  mono hle h a ha := mono hle (h a ha)

instance : Bounded (OrderedMap κ α) where
  below n m := ∀ e ∈ m.entries, below n e.2
  mono hle h e he := mono hle (h e he)

end Collections

/-- Some native functions always give the same value. -/
instance : Bounded Native where
  below
    | n, .general (.constant v) => below n v
    | _, _ => True
  mono {n n' fn} hle h := by
    split at h
    · exact mono (α := Value) hle h
    · trivial

instance : Bounded Callable where
  below
    | n, .native fn _ => below n fn
    | _, .script .. => True
  mono {n n' c} hle h := by
    cases c with
    | native fn flags => exact mono (a := fn) hle h
    | script routine key => trivial

instance : Bounded Closure where
  below n c := below n c.captured ∧ below n c.callable
  mono hle h := ⟨mono hle h.1, mono hle h.2⟩

instance : Bounded Function where
  below n f := below n f.closures
  mono := mono (α := List Closure)

instance : Bounded Content where
  below
    | n, .list items => below n items
    | n, .table entries => below n entries
    | n, .function f => below n f
    | n, .space s => below n s.members
    | _, _ => True
  mono {n n' c} hle h := by
    cases c with
    | list items => exact mono (a := items) hle h
    | table entries => exact mono (a := entries) hle h
    | function f => exact mono (a := f) hle h
    | space s => exact mono (a := s.members) hle h
    | _ => trivial

instance : Bounded Accessor where
  below n a := below n a.getter ∧ below n a.setter
  mono hle h := ⟨mono hle h.1, mono hle h.2⟩

instance : Bounded ClassInfo where
  below n c := below n c.members ∧ below n c.accessors
  mono hle h := ⟨mono hle h.1, mono hle h.2⟩

instance : Bounded Activation where
  below
    | n, .script f => below n f.closure
    | n, .native w => below n w.args
    | _, .entering .. => True
  mono {n n' a} hle h := by
    cases a with
    | script f => exact mono (a := f.closure) hle h
    | native w => exact mono (a := w.args) hle h
    | entering args keepRef => trivial

instance : Bounded Reply where
  below
    | n, .value v => below n v
    | n, .call callee args _ => below n callee ∧ below n args
  mono {n n' r} hle h := by
    cases r with
    | value v => exact mono (a := v) hle h
    | call callee args guarded => exact ⟨mono (a := callee) hle h.1, mono (a := args) hle h.2⟩

end Bounded

open Bounded (below)

/-- What is on the heap is below the number. -/
structure Heap.Below (n : Nat) (h : Heap) : Prop where
  contents : ∀ id c, h.content? id = some c → below n c
  cells : ∀ id v, h.cell? id = some v → below n v
  classes : below n h.classes

instance : Bounded Heap where
  below := Heap.Below
  mono hle h := {
    contents := fun id c hc => Bounded.mono hle (h.contents id c hc)
    cells := fun id v hv => Bounded.mono hle (h.cells id v hv)
    classes := Bounded.mono hle h.classes }

/-- What is in the machine is below the number. -/
structure Machine.Below (n : Nat) (m : Machine) : Prop where
  heap : m.heap.Below n
  stack : below n m.stack
  globals : below n m.globals
  control : below n m.control
  held : below n m.held

instance : Bounded Machine where
  below := Machine.Below
  mono hle h := {
    heap := Bounded.mono (α := Heap) hle h.heap
    stack := Bounded.mono hle h.stack
    globals := Bounded.mono hle h.globals
    control := Bounded.mono hle h.control
    held := Bounded.mono hle h.held }

/-- Every cell that the machine refers to is on its heap. -/
def Machine.IsWhole (m : Machine) : Prop := m.Below m.heap.cells.size

/-- Data of the type refers to no cells. -/
class Cellfree (α : Type) [Bounded α] : Prop where
  below : ∀ (n : Nat) (a : α), below n a

namespace Cellfree

instance plain {α : Type} : @Cellfree α Bounded.plain := @Cellfree.mk α Bounded.plain fun _ _ => trivial

section Collections

variable {α β : Type} [Bounded α] [Bounded β] [Cellfree α] [Cellfree β]

instance : Cellfree (Option α) := ⟨fun n _ b _ => Cellfree.below n b⟩

instance : Cellfree (Except Failure α) := ⟨fun n _ a _ => Cellfree.below n a⟩

instance : Cellfree (α × β) := ⟨fun n p => ⟨Cellfree.below n p.1, Cellfree.below n p.2⟩⟩

instance : Cellfree (List α) := ⟨fun n _ a _ => Cellfree.below n a⟩

instance : Cellfree (Array α) := ⟨fun n _ a _ => Cellfree.below n a⟩

end Collections

end Cellfree

attribute [simp, grind .] Cellfree.below

-- ---------------------------------------------------------------------------
-- Reading bounds off
-- ---------------------------------------------------------------------------

namespace Bounded

variable {n : Nat}

section Collections

variable {α β κ : Type} [Bounded α] [Bounded β]

@[simp, grind =] theorem below_none : below n (none : Option α) = True := by simp [below]

@[simp, grind =] theorem below_some (a : α) : below n (some a) = below n a := by simp [below]

@[simp, grind =] theorem below_error (e : Failure) : below n (.error e : Except Failure α) = True := by
  simp [below]

@[simp, grind =] theorem below_ok (a : α) : below n (.ok a : Except Failure α) = below n a := by
  simp [below]

theorem ok {a : α} (h : below n a) : below n (.ok a : Except Failure α) := by
  rwa [below_ok]

omit [Bounded α] in
theorem below_except_bind {x : Except Failure α} {f : α → Except Failure β}
    (hf : ∀ a, x = .ok a → below n (f a)) : below n (x >>= f) := by
  cases x with
  | error e => exact nofun
  | ok a => exact hf a rfl

@[simp, grind =] theorem below_pair (a : α) (b : β) : below n (a, b) = (below n a ∧ below n b) := rfl

@[simp, grind =] theorem below_list (as : List α) : below n as = ∀ a ∈ as, below n a := rfl

@[simp, grind =] theorem below_array (as : Array α) : below n as = ∀ a ∈ as, below n a := rfl

@[grind =] theorem below_mk (as : List α) : below n (Array.mk as) = below n as := by simp

@[grind =] theorem below_map (m : OrderedMap κ α) : below n m = ∀ e ∈ m.entries, below n e.2 := rfl

end Collections

section Values

@[simp, grind =] theorem below_cell (c : CellId) : below n (Value.cell c) = (c.index < n) := rfl
@[simp, grind =] theorem below_null : below n Value.null = True := rfl
@[simp, grind =] theorem below_bool (b : Bool) : below n (Value.bool b) = True := rfl
@[simp, grind =] theorem below_int (i : Int64) : below n (Value.int i) = True := rfl
@[simp, grind =] theorem below_float (x : Float) : below n (Value.float x) = True := rfl
@[simp, grind =] theorem below_text (s : String) : below n (Value.text s) = True := rfl
@[simp, grind =] theorem below_object (id : ObjectId) : below n (Value.object id) = True := rfl
@[simp, grind =] theorem below_ofNat (k : Nat) : below n (Value.ofNat k) = True := rfl

@[simp, grind =] theorem below_key (k : Key) : below n k.value = True := by cases k <;> rfl

theorem below_of_plain {v : Value} (h : v.isCell = false) : below n v := by
  cases v with
  | cell c => cases h
  | _ => trivial

end Values

section Contents

@[simp, grind =] theorem below_contentList (items : Array Value) : below n (Content.list items) = below n items := rfl
@[simp, grind =] theorem below_contentTable (t : Table) : below n (Content.table t) = below n t := rfl
@[simp, grind =] theorem below_contentFunction (f : Function) : below n (Content.function f) = below n f.closures := rfl
@[simp, grind =] theorem below_contentSpace (s : Space) : below n (Content.space s) = below n s.members := rfl
@[simp, grind =] theorem below_contentSet (s : KeySet) : below n (Content.set s) = True := rfl
@[simp, grind =] theorem below_contentArray (m : Matrix) : below n (Content.array m) = True := rfl
@[simp, grind =] theorem below_contentClass (c : ClassId) : below n (Content.cls c) = True := rfl
@[simp, grind =] theorem below_contentIterator (it : Iterator) : below n (Content.iterator it) = True := rfl
@[simp, grind =] theorem below_contentRegex (m : Matcher) : below n (Content.regex m) = True := rfl
@[simp, grind =] theorem below_contentFile (f : Files.OpenFile) : below n (Content.file f) = True := rfl
@[simp, grind =] theorem below_closure (c : Closure) :
    below n c = (below n c.captured ∧ below n c.callable) := rfl
@[simp, grind =] theorem below_class (c : ClassInfo) :
    below n c = (below n c.members ∧ below n c.accessors) := rfl
@[simp, grind =] theorem below_value (v : Value) : below n (Reply.value v) = below n v := rfl
@[simp, grind =] theorem below_call (callee : Value) (args : Array Value) (guarded : Bool) :
    below n (Reply.call callee args guarded) = (below n callee ∧ below n args) := rfl
@[simp, grind =] theorem below_heap (h : Heap) : below n h = h.Below n := rfl
@[simp, grind =] theorem below_machine (m : Machine) : below n m = m.Below n := rfl

end Contents

-- ---------------------------------------------------------------------------
-- Ordered maps
-- ---------------------------------------------------------------------------

section Maps

variable {α β κ : Type} [Bounded α] [Bounded β] {m : OrderedMap κ α}

theorem below_mapValues (f : α → β) (hf : ∀ a, below n a → below n (f a)) (hm : below n m) :
    below n (m.map f) := by
  intro e he
  obtain ⟨⟨k, a⟩, ha, rfl⟩ := Array.mem_map.mp he
  exact hf a (hm _ ha)

@[grind .]
theorem below_values (hm : below n m) : below n m.values := by
  intro a ha
  obtain ⟨e, he, rfl⟩ := Array.mem_map.mp ha
  exact hm e he

@[grind .]
theorem below_empty : below n ({} : OrderedMap κ α) := by
  intro e he
  simp at he

variable [DecidableEq κ]

@[grind .]
theorem below_find? (hm : below n m) (key : κ) : below n (m.find? key) := by
  intro a ha
  obtain ⟨e, he, rfl⟩ := Option.map_eq_some_iff.mp ha
  exact hm e (Array.mem_of_find?_eq_some he)

@[grind .]
theorem below_found (hm : below n m) {key : κ} {a : α} (ha : m.find? key = some a) : below n a :=
  below_find? hm key a ha

@[grind .]
theorem below_insert (hm : below n m) (key : κ) {a : α} (ha : below n a) : below n (m.insert key a) := by
  intro e he
  unfold OrderedMap.insert at he
  split at he
  · obtain ⟨k, hk, rfl⟩ := Array.getElem_of_mem he
    rw [Array.getElem_modify]
    split
    · exact ha
    · exact hm _ (Array.getElem_mem _)
  · rcases Array.mem_push.mp he with he | rfl
    · exact hm e he
    · exact ha

@[grind .]
theorem below_erase (hm : below n m) (key : κ) : below n (m.erase key) := by
  intro e he
  unfold OrderedMap.erase at he
  split at he
  · refine hm e ?_
    rw [Array.eraseIdxIfInBounds] at he
    split at he
    · exact Array.mem_of_mem_eraseIdx he
    · exact he
  · exact hm e he

@[grind .]
theorem below_ofList {entries : List (κ × α)} (h : ∀ e ∈ entries, below n e.2) :
    below n (OrderedMap.ofList entries) := by
  have hfold (m : OrderedMap κ α) (hm : below n m) :
      below n (entries.foldl (fun m (k, v) => m.insert k v) m) := by
    induction entries generalizing m with
    | nil => exact hm
    | cons e rest ih =>
      exact ih (fun e he => h e (List.mem_cons_of_mem _ he)) _ (below_insert hm _ (h e List.mem_cons_self))
  exact hfold {} below_empty

end Maps

end Bounded

-- ---------------------------------------------------------------------------
-- Reading a heap
-- ---------------------------------------------------------------------------

namespace Heap.Below

variable {n : Nat} {h : Heap}

@[grind .]
theorem cellValue (hh : h.Below n) (id : CellId) : below n (h.cellValue id) := by
  rw [Heap.cellValue]
  cases hcell : (h.cells[id.index]?).join with
  | none => trivial
  | some v => exact hh.cells id v hcell

@[grind .]
theorem resolve (hh : h.Below n) {v : Value} (hv : below n v) : below n (h.resolve v) := by
  cases v with
  | cell id => exact hh.cellValue id
  | _ => exact hv

@[grind →]
theorem content? (hh : h.Below n) {id : ObjectId} {c : Content} (hc : h.content? id = some c) : below n c :=
  hh.contents id c hc

theorem object? (hh : h.Below n) {id : ObjectId} {o : Object} (ho : h.object? id = some o) :
    below n o.content :=
  hh.contents id o.content (by rw [Heap.content?, ho]; rfl)

@[grind →]
theorem contentOf (hh : h.Below n) {v : Value} {c : Content} (hc : h.contentOf v = some c) : below n c := by
  unfold Heap.contentOf at hc
  split at hc
  · exact hh.content? hc
  · cases hc

@[grind .]
theorem listOf (hh : h.Below n) (v : Value) : below n (h.listOf v) := by
  unfold Heap.listOf
  split
  · next items hitems =>
    have hbelow : below n items := hh.contentOf hitems
    intro _ hresolved w hw
    cases hresolved
    obtain ⟨u, hu, rfl⟩ := Array.mem_map.mp hw
    exact hh.resolve (hbelow u hu)
  · nofun

@[grind .]
theorem tableOf (hh : h.Below n) (v : Value) : below n (h.tableOf v) := by
  unfold Heap.tableOf
  split
  · next entries hentries =>
    intro _ hresolved
    cases hresolved
    exact Bounded.below_mapValues _ (fun _ hv => hh.resolve hv) (hh.contentOf hentries)
  · nofun

theorem inherited? {α : Type} {own : ClassInfo → Option α} [Bounded α]
    (hown : ∀ c ∈ h.classes, below n (own c)) (c : ClassId) : below n (h.classes.inherited? c own) := by
  intro a ha
  obtain ⟨ancestor, -, hfound⟩ := List.exists_of_findSome?_eq_some ha
  obtain ⟨info, hinfo, hmember⟩ := Option.bind_eq_some_iff.mp hfound
  exact hown info (Array.mem_of_getElem? hinfo) a hmember

@[grind .]
theorem member? (hh : h.Below n) (c : ClassId) (name : String) : below n (h.classes.member? c name) :=
  inherited? (fun info hinfo => Bounded.below_find? (hh.classes info hinfo).1 name) c

theorem accessor? (hh : h.Below n) (c : ClassId) (name : String) : below n (h.classes.accessor? c name) :=
  inherited? (fun info hinfo => Bounded.below_find? (hh.classes info hinfo).2 name) c

end Heap.Below

-- ---------------------------------------------------------------------------
-- Changing a heap
-- ---------------------------------------------------------------------------

namespace Heap.Below

variable {n : Nat} {h : Heap}

theorem setContent (hh : h.Below n) (id : ObjectId) {c : Content} (hc : below n c) :
    (h.setContent id c).Below n where
  contents other d hd := by
    rw [content?_setContent] at hd
    split at hd
    · obtain ⟨old, hold, rfl⟩ := Option.map_eq_some_iff.mp hd
      split
      · exact hc
      · exact hh.contents other old hold
    · exact hh.contents other d hd
  cells := hh.cells
  classes := hh.classes

theorem allocate (hh : h.Below n) (cls : ClassId) {c : Content} (hc : below n c) :
    (h.allocate cls c).2.Below n where
  contents id d hd := by
    rw [content?_allocate] at hd
    split at hd
    · cases hd
      exact hc
    · exact hh.contents id d hd
  cells := hh.cells
  classes := hh.classes

theorem setCell (hh : h.Below n) (id : CellId) {v : Value} (hv : below n v) : (h.setCell id v).Below n where
  contents := hh.contents
  cells other w hw := by
    simp only [Heap.cell?, Heap.setCell, Array.getElem?_setIfInBounds] at hw
    split at hw
    · split at hw
      · cases hw
        exact hh.resolve hv
      · cases hw
    · exact hh.cells other w hw
  classes := hh.classes

theorem allocateCell (hh : h.Below n) {v : Value} (hv : below n v) : (h.allocateCell v).2.Below n where
  contents := hh.contents
  cells other w hw := by
    simp only [Heap.cell?, Heap.allocateCell, Array.getElem?_push] at hw
    split at hw
    · cases hw
      exact hh.resolve hv
    · exact hh.cells other w hw
  classes := hh.classes

end Heap.Below

-- ---------------------------------------------------------------------------
-- Reclamation and collection
-- ---------------------------------------------------------------------------

namespace Machine

variable {n : Nat}

theorem Shrinks.cells_size {m m' : Machine} (h : m.Shrinks m') : m'.heap.cells.size = m.heap.cells.size := by
  simpa using h.cells.length_eq.symm

theorem Shrinks.below {m m' : Machine} (h : m.Shrinks m') (hm : m.Below n) : m'.Below n where
  heap := by
    refine ⟨fun id c hc => ?_, fun id v hv => ?_, ?_⟩
    · rw [Heap.content?] at hc
      rcases h.object? id with hsame | hgone
      · rw [hsame] at hc
        exact hm.heap.contents id c hc
      · simp [hgone] at hc
    · rcases h.cell? id with hsame | hgone
      · exact hm.heap.cells id v (hsame ▸ hv)
      · simp [hgone] at hv
    · rw [h.rest]
      exact hm.heap.classes
  stack := by
    rw [h.rest]
    exact hm.stack
  globals := by
    rw [h.rest]
    exact hm.globals
  control := by
    rw [h.rest]
    exact hm.control
  held := by
    rw [h.rest]
    exact hm.held

theorem cells_size_swept (m : Machine) : m.swept.heap.cells.size = m.heap.cells.size := by
  simp [swept, emptied]

theorem below_emptied {c d : Content} (hd : c.emptied? = some d) : below n d := by
  cases c <;> simp [Content.emptied?] at hd <;> subst hd
  case list => simp
  case table => exact Bounded.below_empty
  case function => simp
  case space => exact Bounded.below_empty
  all_goals trivial

theorem Below.swept {m : Machine} (hm : m.Below n) : m.swept.Below n where
  heap := by
    refine ⟨fun id c hc => ?_, fun id v hv => ?_, hm.heap.classes⟩
    · obtain ⟨o', ho', rfl⟩ := Option.map_eq_some_iff.mp hc
      rw [object?_swept] at ho'
      obtain ⟨o, ho, rfl⟩ := Option.map_eq_some_iff.mp ho'
      have hold : Bounded.below n o.content := hm.heap.object? ho
      split
      · cases hempty : o.content.emptied? with
        | none => exact hold
        | some d => exact below_emptied hempty
      · exact hold
    · rw [cell?_swept] at hv
      split at hv
      · exact hm.heap.cells id v hv
      · obtain ⟨_, -, rfl⟩ := Option.map_eq_some_iff.mp hv
        trivial
  stack := hm.stack
  globals := hm.globals
  control := hm.control
  held := hm.held

end Machine

end Rill
