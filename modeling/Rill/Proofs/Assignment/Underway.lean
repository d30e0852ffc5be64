-- SUMMARY: Machines between the instructions of an assignment: what variables hold there, and what the next step does.
import Rill.Proofs.Assignment.Elements
import Rill.Proofs.Loops.Rounds

/-!
# Ways down in the code

Between the instructions of an assignment, the value to be assigned is on the stack, and behind it what the path has come
to. Constants and variables that are read as indices change nothing and select what they selected before. The step
that is next leads on as it does in the tree.
-/

namespace Rill

open Layout

namespace Machine

-- ---------------------------------------------------------------------------
-- Machines on the way
-- ---------------------------------------------------------------------------

/-- The steps of a call lead from one machine to another. -/
def Arrives (outer : Nat) (m m' : Machine) : Prop := ∃ t, m.after outer t = some m'

section Steps

variable {outer pc i j : Nat} {m m' m'' : Machine} {f : Frame} {rest : List Activation} {ops ops' : List Value}
  {op : Instruction} {v : Value} {e : Failure}

theorem Arrives.refl (outer : Nat) (m : Machine) : Arrives outer m m := ⟨0, after_zero⟩

theorem Arrives.trans (h : Arrives outer m m') (h' : Arrives outer m' m'') : Arrives outer m m'' := by
  obtain ⟨t, ht⟩ := h
  obtain ⟨u, hu⟩ := h'
  exact ⟨t + u, by rw [after_add, ht, Option.bind_some, hu]⟩

/-- The instruction does its work and the next one follows. -/
def Plain (op : Instruction) : Prop :=
  ∀ f, Run.perform f op = (Run.performPlain f op >>= fun _ => pure .next)

theorem arrives_plain (houter : outer ≤ rest.length) (has : f.routine.Has pc op) (hop : Plain op)
    (h : Run.performPlain { f with ip := pc } op (m.poised f rest pc ops) = .ok () (m'.poised f rest pc ops')) :
    Arrives outer (m.poised f rest pc ops) (m'.poised f rest (pc + 1) ops') := by
  have hstep : Run.attempt outer (m.poised f rest pc ops) = .ok () (m'.poised f rest (pc + 1) ops') :=
    next_poised has (by rw [hop, Run.bind_of_ok h]; rfl)
  exact ⟨1, (after_step (Nat.lt_succ_of_le houter) hstep).trans after_zero⟩

theorem step_plain_fails (has : f.routine.Has pc op) (hop : Plain op)
    (h : Run.performPlain { f with ip := pc } op (m.poised f rest pc ops) = .error e m') :
    Run.step (m.poised f rest pc ops) = .error e m' := by
  rw [step_poised has, Run.bind_of_error]
  rw [hop, Run.bind_of_error h]

theorem popMany_poised (ops vs : List Value) :
    Run.popMany vs.length (m.poised f rest pc (ops ++ vs)) = .ok vs.toArray (m.poised f rest pc ops) := by
  let now := m.poised f rest pc (ops ++ vs)
  have hstack : now.stack = (m.poised f rest pc ops).stack ++ vs.toArray := by simp [now, poised]
  have hsize : ¬now.stack.size < vs.length := by simp [hstack]
  have hleft : now.stack.shrink (now.stack.size - vs.length) = (m.poised f rest pc ops).stack := by simp [hstack]
  have htaken : now.stack.extract (now.stack.size - vs.length) = vs.toArray := by simp [hstack]
  rw [Run.popMany, Run.bind_get]
  simp only [now, if_neg hsize]
  change EStateM.Result.ok (now.stack.extract (now.stack.size - vs.length))
    { now with stack := now.stack.shrink (now.stack.size - vs.length) } = _
  rw [hleft, htaken]
  rfl

end Steps

-- ---------------------------------------------------------------------------
-- Variables
-- ---------------------------------------------------------------------------

section Variables

variable {m : Machine} {f : Frame} {rest : List Activation} {ops : List Value} {pc : Nat} {s : Seat} {slot : Slot}
  {v : Value}

theorem seat?_poised (hs : m.seat? f slot = some s) :
    (m.poised f rest pc ops).seat? { f with ip := pc } slot = some s := by
  cases slot with
  | frame i =>
    obtain ⟨v, hv, rfl⟩ := Option.map_eq_some_iff.mp hs
    obtain ⟨hi, -⟩ := Array.getElem?_eq_some_iff.mp hv
    simp only [seat?, poised, Array.getElem?_append_left hi, hv, Option.map_some]
  | captured i => exact hs
  | global k => exact hs

theorem held?_poised (hv : m.held? s = some v) : (m.poised f rest pc ops).held? s = some v := by
  cases s with
  | slot k =>
    obtain ⟨hk, -⟩ := Array.getElem?_eq_some_iff.mp hv
    exact (Array.getElem?_append_left hk).trans hv
  | global name => exact hv
  | inside holder k => exact hv

theorem cellValue_held {c : CellId} (hv : m.held? (.inside (.cell c) 0) = some v) : m.heap.cellValue c = v := by
  have hcell : (m.heap.cell? c).toList[0]? = some v := hv
  cases hc : m.heap.cell? c with
  | none =>
    rw [hc] at hcell
    cases hcell
  | some w =>
    rw [hc] at hcell
    cases hcell
    exact congrArg (·.getD .null) hc

/-- What is behind a place is its value. -/
theorem resolve_behind (place : Seat) {u : Value} (hu : m.held? place = some u)
    (hv : m.held? (behind place u) = some v) : m.heap.resolve u = v := by
  cases u with
  | cell c => exact cellValue_held hv
  | _ => exact Option.some.inj (hu.symm.trans hv)

/-- A variable is read. -/
theorem readSlot_value (hs : m.seat? f slot = some s) (hv : m.held? s = some v) :
    Run.readSlot f slot .value m = .ok v m := by
  cases slot with
  | frame i =>
    obtain ⟨u, hu, rfl⟩ := Option.map_eq_some_iff.mp hs
    have hlocal : Run.local? f i m = .ok u m := by
      rw [Run.local?, Run.bind_get, hu]
      rfl
    rw [← resolve_behind (.slot (f.base + i)) hu hv]
    exact (Run.bind_of_ok hlocal).trans rfl
  | captured i =>
    obtain ⟨c, hc, rfl⟩ := Option.map_eq_some_iff.mp hs
    have hcell : Run.capturedCell f i m = .ok c m := by
      rw [Run.capturedCell, hc]
      rfl
    rw [← cellValue_held hv]
    exact (Run.bind_of_ok hcell).trans rfl
  | global k =>
    obtain ⟨name, hname, hs⟩ := Option.bind_eq_some_iff.mp hs
    obtain ⟨u, hu, rfl⟩ := Option.map_eq_some_iff.mp hs
    have hconstant : Run.constant f k m = .ok name m := by
      rw [Run.constant, hname]
      rfl
    have hglobal : Run.global name m = .ok u m := by
      rw [Run.global, Run.bind_get, hu]
      rfl
    rw [← resolve_behind (.global name) hu hv]
    exact (Run.bind_of_ok hconstant).trans ((Run.bind_of_ok hglobal).trans rfl)

end Variables

-- ---------------------------------------------------------------------------
-- Operands
-- ---------------------------------------------------------------------------

/-- The expression is a constant or a variable, and has the value. -/
inductive Reads (m : Machine) (f : Frame) (out : Outer) (Γ : Env) : Expr → Value → Prop
  | null (site : Site) : Reads m f out Γ (.null site) .null
  | nan (site : Site) : Reads m f out Γ (.nan site) (.float (0.0 / 0.0))
  | bool (site : Site) (b : Bool) : Reads m f out Γ (.bool site b) (.bool b)
  | int (site : Site) (n : Int64) : Reads m f out Γ (.int site n) (.int n)
  | float (site : Site) (x : Float) : Reads m f out Γ (.float site x) (.float x)
  | str (site : Site) (s : String) : Reads m f out Γ (.str site s) (.text s)
  | ident {site : Site} {name : String} {s : Seat} {v : Value} (bound : ∃ slot, Denotes f.routine out Γ name slot)
      (seat : ∀ slot, Denotes f.routine out Γ name slot → m.seat? f slot = some s) (held : m.held? s = some v) :
      Reads m f out Γ (.ident site name) v

section Operands

variable {m : Machine} {f : Frame} {rest : List Activation} {out : Outer} {Γ : Env} {e : Expr} {v : Value}
  {debug : Bool} {outer i j : Nat} {ops vs : List Value} {es : List Expr}

/-- The code of a constant or a variable is one instruction, which pushes the value. -/
theorem Reads.instruction (h : m.Reads f out Γ e v) (hcode : Places anywhere debug f.routine out Γ .value e i j)
    (rest : List Activation) (ops : List Value) : j = i + 1 ∧ ∃ op, f.routine.Has i op ∧ Plain op ∧
      Run.performPlain { f with ip := i } op (m.poised f rest i ops) = Run.push v (m.poised f rest i ops) := by
  cases h with
  | null | nan | bool => exact ⟨hcode.2, _, hcode.1, fun _ => rfl, rfl⟩
  | int site n =>
    obtain ⟨hint, hj⟩ := hcode
    unfold PlacesInt at hint
    split at hint
    · next hsmall =>
      refine ⟨hj, _, hint, fun _ => rfl, ?_⟩
      change Run.push (.int n.toInt16.toInt64) _ = _
      rw [Evaluation.Stage.toInt64_toInt16 hsmall]
    · obtain ⟨k, has, hk⟩ := hint
      refine ⟨hj, _, has, fun _ => rfl, ?_⟩
      change Run.pushConstant f.routine.integers k Value.int _ = _
      rw [Run.pushConstant, hk]
  | float site x =>
    obtain ⟨⟨k, has, hk⟩, hj⟩ := hcode
    refine ⟨hj, _, has, fun _ => rfl, ?_⟩
    change Run.pushConstant f.routine.floats k Value.float _ = _
    rw [Run.pushConstant, hk]
  | str site s =>
    obtain ⟨⟨k, has, hk⟩, hj⟩ := hcode
    refine ⟨hj, _, has, fun _ => rfl, ?_⟩
    change Run.pushConstant f.routine.strings k Value.text _ = _
    rw [Run.pushConstant, hk]
  | ident _ hseat hheld =>
    obtain ⟨⟨slot, has, hslot⟩, hj⟩ := hcode
    refine ⟨hj, _, has, fun _ => rfl, Run.bind_of_ok ?_⟩
    exact readSlot_value (seat?_poised (hseat slot hslot)) (held?_poised hheld)

theorem Reads.arrives (h : m.Reads f out Γ e v) (hcode : Places anywhere debug f.routine out Γ .value e i j)
    (houter : outer ≤ rest.length) (hroom : m.stack.size + ops.length < m.config.stackLimit) :
    Arrives outer (m.poised f rest i ops) (m.poised f rest j (ops ++ [v])) := by
  obtain ⟨rfl, op, has, hop, hrun⟩ := h.instruction hcode rest ops
  exact arrives_plain houter has hop (hrun.trans (push_poised v hroom))

/-- The code of constants and variables in a row pushes their values. -/
theorem reads_arrive (h : List.Forall₂ (m.Reads f out Γ) es vs)
    (hcode : PlacesAll anywhere debug f.routine out Γ es i j) (houter : outer ≤ rest.length)
    (hroom : m.stack.size + ops.length + vs.length ≤ m.config.stackLimit) :
    Arrives outer (m.poised f rest i ops) (m.poised f rest j (ops ++ vs)) := by
  induction h generalizing i ops with
  | nil =>
    obtain rfl : j = i := hcode
    rw [List.append_nil]
    exact .refl _ _
  | @cons e v es vs he _ ih =>
    obtain ⟨k, hfirst, hcode⟩ := hcode
    rw [List.length_cons] at hroom
    have hnext : Arrives outer (m.poised f rest k (ops ++ [v])) (m.poised f rest j (ops ++ [v] ++ vs)) :=
      ih hcode (by rw [List.length_append, List.length_singleton]; omega)
    rw [List.append_assoc, List.singleton_append] at hnext
    exact (he.arrives hfirst houter (by omega)).trans hnext

end Operands

-- ---------------------------------------------------------------------------
-- Ways down in the code
-- ---------------------------------------------------------------------------

/-- The machine with a value on top of its stack. -/
def bearing (m : Machine) (v : Value) : Machine := { m with stack := m.stack ++ [v].toArray }

section Frames

variable {m₀ m : Machine} {f : Frame} {rest : List Activation} {s₀ s t : Seat} {slot : Slot} {v v₀ a w x : Value}
  {d₀ d : Datum} {path : List PlaceStep} {pc : Nat}

/-- Which instructions are next does not matter for a way down. -/
theorem Opens.control {control₀ control : List Activation} (h : m₀.Opens m s₀ v₀ d₀ path s w d)
    (hcontrol₀ : control₀.flatMap (·.references) = m₀.control.flatMap (·.references))
    (hcontrol : control.flatMap (·.references) = m.control.flatMap (·.references)) :
    Opens { m₀ with control := control₀ } { m with control := control } s₀ v₀ d₀ path s w d := by
  have hroots {m : Machine} {control : List Activation}
      (hcontrol : control.flatMap (·.references) = m.control.flatMap (·.references)) (s : Seat) :
      Machine.rootsBut { m with control := control } s = m.rootsBut s := by
    cases s <;> simp only [rootsBut, roots, hcontrol]
  have hwithout {m : Machine} {control : List Activation}
      (hcontrol : control.flatMap (·.references) = m.control.flatMap (·.references)) (s : Seat) :
      Machine.Without { m with control := control } s = m.Without s := by
    funext x
    exact propext (without_congr (hroots hcontrol s) fun _ _ => rfl)
  have hall : Machine.roots { m with control := control } = m.roots := hroots hcontrol (.inside .null 0)
  have hheld : Machine.held? { m with control := control } s₀ = m.held? s₀ := by cases s₀ <;> rfl
  refine ⟨h.classes, hall ▸ h.intact, hheld.trans h.held, h.leads, hall ▸ h.known, h.denotes, ?_, ?_, ?_, ?_⟩
  · exact hwithout hcontrol s ▸ h.sole
  · rw [hwithout hcontrol s, hwithout hcontrol₀ s₀]
    exact h.keeps
  · exact hwithout hcontrol s ▸ h.outside
  · exact hwithout hcontrol s ▸ h.whole

theorem held?_kept (hbeside : (m₀.put s₀ v₀).Beside m) (hclasses : m.heap.classes = m₀.heap.classes) (hne : t ≠ s₀)
    (hsame : ∀ y, t.holder? = some y → Same m₀.heap m.heap y) : m.held? t = m₀.held? t := by
  cases t with
  | slot k =>
    have hstack : m.stack[k]? = (m₀.put s₀ v₀).stack[k]? := congrArg (·[k]?) hbeside.stack
    refine hstack.trans ?_
    cases s₀ with
    | slot j => exact Array.getElem?_setIfInBounds_ne fun hjk => hne (congrArg Seat.slot hjk.symm)
    | _ => rfl
  | global name =>
    have hglobals : m.globals.find? name = (m₀.put s₀ v₀).globals.find? name := congrArg (·.find? name) hbeside.globals
    refine hglobals.trans ?_
    cases s₀ with
    | global other =>
      exact (OrderedMap.find?_insert ..).trans (if_neg fun heq => hne (congrArg Seat.global heq))
    | _ => rfl
  | inside holder k => exact congrArg (·[k]?) (links_of_same (hsame holder rfl) hclasses)

/-- A variable is where it was. -/
theorem seat?_kept (hbeside : (m₀.put s₀ v₀).Beside m) (hclasses : m.heap.classes = m₀.heap.classes)
    (ha : m₀.held? s₀ = some a) (hplain : a.isCell = false) (hplain' : v₀.isCell = false)
    (ht : m₀.seat? f slot = some t) : m.seat? f slot = some t := by
  cases slot with
  | frame i =>
    obtain ⟨u, hu, rfl⟩ := Option.map_eq_some_iff.mp ht
    by_cases hs : s₀ = .slot (f.base + i)
    · subst hs
      obtain ⟨hi, -⟩ := Array.getElem?_eq_some_iff.mp hu
      obtain rfl : u = a := Option.some.inj (hu.symm.trans ha)
      have hnew : m.stack[f.base + i]? = some v₀ :=
        (congrArg (·[f.base + i]?) hbeside.stack).trans (Array.getElem?_setIfInBounds_self_of_lt hi)
      simp only [seat?, hnew, Option.map_some, behind_plain hplain, behind_plain hplain']
    · have hold : m.stack[f.base + i]? = some u :=
        (held?_kept (t := .slot (f.base + i)) hbeside hclasses (Ne.symm hs) nofun).trans hu
      simp only [seat?, hold, Option.map_some]
  | captured i => exact ht
  | global k =>
    obtain ⟨name, hname, ht⟩ := Option.bind_eq_some_iff.mp ht
    obtain ⟨u, hu, rfl⟩ := Option.map_eq_some_iff.mp ht
    by_cases hs : s₀ = .global name
    · subst hs
      obtain rfl : u = a := Option.some.inj (hu.symm.trans ha)
      have hnew : m.globals.find? name = some v₀ :=
        (congrArg (·.find? name) hbeside.globals).trans ((OrderedMap.find?_insert ..).trans (if_pos rfl))
      simp only [seat?, hname, Option.bind_some, hnew, Option.map_some, behind_plain hplain, behind_plain hplain']
    · have hold : m.globals.find? name = some u :=
        (held?_kept (t := .global name) hbeside hclasses (Ne.symm hs) nofun).trans hu
      simp only [seat?, hname, Option.bind_some, hold, Option.map_some]

/-- The value of a variable is in its slot or its global, or in the cell there, or in a captured cell. -/
theorem seat?_cases (hs : m.seat? f slot = some s) :
    (∃ place u, place.holder? = none ∧ m.held? place = some u ∧ behind place u = s) ∨
      ∃ c ∈ f.closure.captured, s = .inside (.cell c) 0 := by
  cases slot with
  | frame i =>
    obtain ⟨u, hu, hs⟩ := Option.map_eq_some_iff.mp hs
    exact .inl ⟨.slot (f.base + i), u, rfl, hu, hs⟩
  | captured i =>
    obtain ⟨c, hc, rfl⟩ := Option.map_eq_some_iff.mp hs
    exact .inr ⟨c, Array.mem_of_getElem? hc, rfl⟩
  | global k =>
    obtain ⟨name, -, hs⟩ := Option.bind_eq_some_iff.mp hs
    obtain ⟨u, hu, hs⟩ := Option.map_eq_some_iff.mp hs
    exact .inl ⟨.global name, u, rfl, hu, hs⟩

theorem captured_mem_roots (hcontrol : m.control = .script f :: rest) {c : CellId} (hc : c ∈ f.closure.captured) :
    .cell c ∈ m.roots := by
  have hmem : .cell c ∈ (Activation.script f).references := List.mem_map_of_mem (Array.mem_toList_iff.mpr hc)
  have hreferences : .cell c ∈ m.control.flatMap (·.references) := by
    rw [hcontrol]
    exact List.mem_flatMap.mpr ⟨_, List.mem_cons_self, hmem⟩
  simp only [roots, List.mem_append]
  tauto

/-- A variable in a cell is in one that is referred to. -/
theorem seat?_holder {y : Value} (hcontrol : m.control = .script f :: rest) (hs : m.seat? f slot = some s)
    (hy : s.holder? = some y) : ∃ c, s = .inside (.cell c) 0 ∧ y = .cell c ∧ .cell c ∈ m.roots := by
  rcases seat?_cases hs with ⟨place, u, hplace, hu, rfl⟩ | ⟨c, hc, rfl⟩
  · cases u with
    | cell c => exact ⟨c, rfl, (Option.some.inj hy).symm, held_mem_roots hu hplace⟩
    | _ => cases hplace.symm.trans (hy : place.holder? = some y)
  · exact ⟨c, rfl, (Option.some.inj hy).symm, captured_mem_roots hcontrol hc⟩

/-- Variables hold no cells. -/
theorem seat?_plain (hi : m.heap.Intact m.roots) (hcontrol : m.control = .script f :: rest)
    (hs : m.seat? f slot = some s) (hx : m.held? s = some x) : x.isCell = false := by
  cases hholder : s.holder? with
  | some y =>
    obtain ⟨c, rfl, -, hc⟩ := seat?_holder hcontrol hs hholder
    obtain ⟨w, hw, hplain⟩ := hi.cell (.start hc)
    have hcell : (m.heap.cell? c).toList[0]? = some x := hx
    rw [hw] at hcell
    cases hcell
    exact hplain
  | none =>
    rcases seat?_cases hs with ⟨place, u, -, hu, rfl⟩ | ⟨c, -, rfl⟩
    · cases u with
      | cell c => cases hholder
      | _ =>
        cases hu.symm.trans hx
        rfl
    · cases hholder

end Frames

/-- A frame with a variable that holds a tree is about to assign the value on top of the stack. -/
structure Starts (m : Machine) (f : Frame) (rest : List Activation) (v a : Value) (s : Seat) (d : Datum) : Prop where
  control : m.control = .script f :: rest
  intact : m.heap.Intact (m.bearing v).roots
  seat : ∃ slot, m.seat? f slot = some s
  held : m.held? s = some a
  tree : m.heap.Denotes a d

/-- The way down from the variable has come to a value; the value to be assigned is on the stack still. -/
structure Underway (m₀ m : Machine) (v : Value) (s₀ : Seat) (v₀ : Value) (d₀ : Datum) (path : List PlaceStep)
    (w : Value) (d : Datum) : Prop where
  beside : (m₀.put s₀ v₀).Beside m
  opens : ∃ s, (m₀.bearing v).Opens (m.bearing v) s₀ v₀ d₀ path s w d

section Underways

variable {m₀ m : Machine} {f : Frame} {rest : List Activation} {out : Outer} {Γ : Env} {s₀ : Seat} {v v₀ a w x : Value}
  {d₀ d : Datum} {path : List PlaceStep} {e : Expr} {es : List Expr} {xs : List Value}

theorem put_control (m : Machine) (s : Seat) (x : Value) : (m.put s x).control = m.control := by
  cases s <;> rfl

theorem held?_bearing {t : Seat} (ht : m.held? t = some x) (v : Value) : (m.bearing v).held? t = some x := by
  cases t with
  | slot k =>
    obtain ⟨hk, -⟩ := Array.getElem?_eq_some_iff.mp ht
    exact (Array.getElem?_append_left hk).trans ht
  | _ => exact ht

theorem roots_subset_bearing (m : Machine) (v : Value) : m.roots ⊆ (m.bearing v).roots := by
  intro x hx
  simp only [roots, bearing, Array.toList_append, List.mem_append] at hx ⊢
  tauto

theorem Underway.control (h : m₀.Underway m v s₀ v₀ d₀ path w d) : m.control = m₀.control := by
  rw [h.beside]
  exact put_control m₀ s₀ v₀

/-- The variable holds what the way down has started at. -/
theorem Underway.held (h : m₀.Underway m v s₀ v₀ d₀ path w d) (hstarts : m₀.Starts f rest v a s₀ d₀) :
    m.held? s₀ = some v₀ := by
  obtain ⟨s, hopens⟩ := h.opens
  have ha := hstarts.held
  cases s₀ with
  | slot k =>
    obtain ⟨hk, -⟩ := Array.getElem?_eq_some_iff.mp ha
    exact (congrArg (·[k]?) h.beside.stack).trans (Array.getElem?_setIfInBounds_self_of_lt hk)
  | global name =>
    exact (congrArg (·.find? name) h.beside.globals).trans ((OrderedMap.find?_insert ..).trans (if_pos rfl))
  | inside holder k => exact hopens.held

/-- What another variable holds is reached without the one that is assigned to. -/
theorem Starts.without {slot : Slot} {t : Seat} (hstarts : m₀.Starts f rest v a s₀ d₀)
    (ht : m₀.seat? f slot = some t) (hne : t ≠ s₀) :
    (∀ y, t.holder? = some y → (m₀.bearing v).Without s₀ y ∧ s₀.holder? ≠ some y) ∧
      ∀ x, m₀.held? t = some x → (m₀.bearing v).Without s₀ x := by
  have hholder (y : Value) (hy : t.holder? = some y) : (m₀.bearing v).Without s₀ y ∧ s₀.holder? ≠ some y := by
    obtain ⟨c, rfl, rfl, hc⟩ := seat?_holder hstarts.control ht hy
    constructor
    · have hroot := roots_subset_bearing m₀ v hc
      refine .start ((mem_roots_cases (held?_bearing hstarts.held v) hroot).resolve_left fun heq => ?_)
      have hplain := hstarts.tree.isCell
      rw [← heq] at hplain
      cases hplain
    · intro hsame
      obtain ⟨slot', hslot'⟩ := hstarts.seat
      obtain ⟨c', rfl, heq, -⟩ := seat?_holder hstarts.control hslot' hsame
      cases heq
      exact hne rfl
  exact ⟨hholder, fun x hx => held_without hne (held?_bearing hx v) hholder⟩

/-- On the way down, constants and variables select what they selected before. -/
theorem Underway.reads (h : m₀.Underway m v s₀ v₀ d₀ path w d) (hstarts : m₀.Starts f rest v a s₀ d₀)
    (he : m₀.Reads f out Γ e x) :
    ∃ y, m.Reads f out Γ e y ∧ m₀.heap.Selects m.heap x y ∧ m.heap.Knows (m.bearing v).roots y := by
  obtain ⟨s, hopens⟩ := h.opens
  have hscalar {x : Value} (hx : x.isScalar) : m₀.heap.Selects m.heap x x := Heap.selects_scalar hopens.classes hx
  cases he with
  | null | nan | bool | int | float | str => exact ⟨_, by constructor, hscalar rfl, .inl rfl⟩
  | @ident site name t x hbound hseat hheld =>
    obtain ⟨slot, hslot⟩ := hbound
    have ht := hseat slot hslot
    have hheld₀ := h.held hstarts
    have hkept {slot : Slot} (hslot : m₀.seat? f slot = some t) : m.seat? f slot = some t :=
      seat?_kept h.beside hopens.classes hstarts.held hstarts.tree.isCell hopens.unchanged.isCell hslot
    have hreached {y : Value} (hy : m.held? t = some y) : m.heap.Knows (m.bearing v).roots y := by
      refine .inr (held_reached (held?_bearing hy v) fun z hz => .start ?_)
      obtain ⟨c, -, rfl, hc⟩ := seat?_holder ((h.control).trans hstarts.control) (hkept ht) hz
      exact roots_subset_bearing m v hc
    by_cases hne : t = s₀
    · subst hne
      cases hheld.symm.trans hstarts.held
      exact ⟨v₀, .ident ⟨slot, hslot⟩ (fun slot hslot => hkept (hseat slot hslot)) hheld₀,
        hstarts.tree.selects hopens.unchanged hopens.classes, hreached hheld₀⟩
    · obtain ⟨hholder, hwithout⟩ := hstarts.without ht hne
      have hy : m.held? t = some x := (held?_kept h.beside hopens.classes hne fun y hy =>
        hopens.keeps (fun y _ => same_refl m.heap y) (hholder y hy).1 (hholder y hy).2).trans hheld
      refine ⟨x, .ident ⟨slot, hslot⟩ (fun slot hslot => hkept (hseat slot hslot)) hy, ?_, hreached hy⟩
      have hplain := seat?_plain (hstarts.intact.subset (roots_subset_bearing m₀ v)) hstarts.control ht hheld
      cases x with
      | cell c => cases hplain
      | object i =>
        have hobject : m.heap.object? i = m₀.heap.object? i := by
          refine hopens.keeps (fun y _ => same_refl m.heap y) (hwithout _ hheld) fun hseat => ?_
          obtain ⟨slot', hslot'⟩ := hstarts.seat
          obtain ⟨c, -, heq, -⟩ := seat?_holder hstarts.control hslot' hseat
          cases heq
        have hclasses : m.heap.classes = m₀.heap.classes := hopens.classes
        exact Heap.selects_object (by simp only [Heap.typeName, Heap.classOf, Heap.resolve, hobject, hclasses])
      | _ => exact hscalar rfl

/-- So it is for constants and variables in a row. -/
theorem Underway.reads_all (h : m₀.Underway m v s₀ v₀ d₀ path w d) (hstarts : m₀.Starts f rest v a s₀ d₀)
    (he : List.Forall₂ (m₀.Reads f out Γ) es xs) :
    ∃ ys, List.Forall₂ (m.Reads f out Γ) es ys ∧ List.Forall₂ (m₀.heap.Selects m.heap) xs ys ∧
      ∀ y ∈ ys, m.heap.Knows (m.bearing v).roots y := by
  induction he with
  | nil => exact ⟨[], .nil, .nil, nofun⟩
  | cons hfirst _ ih =>
    obtain ⟨y, hy, hselects, hknown⟩ := h.reads hstarts hfirst
    obtain ⟨ys, hys, hall, hknowns⟩ := ih
    exact ⟨y :: ys, .cons hy hys, .cons hselects hall, fun z hz =>
      (List.mem_cons.mp hz).elim (fun heq => heq ▸ hknown) (hknowns z)⟩

theorem references_poised (hcontrol : m.control = .script f :: rest) (pc : Nat) :
    (Activation.script { f with ip := pc } :: rest).flatMap (·.references) = m.control.flatMap (·.references) := by
  rw [hcontrol]
  rfl

/-- The way down goes on with a step, wherever the code of the step stands. -/
theorem Underway.step {step step' : PlaceStep} (h : m₀.Underway m v s₀ v₀ d₀ path w d)
    (hcontrol : m₀.control = .script f :: rest) (halike : step.Alike m₀.heap m.heap step')
    (hknown : ∀ y ∈ step'.indices, m.heap.Knows (m.bearing v).roots y) (hstores : d.Stores m₀.heap step) (pc : Nat) :
    match d.child m₀.heap step with
    | .ok c => ∃ m' own, Run.ownStep w step' (m.poised f rest pc [v]) = .ok own (m'.poised f rest pc [v]) ∧
        m₀.Underway m' v s₀ v₀ d₀ (path ++ [step]) own c
    | .error e => Run.ownStep w step' (m.poised f rest pc [v]) = .error e (m.poised f rest pc [v]) := by
  obtain ⟨s, hopens⟩ := h.opens
  have hreferences := references_poised (h.control.trans hcontrol) pc
  have hpoised : (m₀.bearing v).Opens (m.poised f rest pc [v]) s₀ v₀ d₀ path s w d := hopens.control rfl hreferences
  have hroots : (m.poised f rest pc [v]).roots = (m.bearing v).roots := by
    simp only [roots, poised, bearing, hreferences]
  have hgoes : (m₀.bearing v).Goes (m.poised f rest pc [v]) s₀ v₀ d₀ path step (d.child m₀.heap step)
      (Run.ownStep w step' (m.poised f rest pc [v])) :=
    hpoised.own_step halike (fun y hy => hroots ▸ hknown y hy) hstores
  generalize d.child m₀.heap step = result at hgoes ⊢
  generalize Run.ownStep w step' (m.poised f rest pc [v]) = run at hgoes ⊢
  cases result with
  | ok c =>
    cases run with
    | ok own after =>
      obtain ⟨hbeside, s, hafter⟩ := hgoes
      let m' : Machine := { m with heap := after.heap, files := after.files, registrations := after.registrations }
      have heq : after = m'.poised f rest pc [v] := hbeside
      refine ⟨m', own, by rw [heq], h.beside.trans rfl, s, ?_⟩
      rw [heq] at hafter
      exact hafter.control rfl hreferences.symm
    | error e after => exact hgoes.elim
  | error e =>
    cases run with
    | ok own after => exact hgoes.elim
    | error e' after =>
      obtain ⟨rfl, rfl⟩ := hgoes
      rfl

theorem put_poised {pc : Nat} {ops : List Value} (ha : m.held? s₀ = some a) (x : Value) :
    (m.poised f rest pc ops).put s₀ x = (m.put s₀ x).poised f rest pc ops := by
  cases s₀ with
  | slot k =>
    obtain ⟨hk, -⟩ := Array.getElem?_eq_some_iff.mp ha
    simp only [Machine.put, poised, Array.setIfInBounds_append_left hk]
  | _ => rfl

/-- The way down starts where the variable is read. -/
theorem Starts.underway {slot : Slot} (hstarts : m₀.Starts f rest v a s₀ d₀) (hslot : m₀.seat? f slot = some s₀)
    (pc : Nat) : ∃ m own, Run.readSlot { f with ip := pc } slot .unique (m₀.poised f rest pc [v]) =
      .ok own (m.poised f rest pc [v]) ∧ m₀.Underway m v s₀ own d₀ [] own d₀ := by
  have hreferences := references_poised hstarts.control pc
  have hroots : (m₀.poised f rest pc [v]).roots = (m₀.bearing v).roots := by
    simp only [roots, poised, bearing, hreferences]
  have hmem {x : Value} (hx : x ∈ m₀.roots) : x ∈ (m₀.poised f rest pc [v]).roots :=
    hroots ▸ roots_subset_bearing m₀ v hx
  have hcell (y : Value) (hy : s₀.holder? = some y) : y.isCell ∧ y ∈ (m₀.poised f rest pc [v]).roots := by
    obtain ⟨c, -, rfl, hc⟩ := seat?_holder hstarts.control hslot hy
    exact ⟨rfl, hmem hc⟩
  have hi : (m₀.poised f rest pc [v]).heap.Intact (m₀.poised f rest pc [v]).roots := hroots ▸ hstarts.intact
  have hseat : (m₀.poised f rest pc [v]).seat? { f with ip := pc } slot = some s₀ := seat?_poised hslot
  obtain ⟨a', own, after, hrun, ha', hbeside, htakes⟩ := readSlot_takes hi
    (fun c hc => hmem (captured_mem_roots hstarts.control hc)) hseat
  cases ha'.symm.trans (held?_poised hstarts.held)
  rw [put_poised hstarts.held] at hbeside
  let m : Machine :=
    { m₀.put s₀ own with heap := after.heap, files := after.files, registrations := after.registrations }
  have heq : after = m.poised f rest pc [v] := hbeside
  refine ⟨m, own, heq ▸ hrun, rfl, s₀, ?_⟩
  have hopens := opens_root htakes hstarts.tree (.inr (held_reached ha' fun y hy => .start (hcell y hy).2))
    (fun y hy => (hcell y hy).1) fun y hy => .start (hcell y hy).2
  rw [heq] at hopens
  have hm : m.control = .script f :: rest := (put_control m₀ s₀ own).trans hstarts.control
  exact hopens.control hreferences.symm (references_poised hm pc).symm

end Underways

end Machine

end Rill
