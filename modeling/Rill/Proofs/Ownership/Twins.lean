-- SUMMARY: Machines whose variables hold like values, read in one of them and made ready for a change in the other.
import Rill.Proofs.Ownership.Paths

/-!
# Machines alike

Two machines are alike if what their variables hold is related one by one, by a relation under which no reading tells
the values of one heap from those of the other. What is only read in the first machine may be made ready for a change in
the second: the machines stay alike, and both computations come to related values or fail alike.
-/

namespace Rill

-- ---------------------------------------------------------------------------
-- Machines alike
-- ---------------------------------------------------------------------------

/-- Every class is stood for by an object. -/
def Heap.HasClasses (h : Heap) : Prop :=
  ∀ c info, h.classes.get? c = some info → ∃ cls, h.object? info.object = some ⟨cls, .cls c⟩

namespace Machine

/-- What calls, the host and the classes refer to. -/
def fixed (m : Machine) : List Value :=
  m.control.flatMap (·.references) ++ m.held ++ m.heap.classes.toList.map fun c => .object c.object

/-- Operands and globals of the two machines are related one by one, and what calls, the host and the classes refer to
stands for itself. -/
structure Alike (R : Value → Value → Prop) (m m' : Machine) : Prop where
  config : m'.config = m.config
  precall : m'.precall = m.precall
  references : m'.control.flatMap (·.references) = m.control.flatMap (·.references)
  held : m'.held = m.held
  stack : List.Forall₂ R m.stack.toList m'.stack.toList
  globals : m.globals.Alike R m'.globals
  simulates : m.heap.Simulates R m'.heap
  classes : m.heap.HasClasses
  fixed {x : Value} : x ∈ m.fixed → R x x

section Alike

variable {R S : Value → Value → Prop} {m m' m'' : Machine} {v w x y : Value} {extra : List Value}

theorem roots_cases (hx : x ∈ m.roots) : x ∈ m.stack.toList ∨ x ∈ m.globals.values.toList ∨ x ∈ m.fixed := by
  simp only [roots, Machine.fixed, List.mem_append] at hx ⊢
  tauto

theorem stack_subset_roots (m : Machine) : m.stack.toList ⊆ m.roots := by
  intro x hx
  simp only [roots, List.mem_append]
  tauto

theorem globals_subset_roots (m : Machine) : m.globals.values.toList ⊆ m.roots := by
  intro x hx
  simp only [roots, List.mem_append]
  tauto

theorem fixed_subset_roots (m : Machine) : m.fixed ⊆ m.roots := by
  intro x hx
  simp only [roots, Machine.fixed, List.mem_append] at hx ⊢
  tauto

namespace Alike

theorem size (h : m.Alike R m') : m'.stack.size = m.stack.size := by
  simpa using h.stack.length_eq.symm

theorem fixed_eq (h : m.Alike R m') : m'.fixed = m.fixed := by
  unfold Machine.fixed
  rw [h.references, h.held, h.simulates.classes]

theorem root (h : m.Alike R m') (hy : y ∈ m'.roots) : ∃ x, R x y := by
  rcases roots_cases hy with hy | hy | hy
  · exact exists_of_forall₂ h.stack hy
  · exact h.globals.exists_value hy
  · exact ⟨y, h.fixed (h.fixed_eq ▸ hy)⟩

theorem intact (h : m.Alike R m') (hextra : ∀ y ∈ extra, ∃ x, R x y) : m'.heap.Intact (m'.roots ++ extra) :=
  h.simulates.intact fun y hy => (List.mem_append.mp hy).elim h.root (hextra y)

theorem trans (h : m.Alike R m') (h' : m'.Alike S m'') : m.Alike (Relation.Comp R S) m'' where
  config := h'.config.trans h.config
  precall := h'.precall.trans h.precall
  references := h'.references.trans h.references
  held := h'.held.trans h.held
  stack := forall₂_comp (fun _ b _ hab hbc => ⟨b, hab, hbc⟩) h.stack h'.stack
  globals := h.globals.comp h'.globals
  simulates := h.simulates.comp h'.simulates
  classes := h.classes
  fixed {x} hx := ⟨x, h.fixed hx, h'.fixed (h.fixed_eq ▸ hx)⟩

/-- Members of classes stand for themselves. -/
theorem member (h : m.Alike R m') {c : ClassId} {name : String} (hv : m.heap.classes.member? c name = some v) :
    R v v := by
  obtain ⟨ancestor, -, hown⟩ := List.exists_of_findSome?_eq_some hv
  obtain ⟨info, hinfo, hfind⟩ := Option.bind_eq_some_iff.mp hown
  have hmem : info ∈ m.heap.classes.toList := Array.mem_toList_iff.mpr (Array.mem_of_getElem? hinfo)
  have hself : R (.object info.object) (.object info.object) :=
    h.fixed (List.mem_append_right _ (List.mem_map_of_mem hmem))
  obtain ⟨cls, hobject⟩ := h.classes ancestor info hinfo
  rcases h.simulates.cases hself with ⟨u, hu, hw, -⟩ | ⟨i, j, o, p, hi, -, ho, -, -, halike⟩
  · cases (hw : Value.object info.object = u)
    cases hu
  · cases hi
    cases ho.symm.trans hobject
    generalize p.content = content at halike
    cases halike with
    | same children =>
      refine children v ?_
      simp only [Heap.children, hinfo, List.mem_append]
      exact .inl (OrderedMap.find?_mem_values hfind)

end Alike

/-- A machine in which everything is there is like itself. -/
theorem alike_self (hi : m.heap.Intact m.roots) (hclasses : m.heap.HasClasses) : ∃ R, m.Alike R m := by
  have hi' : m.heap.Intact (m.roots ++ []) := by rwa [List.append_nil]
  have hself := mirrors_self hi'
  have hroot {x : Value} (hx : x ∈ m.roots) : m.heap.Owning (m.roots ++ []) .null .null x x :=
    hself.known (.inr (.start (List.mem_append_left _ hx)))
  exact ⟨_, rfl, rfl, rfl, rfl, List.forall₂_same.mpr fun x hx => hroot (stack_subset_roots m hx),
    OrderedMap.alike_self fun x hx => hroot (globals_subset_roots m hx), hself.simulates, hclasses,
    fun hx => hroot (fixed_subset_roots m hx)⟩

/-- What only the heap of a machine shows, no variable does. -/
theorem Beside.alike (h : m.Beside m') (hS : m.Mirrors S m' extra) (hclasses : m.heap.HasClasses) : m.Alike S m' := by
  have hroot {x : Value} (hx : x ∈ m.roots) : S x x := hS.known (.inr (.start (List.mem_append_left _ hx)))
  refine ⟨by rw [h], by rw [h], by rw [h], by rw [h], ?_, ?_, hS.simulates, hclasses,
    fun hx => hroot (fixed_subset_roots m hx)⟩
  · rw [h.stack]
    exact List.forall₂_same.mpr fun x hx => hroot (stack_subset_roots m hx)
  · rw [h.globals]
    exact OrderedMap.alike_self fun x hx => hroot (globals_subset_roots m hx)

end Alike

-- ---------------------------------------------------------------------------
-- Two computations
-- ---------------------------------------------------------------------------

/-- The second machine is the first one, with more on its heap at most. -/
structure Gains (m p : Machine) : Prop where
  rest : p = { m with heap := p.heap, registrations := p.registrations }
  classes : p.heap.classes = m.heap.classes
  cells : p.heap.cells = m.heap.cells
  object {i : ObjectId} {o : Object} : m.heap.object? i = some o → p.heap.object? i = some o

/-- The first computation comes to a value that is related to what the second one comes to, or both fail alike. The
first one changes nothing on its machine, and afterwards the machines are alike. -/
def Concurs (m m' : Machine) :
    EStateM.Result Failure Machine Value → EStateM.Result Failure Machine Value → Prop
  | .ok v p, .ok w q => m.Gains p ∧ q.control = m'.control ∧ ∃ R, p.Alike R q ∧ R v w
  | .error e p, .error e' q => e' = e ∧ m.Gains p ∧ q.control = m'.control ∧ ∃ R, p.Alike R q
  | _, _ => False

section Computations

variable {R S : Value → Value → Prop} {m m' after : Machine} {v w item held own : Value} {extra : List Value}
  {read read' : Except Failure Value} {result : EStateM.Result Failure Machine Value}

theorem Gains.refl (m : Machine) : m.Gains m := ⟨rfl, rfl, rfl, id⟩

theorem Gains.trans {p q : Machine} (h : m.Gains p) (h' : p.Gains q) : m.Gains q where
  rest := by rw [h'.rest, h.rest]
  classes := h'.classes.trans h.classes
  cells := h'.cells.trans h.cells
  object ho := h'.object (h.object ho)

/-- Related things are read. -/
theorem Alike.reads (hm : m.Alike R m') (hmatching : Matching R read read') :
    m.Concurs m' ((liftM read : Run Value) m) ((liftM read' : Run Value) m') := by
  cases read with
  | ok v =>
    obtain ⟨w, rfl, hvw⟩ := hmatching.of_ok
    exact ⟨.refl m, rfl, R, hm, hvw⟩
  | error e =>
    obtain rfl := hmatching.of_error
    exact ⟨rfl, .refl m, rfl, R, hm⟩

end Computations

end Machine


-- ---------------------------------------------------------------------------
-- Variables
-- ---------------------------------------------------------------------------

namespace Machine

/-- What stands in the place of a variable. -/
def placed (m : Machine) (f : Frame) : Slot → Except Failure Value
  | .frame i => m.stack[f.base + i]?.elim (.error Fault.localOutOfRange.failure) .ok
  | .captured i => f.closure.captured[i]?.elim (.error Fault.upvalueOutOfRange.failure) fun c => .ok (.cell c)
  | .global k => f.routine.strings[k]?.elim (.error Fault.constantOutOfRange.failure) fun name =>
    (m.globals.find? name).elim (.error (Fault.undefinedIdentifier name).failure) .ok

/-- The machine with something else in the place of a variable; a captured variable has its cell there always. -/
def replaced (m : Machine) (f : Frame) (held : Value) : Slot → Machine
  | .frame i => { m with stack := m.stack.setIfInBounds (f.base + i) held }
  | .captured _ => m
  | .global k => f.routine.strings[k]?.elim m fun name => { m with globals := m.globals.insert name held }

section Variables

variable {R S : Value → Value → Prop} {m m' after : Machine} {f : Frame} {slot : Slot} {u v w held own : Value}
  {e : Failure}

theorem forall₂_stack {xs ys : Array Value} (h : List.Forall₂ R xs.toList ys.toList) (k : Nat) :
    Option.Rel R xs[k]? ys[k]? := by
  obtain ⟨xs⟩ := xs
  obtain ⟨ys⟩ := ys
  simp only [List.getElem?_toArray]
  change List.Forall₂ R xs ys at h
  induction h generalizing k with
  | nil => exact .none
  | cons hxy _ ih =>
    cases k with
    | zero => exact .some hxy
    | succ k => exact ih k

/-- The same variable holds related values. -/
theorem Alike.placed (hm : m.Alike R m') (hf : ∀ c ∈ f.closure.captured, .cell c ∈ m.fixed) (slot : Slot) :
    Matching R (m.placed f slot) (m'.placed f slot) := by
  have helim {x y : Option Value} (hxy : Option.Rel R x y) (e : Failure) :
      Matching R (x.elim (.error e) .ok) (y.elim (.error e) .ok) := by
    cases hxy with
    | none => exact rfl
    | some h => exact h
  cases slot with
  | frame i => exact helim (forall₂_stack hm.stack _) _
  | captured i =>
    simp only [Machine.placed]
    cases hc : f.closure.captured[i]? with
    | none => exact rfl
    | some c => exact hm.fixed (hf c (Array.mem_of_getElem? hc))
  | global k =>
    simp only [Machine.placed]
    cases f.routine.strings[k]? with
    | none => exact rfl
    | some name => exact helim (hm.globals.find? name) _

theorem placed_cases (hu : m.placed f slot = .ok u) :
    (∃ i, slot = .frame i ∧ m.stack[f.base + i]? = some u) ∨
      (∃ i c, slot = .captured i ∧ f.closure.captured[i]? = some c ∧ u = .cell c) ∨
      ∃ k name, slot = .global k ∧ f.routine.strings[k]? = some name ∧ m.globals.find? name = some u := by
  have helim {x : Option Value} {e : Failure} (h : x.elim (.error e) .ok = Except.ok u) : x = some u := by
    cases x <;> cases h
    rfl
  cases slot with
  | frame i => exact .inl ⟨i, rfl, helim hu⟩
  | captured i =>
    simp only [placed] at hu
    cases hc : f.closure.captured[i]? with
    | none => simp [hc] at hu
    | some c => exact .inr (.inl ⟨i, c, rfl, hc, by simpa [hc] using hu.symm⟩)
  | global k =>
    simp only [placed] at hu
    cases hname : f.routine.strings[k]? with
    | none => simp [hname] at hu
    | some name =>
      rw [hname] at hu
      exact .inr (.inr ⟨k, name, rfl, hname, helim hu⟩)

/-- Something related is put in the place of a variable. -/
theorem Alike.replaced (hm : m.Alike R m') (hu : m.placed f slot = .ok u) (hheld : R u held) :
    m.Alike R (m'.replaced f held slot) := by
  rcases placed_cases hu with ⟨i, rfl, hv⟩ | ⟨i, c, rfl, -, -⟩ | ⟨k, name, rfl, hname, hv⟩
  · refine { hm with stack := forall₂_setIfInBounds hm.stack fun x hx => ?_ }
    cases hv.symm.trans hx
    exact hheld
  · exact hm
  · simp only [Machine.replaced, hname]
    exact { hm with globals := hm.globals.insert hv hheld }

end Variables

-- ---------------------------------------------------------------------------
-- Elements
-- ---------------------------------------------------------------------------

section Elements

variable {R : Value → Value → Prop} {m m' : Machine} {v w : Value} {xs ys : Array Value}

end Elements

end Machine

-- ---------------------------------------------------------------------------
-- Operators
-- ---------------------------------------------------------------------------

/-- The operators that compute numbers. -/
def BinaryOp.isArithmetic : BinaryOp → Bool
  | .add | .sub | .mul | .div | .mod | .pow => true
  | _ => false

section Operators

variable {R : Value → Value → Prop} {h h' : Heap} {v w v' w' r : Value} {op : BinaryOp}

theorem isScalar_of_bind {x : Except Failure Heap.Operands} {f : Heap.Operands → Except Failure Value}
    (hf : ∀ o r, f o = .ok r → r.isScalar) (hr : x >>= f = .ok r) : r.isScalar := by
  cases x with
  | ok o => exact hf o r hr
  | error e => cases hr

theorem Heap.arithmetic_isScalar {symbol : String} {ints : Int → Int → Int} {floats : Float → Float → Float}
    (hr : h.arithmetic symbol ints floats v w = .ok r) : r.isScalar := by
  refine isScalar_of_bind (fun o r hr => ?_) hr
  cases o with
  | ints a b =>
    dsimp only at hr
    split at hr <;> cases hr
    rfl
  | floats a b =>
    cases hr
    rfl

/-- The operators come to numbers, which refer to nothing. -/
theorem Heap.binary_isScalar (hop : op.isArithmetic) (hr : h.binary op v w = .ok r) : r.isScalar := by
  cases op with
  | add | sub | mul => exact arithmetic_isScalar hr
  | div =>
    refine isScalar_of_bind (fun o r hr => ?_) hr
    cases o <;>
    · dsimp only at hr
      split at hr <;> cases hr
      rfl
  | mod =>
    refine isScalar_of_bind (fun o r hr => ?_) hr
    cases o with
    | ints a b =>
      dsimp only at hr
      split at hr
      · cases hr
      · split at hr <;> cases hr
        rfl
    | floats a b =>
      cases hr
      rfl
  | pow =>
    refine isScalar_of_bind (fun o r hr => ?_) hr
    cases o with
    | ints a b =>
      dsimp only at hr
      split at hr <;> cases hr <;> rfl
    | floats a b =>
      cases hr
      rfl
  | _ => cases hop

namespace Heap.Simulates

theorem operands (hS : h.Simulates R h') (symbol : String) (hvw : R v w) (hvw' : R v' w') :
    h'.operands symbol w w' = h.operands symbol v v' := by
  unfold Heap.operands
  rw [hS.typeName hvw, hS.typeName hvw']
  rcases hS.cases hvw with ⟨u, -, hv, hw⟩ | ⟨i, j, o, p, hv, hw, -⟩
  · rw [hv, hw]
    rcases hS.cases hvw' with ⟨u', -, hv', hw'⟩ | ⟨i, j, o, p, hv', hw', -⟩
    · rw [hv', hw']
    · rw [hv', hw']
      cases u <;> rfl
  · rw [hv, hw]

theorem binary (hS : h.Simulates R h') (hop : op.isArithmetic) (hvw : R v w) (hvw' : R v' w') :
    Matching R (h.binary op v v') (h'.binary op w w') := by
  have hsame : h'.binary op w w' = h.binary op v v' := by
    cases op with
    | add | sub | mul =>
      simp only [Heap.binary, Heap.arithmetic]
      rw [hS.operands _ hvw hvw']
    | div =>
      simp only [Heap.binary, Heap.divide]
      rw [hS.operands _ hvw hvw']
    | mod =>
      simp only [Heap.binary, Heap.modulus]
      rw [hS.operands _ hvw hvw']
    | pow =>
      simp only [Heap.binary, Heap.power]
      rw [hS.operands _ hvw hvw']
    | _ => cases hop
  rw [hsame]
  exact .refl fun r hr => hS.scalar (binary_isScalar hop hr)

theorem negate (hS : h.Simulates R h') (hvw : R v w) : Matching R (h.negate v) (h'.negate w) := by
  have htype := hS.typeName (hS.resolve hvw)
  unfold Heap.negate
  rcases hS.cases hvw with ⟨u, -, hv, hw⟩ | ⟨i, j, o, p, hv, hw, -⟩
  · rw [hv, hw] at htype ⊢
    cases u with
    | int n =>
      dsimp only
      split
      · exact rfl
      · exact hS.scalar rfl
    | float x => exact hS.scalar rfl
    | _ =>
      dsimp only
      rw [htype]
      exact rfl
  · rw [hv, hw] at htype ⊢
    dsimp only
    rw [htype]
    exact rfl

theorem truth (hS : h.Simulates R h') (hvw : R v w) : h'.truth w = h.truth v := by
  unfold Heap.truth
  rcases hS.cases hvw with ⟨u, -, hv, hw⟩ | ⟨i, j, o, p, hv, hw, -⟩
  · rw [hv, hw]
  · rw [hv, hw]
    rfl

end Heap.Simulates

end Operators

-- ---------------------------------------------------------------------------
-- Fields
-- ---------------------------------------------------------------------------

section Fields

variable {R : Value → Value → Prop} {h h' : Heap} {m m' : Machine} {v w : Value} {name : String}

namespace Machine

theorem Alike.resolve_resolve (hm : m.Alike R m') (hvw : R v w) :
    m'.heap.resolve (m'.heap.resolve w) = m'.heap.resolve w := by
  have hi : m'.heap.Intact (m'.roots ++ [w]) := hm.intact fun y hy => ⟨v, List.mem_singleton.mp hy ▸ hvw⟩
  exact Heap.resolve_of_isCell (hi.knows_resolve (.inr (.start (by simp)))).2

end Machine

end Fields

end Rill
