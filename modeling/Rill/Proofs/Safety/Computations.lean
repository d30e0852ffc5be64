-- SUMMARY: Faults that only broken code can give, and computations that leave operand stack and activations alone.
import Rill.Fault
import Rill.Machine.Step

/-!
# Computations without defects

Some faults say that the code of a script does not fit the machine: operands that are missing, slots,
constants or captured variables that do not exist. Whatever a script does to its values, the computations
on them fail in other ways.

Operators, elements, iteration and the choice of an overload look at values only. None of them can find
a defect of the code.
-/

namespace Rill

-- ---------------------------------------------------------------------------
-- Defects
-- ---------------------------------------------------------------------------

/-- The fault says that code and machine do not fit together. -/
def Fault.isDefect : Fault → Bool
  | .stackUnderflow | .localOutOfRange | .upvalueOutOfRange | .codeOutOfRange | .constantOutOfRange
  | .iteratorExpected => true
  | _ => false

/-- An internal fault that is no defect says that the operands are too many, or that a comparison of
containers that contain themselves never ends. -/
theorem Fault.internal_cases {f : Fault} (h : f.category = .internal) (hf : f.isDefect = false) :
    f = .stackOverflow ∨ f = .endless := by
  cases f <;> simp_all [Fault.category, Fault.isDefect]

theorem Fault.failure_fault (f : Fault) : f.failure.fault = f := rfl

attribute [grind =] Fault.failure_fault Fault.isDefect

/-- If the computation fails, then with a fault that is no defect. -/
def Harmless (x : Except Failure α) : Prop := ∀ e, x = .error e → e.fault.isDefect = false

namespace Harmless

@[grind .]
theorem ok (a : α) : Harmless (.ok a) := by
  intro e he
  cases he

@[grind .]
theorem error {e : Failure} (h : e.fault.isDefect = false) : Harmless (.error e : Except Failure α) := by
  intro e' he
  cases he
  exact h

@[grind .]
theorem pure (a : α) : Harmless (Pure.pure a) := ok a

@[grind .]
theorem throw {e : Failure} (h : e.fault.isDefect = false) : Harmless (MonadExcept.throw e : Except Failure α) :=
  error h

@[grind .]
theorem bind {x : Except Failure α} {f : α → Except Failure β} (hx : Harmless x)
    (hf : ∀ a, Harmless (f a)) : Harmless (x >>= f) := by
  cases x with
  | error e => exact error (hx e rfl)
  | ok a => exact hf a

@[grind .]
theorem map {x : Except Failure α} {f : α → β} (hx : Harmless x) : Harmless (x.map f) := by
  cases x with
  | error e => exact error (hx e rfl)
  | ok a => exact ok (f a)

@[grind .]
theorem mapM {f : α → Except Failure β} (hf : ∀ a, Harmless (f a)) (as : List α) :
    Harmless (as.mapM f) := by
  induction as with
  | nil => exact ok []
  | cons a rest ih =>
    rw [List.mapM_cons]
    exact (hf a).bind fun b => ih.bind fun bs => ok _

@[grind .]
theorem foldlM {f : β → α → Except Failure β} (hf : ∀ b a, Harmless (f b a)) (as : List α) (b : β) :
    Harmless (as.foldlM f b) := by
  induction as generalizing b with
  | nil => exact ok b
  | cons a rest ih =>
    rw [List.foldlM_cons]
    exact (hf b a).bind ih

@[grind .]
theorem filterM {f : α → Except Failure Bool} (hf : ∀ a, Harmless (f a)) (as : Array α) :
    Harmless (as.filterM f) := by
  unfold Array.filterM
  rw [← Array.foldlM_toList]
  refine foldlM (fun b a => (hf a).bind fun keep => ?_) _ _
  split <;> exact ok _

end Harmless

-- ---------------------------------------------------------------------------
-- Positions and matrices
-- ---------------------------------------------------------------------------

@[grind .]
theorem resolveIndex_harmless (index : Int64) (size : Nat) : Harmless (resolveIndex index size) := by
  grind [resolveIndex]

namespace Matrix

@[grind .]
theorem ofShape_harmless (rows cols : Nat) (data : Array Float) : Harmless (ofShape rows cols data) := by
  grind [ofShape]

@[grind .]
theorem filled_harmless (rows cols : Nat) (x : Float) : Harmless (filled rows cols x) := by
  grind [filled]

@[grind .]
theorem offset_harmless (m : Matrix) (indices : List Int64) : Harmless (m.offset indices) := by
  -- Which fault it is does not depend on the numbers, here and below: no algebra is looked for on their types.
  fun_cases offset m indices <;> grind -ring -linarith

end Matrix

namespace Heap

variable (h : Heap)

-- ---------------------------------------------------------------------------
-- Values of a certain type
-- ---------------------------------------------------------------------------

@[grind .]
theorem key_harmless (v : Value) : Harmless (h.key v) := by grind [Heap.key]

@[grind .]
theorem integerOf_harmless (v : Value) : Harmless (h.integerOf v) := by grind [integerOf, mistyped]

@[grind .]
theorem numberOf_harmless (v : Value) : Harmless (h.numberOf v) := by grind [numberOf, mistyped]

@[grind .]
theorem booleanOf_harmless (v : Value) : Harmless (h.booleanOf v) := by grind [booleanOf, mistyped]

@[grind .]
theorem textOf_harmless (v : Value) : Harmless (h.textOf v) := by grind [textOf, mistyped]

@[grind .]
theorem listOf_harmless (v : Value) : Harmless (h.listOf v) := by grind [listOf, mistyped]

@[grind .]
theorem tableOf_harmless (v : Value) : Harmless (h.tableOf v) := by grind [tableOf, mistyped]

@[grind .]
theorem setOf_harmless (v : Value) : Harmless (h.setOf v) := by grind [setOf, mistyped]

@[grind .]
theorem matrixOf_harmless (v : Value) : Harmless (h.matrixOf v) := by grind [matrixOf, mistyped]

-- ---------------------------------------------------------------------------
-- Comparison and operators
-- ---------------------------------------------------------------------------

@[grind .]
theorem equals_harmless (a b : Value) : Harmless (h.equals a b) := by grind [equals]

theorem listOrder_harmless {order : Value → Value → Except Failure (Option Ordering)}
    (horder : ∀ a b, Harmless (order a b)) (x y : List Value) : Harmless (listOrder order x y) := by
  fun_induction listOrder order x y <;> grind

theorem orderWithin_harmless (fuel : Nat) (a b : Value) : Harmless (h.orderWithin fuel a b) := by
  induction fuel generalizing a b with
  | zero => grind -ring -linarith [orderWithin]
  | succ fuel ih =>
    have hlists := listOrder_harmless ih
    grind -ring -linarith [orderWithin]

@[grind .]
theorem order_harmless (a b : Value) : Harmless (h.order a b) := h.orderWithin_harmless _ a b

@[grind .]
theorem operands_harmless (op : String) (a b : Value) : Harmless (h.operands op a b) := by
  grind [operands]

@[grind .]
theorem binary_harmless (op : BinaryOp) (a b : Value) : Harmless (h.binary op a b) := by
  cases op <;> grind -ring -linarith [binary, arithmetic, divide, modulus, power, ordered, signOfOrder]

@[grind .]
theorem negate_harmless (v : Value) : Harmless (h.negate v) := by grind [negate]

@[grind .]
theorem stepCounter_harmless (v : Value) (up : Bool) : Harmless (h.stepCounter v up) := by
  grind -ring -linarith [stepCounter]

@[grind .]
theorem isSorted_harmless (items : List Value) : Harmless (isSorted h.order items) := by
  fun_induction isSorted h.order items <;> grind

/-- A failure of a sort is one of a comparison. -/
theorem place_harmless {compare : Comparison} (hcompare : ∀ a b, Harmless (compare a b)) (v : Value)
    (items : List Value) (failure : Option Failure) (hfailure : ∀ e ∈ failure, e.fault.isDefect = false) :
    ∀ e ∈ (place compare v items failure).2, e.fault.isDefect = false := by
  fun_induction place compare v items failure with
  | case1 => exact hfailure
  | case2 w before failure _ placed failure' hplace ih =>
    rw [hplace] at ih
    exact ih hfailure
  | case3 => exact hfailure
  | case4 w before failure e he =>
    intro e' he'
    cases failure with
    | none =>
      obtain rfl : e = e' := by simpa using he'
      exact hcompare _ _ _ he
    | some f => exact hfailure e' (by simpa using he')

theorem sorted_harmless {compare : Comparison} (hcompare : ∀ a b, Harmless (compare a b))
    (items : List Value) : ∀ e ∈ (sorted compare items).2, e.fault.isDefect = false := by
  have hfold (placed : List Value) (failure : Option Failure)
      (hfailure : ∀ e ∈ failure, e.fault.isDefect = false) :
      ∀ e ∈ (items.foldl (fun found v => place compare v found.1 found.2) (placed, failure)).2,
        e.fault.isDefect = false := by
    induction items generalizing placed failure with
    | nil => exact hfailure
    | cons v rest ih => exact ih _ _ (place_harmless hcompare v placed failure hfailure)
  exact hfold [] none (by simp)

-- ---------------------------------------------------------------------------
-- Elements
-- ---------------------------------------------------------------------------

@[grind .]
theorem indexOf_harmless (v : Value) : Harmless (h.indexOf v) := by grind [indexOf]

@[grind .]
theorem onlyIndex_harmless (indices : Array Value) : Harmless (onlyIndex indices) := by grind [onlyIndex]

@[grind .]
theorem offsetOf_harmless (indices : Array Value) (size : Nat) : Harmless (h.offsetOf indices size) := by
  grind [offsetOf]

@[grind .]
theorem keyOf_harmless (indices : Array Value) : Harmless (h.keyOf indices) := by grind [keyOf]

@[grind .]
theorem memberOf_harmless (indices : Array Value) : Harmless (h.memberOf indices) := by grind [memberOf]

@[grind .]
theorem matrixOffset_harmless (m : Matrix) (indices : Array Value) :
    Harmless (h.matrixOffset m indices) := by
  grind [matrixOffset]

@[grind .]
theorem member_harmless (s : Space) (name : String) : Harmless (h.member s name) := by grind [member]

@[grind .]
theorem element_harmless (container : Value) (indices : Array Value) :
    Harmless (h.element container indices) := by
  fun_cases element h container indices <;> grind -ring -linarith

@[grind .]
theorem iterator_harmless (v : Value) (byRef : Bool) : Harmless (h.iterator v byRef) := by
  grind -ring -linarith [Heap.iterator]

@[grind .]
theorem parameterClass_harmless (v : Value) : Harmless (Run.parameterClass h v) := by
  grind [Run.parameterClass, mistyped]

@[grind .]
theorem pairs_harmless (values : List Value) : Harmless (Run.pairs h values) := by
  fun_induction Run.pairs h values <;> grind

end Heap

-- ---------------------------------------------------------------------------
-- Functions
-- ---------------------------------------------------------------------------

namespace Function

@[grind .]
theorem add_harmless (f : Function) (c : Closure) : Harmless (f.add c) := by grind [add]

@[grind .]
theorem addAll_harmless (f : Function) (cs : List Closure) : Harmless (f.addAll cs) := by grind [addAll]

@[grind .]
theorem choose_harmless (f : Function) (classes : ClassTree) (args : List (Option ClassId))
    (shown : List String) : Harmless (f.choose classes args shown) := by
  grind [choose]

end Function

namespace Heap

variable (h : Heap)

@[grind .]
theorem calledFunction_harmless (callee : Value) : Harmless (h.calledFunction callee) := by
  grind [calledFunction]

@[grind .]
theorem dispatch_harmless (callee : Value) (args : Array Value) : Harmless (h.dispatch callee args) := by
  grind [dispatch]

end Heap

end Rill
