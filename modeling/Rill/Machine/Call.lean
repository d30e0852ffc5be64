-- SUMMARY: Calls: finding the closure, preparing the arguments, entering and completing.
import Rill.Machine.Access
import Rill.Machine.Collection

/-!
# Calls

A call finds the closure of its callee that fits the arguments, makes arguments that are passed by
reference cells, and then runs native code or activates a frame. When it is done, its result takes the
place of the callee and the arguments.
-/

namespace Rill

-- ---------------------------------------------------------------------------
-- Callees
-- ---------------------------------------------------------------------------

/-- The function that a call of a value calls; for a class, its initializer. -/
def Heap.calledFunction (h : Heap) (callee : Value) : Except Failure Function :=
  let ofObject (v : Value) : Except Failure Function :=
    match h.contentOf v with
    | some (.function f) => .ok f
    | _ => .error (Fault.notCallable (h.typeName v))
  match h.contentOf callee with
  | some (.cls c) =>
    match h.classes.initializer? c with
    | some initializer => ofObject (.object initializer)
    | none => .error (Fault.notInstantiable (h.classes.name c))
  | _ => ofObject callee

/-- The closure that accepts the arguments. -/
def Heap.dispatch (h : Heap) (callee : Value) (args : Array Value) : Except Failure Closure := do
  let f ← h.calledFunction callee
  let args := args.toList
  let classes := args.map fun v => if h.isNull v then none else some (h.classOf v)
  f.choose h.classes classes (args.map h.typeName)

/-- The reference flags of a callee; without a function there are none. -/
def Heap.calledFlags (h : Heap) (callee : Value) : RefFlags :=
  match h.calledFunction callee with
  | .ok f => f.refFlags
  | .error _ => 0

namespace Run

/-- An argument as the callee gets it: a cell if it is passed by reference, and otherwise a value. -/
def prepare (v : Value) (byRef : Bool) : Run Value := do
  if byRef then return .cell (← cellFor v)
  return (← heap).resolve v

/-- Prepares the arguments on the stack, of which the first is at `base`. -/
def prepareAll (base : Nat) (flags : RefFlags) (count : Nat) : Run Unit :=
  (List.range count).forM fun k => do
    let v := (← get).stack.getD (base + k) .null
    let v ← prepare v (flags.isRef k)
    modify fun m => { m with stack := m.stack.setIfInBounds (base + k) v }

-- ---------------------------------------------------------------------------
-- Activations
-- ---------------------------------------------------------------------------

/-- Puts something in the place of the innermost activation. -/
def become (a : Activation) : Run Unit := modify fun m => { m with control := a :: m.control.drop 1 }

/-- The frame that is being executed goes on at another instruction. -/
def goTo (next : Nat → Nat) : Run Unit :=
  modify fun m => { m with control :=
    match m.control with
    | .script f :: rest => .script { f with ip := next f.ip } :: rest
    | control => control }

/-- Ends the innermost activation with a result, which takes the place of what is on the stack from a
slot on. -/
def complete (slot : Nat) (keepRef : Bool) (v : Value) : Run Unit := do
  let h ← heap
  cut slot
  put (if keepRef then v else h.resolve v)
  modify fun m => { m with control := m.control.drop 1 }
  goTo (· + 1)

/-- Goes on with what a native function answered: completes it, or makes the call it asks for. -/
def continueNative (w : NativeCall) (reply : Reply) : Run Unit := do
  match reply with
  | .value v => complete w.slot w.keepRef v
  | .call callee args guarded =>
    let m ← get
    push callee
    args.forM push
    become (.native { w with inner := m.stack.size, precalls := m.precall.length, guarded := guarded })
    modify fun m => { m with control := .entering args.size false :: m.control }

/-- Goes on with a native function whose call is done. The result of a guarded call comes with whether it
succeeded. -/
def resumeNative (w : NativeCall) : Run Unit := do
  let v ← pop
  if w.guarded then
    complete w.slot w.keepRef (← newList #[.bool w.succeeded, v])
  else
    complete w.slot w.keepRef v

/-- Prepares the call whose callee and arguments are on top of the stack and makes it the innermost
activation. If it is one of a native function, that has still to run. -/
def begin (count : Nat) (keepRef : Bool) : Run (Option NativeCall) := do
  let m ← get
  if m.stack.size < count + 1 then fail .stackUnderflow
  let slot := m.stack.size - 1 - count
  let args := m.stack.extract (slot + 1) m.stack.size
  let closure ← m.heap.dispatch (m.stack.getD slot .null) args
  prepareAll (slot + 1) closure.refFlags count
  match closure.callable with
  | .native fn _ =>
    let args ← popMany count
    let w : NativeCall := { fn := fn, slot := slot, keepRef := keepRef, args := args }
    become (.native w)
    return some w
  | .script routine key =>
    if m.frames.length ≥ m.config.callDepth then fail .stackOverflow
    become (.script
      { closure := closure, routine := routine, key := key, base := slot + 1, keepRef := keepRef })
    return none

/-- Enters the call whose callee and arguments are on top of the stack. -/
def enter (count : Nat) (keepRef : Bool) : Run Unit := do
  match ← begin count keepRef with
  | some w => continueNative w (← w.fn.run w.args)
  | none => collectIfDue

end Run

end Rill
