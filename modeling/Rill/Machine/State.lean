-- SUMMARY: The machine: operand stack, active calls, globals and what surrounds a running script.
import Rill.Heap

/-!
# The machine

A call site pushes the callee, records which of its parameters are references, pushes the arguments and
calls. The callee and the arguments are replaced by the result. `control` lists what is active, innermost
first: the frames of scripts, native functions that wait for a call they made, and a call that is about
to be entered.
-/

namespace Rill

-- ---------------------------------------------------------------------------
-- Configuration
-- ---------------------------------------------------------------------------

/-- Limits and switches. A collection runs when `gcThreshold` registrations have been made since the last
one; zero turns that off. -/
structure Config where
  stackLimit : Nat := 65536
  callDepth : Nat := 2048
  gcThreshold : Nat := 10000
  debug : Bool := false
  extension : String := ".rill"
  deriving Repr, DecidableEq

-- ---------------------------------------------------------------------------
-- Activations
-- ---------------------------------------------------------------------------

/-- An active call of a script function. `base` is the stack index of its first slot and `ip` the index
of the instruction being executed. `keepRef` tells that its caller takes a reference as it is. -/
structure Frame where
  closure : Closure
  routine : Routine
  key : RoutineKey
  base : Nat
  ip : Nat := 0
  keepRef : Bool

/-- An active call of a native function, whose callee was at `slot`. The callee of the call it waits for
is at `inner`, and `precalls` callees were waiting for their arguments when that call was made. A guarded
call does not pass failures on; `succeeded` tells how it ended. -/
structure NativeCall where
  fn : Native
  slot : Nat
  keepRef : Bool
  args : Array Value
  inner : Nat := 0
  precalls : Nat := 0
  guarded : Bool := false
  succeeded : Bool := true

/-- What a native function answers: a value, or a call to make first. -/
inductive Reply
  | value (v : Value)
  | call (callee : Value) (args : Array Value) (guarded : Bool)

/-- What is active. `entering` is a call whose callee and arguments are on top of the stack. -/
inductive Activation
  | script (frame : Frame)
  | native (call : NativeCall)
  | entering (args : Nat) (keepRef : Bool)

def Activation.frame? : Activation → Option Frame
  | .script frame => some frame
  | _ => none

-- ---------------------------------------------------------------------------
-- Marks
-- ---------------------------------------------------------------------------

/-- The marks of objects and of cells; those without an entry have the mark zero. -/
structure Marks where
  objects : Array Nat := #[]
  cells : Array Nat := #[]
  deriving Repr, DecidableEq

/-- The mark of the last collection, and all marks. Collections use one and two by turns, so the marks of
one need not be taken back before the next. -/
structure Collector where
  mark : Nat := 0
  marks : Marks := {}
  deriving Repr, DecidableEq

-- ---------------------------------------------------------------------------
-- Machines
-- ---------------------------------------------------------------------------

/-- `precall` holds the reference flags of the callees whose arguments are being evaluated, innermost
first. `registrations` counts what the collector was given since its last run. `closures` counts the
closures made by scripts. `held` are values that the host keeps, and `borrowed` are objects that it is
changing, into which the collector can not look. `home` is the directory of the user, if it is known, and `seed` drives the random
functions. -/
structure Machine where
  config : Config
  heap : Heap := {}
  globals : OrderedMap String Value := {}
  stack : Array Value := #[]
  control : List Activation := []
  precall : List RefFlags := []
  registrations : Nat := 0
  collector : Collector := {}
  chunks : Nat := 0
  closures : Nat := 0
  signatures : List (RoutineKey × List ClassId) := []
  held : List Value := []
  borrowed : List ObjectId := []
  output : String := ""
  input : List Char := []
  files : Files.Tree := {}
  home : Option String := none
  seed : UInt64 := 0

/-- Steps of a machine: they change it, and may fail without taking the changes back. -/
abbrev Run := EStateM Failure Machine

instance : MonadLift (Except Failure) Run where
  monadLift
    | .ok a => pure a
    | .error e => throw e

namespace Run

/-- Fails without a position. -/
def fail (fault : Fault) : Run α := throw fault.failure

def heap : Run Heap := do return (← get).heap

def config : Run Config := do return (← get).config

-- ---------------------------------------------------------------------------
-- The operand stack
-- ---------------------------------------------------------------------------

/-- Pushes a value if the limit allows it. -/
def push (v : Value) : Run Unit := do
  let m ← get
  if m.stack.size ≥ m.config.stackLimit then fail .stackOverflow
  modify fun m => { m with stack := m.stack.push v }

/-- Pushes a value where one has been removed before. -/
def put (v : Value) : Run Unit := modify fun m => { m with stack := m.stack.push v }

def pop : Run Value := do
  match (← get).stack.back? with
  | some v =>
    modify fun m => { m with stack := m.stack.pop }
    return v
  | none => fail .stackUnderflow

/-- The value `depth` places below the top. -/
def peek (depth : Nat) : Run Value := do
  let stack := (← get).stack
  match if depth < stack.size then stack[stack.size - 1 - depth]? else none with
  | some v => return v
  | none => fail .stackUnderflow

/-- Removes the top values; they are returned in the order in which they were pushed. -/
def popMany (count : Nat) : Run (Array Value) := do
  let stack := (← get).stack
  if stack.size < count then fail .stackUnderflow
  modify fun m => { m with stack := m.stack.shrink (m.stack.size - count) }
  return stack.extract (stack.size - count) stack.size

/-- Removes the values above a height. -/
def cut (height : Nat) : Run Unit := modify fun m => { m with stack := m.stack.shrink height }

-- ---------------------------------------------------------------------------
-- The heap
-- ---------------------------------------------------------------------------

/-- Puts an object on the heap, watched if its class asks for it. -/
def allocate (cls : ClassId) (content : Content) : Run ObjectId := do
  let (id, heap) := (← get).heap.allocate cls content
  let watched := heap.classes.isCollectable cls
  modify fun m => { m with
    heap := heap, registrations := if watched then m.registrations + 1 else m.registrations }
  return id

/-- Puts a cell on the heap. -/
def allocateCell (v : Value) : Run CellId := do
  let (id, heap) := (← get).heap.allocateCell v
  modify fun m => { m with heap := heap, registrations := m.registrations + 1 }
  return id

def newObject (cls : ClassId) (content : Content) : Run Value := do return .object (← allocate cls content)

def newList (items : Array Value) : Run Value := newObject .list (.list items)

def newTable (entries : Table) : Run Value := newObject .table (.table entries)

def newSet (elements : KeySet) : Run Value := newObject .set (.set elements)

def newArray (matrix : Matrix) : Run Value := newObject .array (.array matrix)

def newFunction (f : Function) : Run Value := newObject .function (.function f)

def modifyHeap (f : Heap → Heap) : Run Unit := modify fun m => { m with heap := f m.heap }

def setContent (id : ObjectId) (content : Content) : Run Unit := modifyHeap (·.setContent id content)

def setCell (id : CellId) (v : Value) : Run Unit := modifyHeap (·.setCell id v)

-- ---------------------------------------------------------------------------
-- Globals and output
-- ---------------------------------------------------------------------------

def setGlobal (name : String) (v : Value) : Run Unit :=
  modify fun m => { m with globals := m.globals.insert name v }

def write (text : String) : Run Unit := modify fun m => { m with output := m.output ++ text }

end Run

namespace Machine

/-- The active script frames, innermost first. -/
def frames (m : Machine) : List Frame := m.control.filterMap Activation.frame?

/-- The active script calls, innermost first. -/
def trace (m : Machine) : List TraceFrame :=
  m.frames.map fun f => ⟨f.routine.name, f.routine.file, f.routine.code.lineAt f.ip⟩

end Machine

end Rill
