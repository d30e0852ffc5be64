-- SUMMARY: What each instruction does, and one step of the machine.
import Rill.Heap.Operators
import Rill.Machine.Call
import Rill.Machine.Iteration

/-!
# Steps

An instruction works on the operand stack, the slots of its frame, the captured variables and the globals.
It tells how the frame goes on: at the next instruction, at the target of a jump, with a call, or not at
all because the function returns.
-/

namespace Rill

/-- How a frame goes on. -/
inductive Flow
  | next
  | jump (target : Nat)
  | enter (args : Nat) (keepRef : Bool)
  | leave (result : Value)

namespace Run

-- ---------------------------------------------------------------------------
-- Variables
-- ---------------------------------------------------------------------------

/-- What a slot of a frame holds. -/
def local? (f : Frame) (index : Nat) : Run Value := do
  match (← get).stack[f.base + index]? with
  | some v => return v
  | none => fail .localOutOfRange

/-- Puts something in a slot of a frame. -/
def setLocal (f : Frame) (index : Nat) (v : Value) : Run Unit :=
  modify fun m => { m with stack := m.stack.setIfInBounds (f.base + index) v }

/-- The cell of a captured variable. -/
def capturedCell (f : Frame) (index : Nat) : Run CellId :=
  match f.closure.captured[index]? with
  | some cell => return cell
  | none => fail .upvalueOutOfRange

/-- A text among the constants. -/
def constant (f : Frame) (index : Nat) : Run String :=
  match f.routine.strings[index]? with
  | some s => return s
  | none => fail .constantOutOfRange

/-- What a global holds. -/
def global (name : String) : Run Value := do
  match (← get).globals.find? name with
  | some v => return v
  | none => fail (.undefinedIdentifier name)

/-- Makes a slot of a frame a cell. -/
def localCell (f : Frame) (index : Nat) : Run CellId := do
  let cell ← cellFor (← local? f index)
  setLocal f index (.cell cell)
  return cell

/-- Makes a global a cell. -/
def globalCell (name : String) : Run CellId := do
  let cell ← cellFor (← global name)
  setGlobal name (.cell cell)
  return cell

/-- The callee whose arguments are being evaluated takes the one at a position by reference. -/
def takesReference (position : Nat) : Run Bool := do
  return ((← get).precall.head?).any (·.isRef position)

/-- The use of a place, with the choice of an argument made. -/
def settle (use : Use) : Run Use := do
  match use with
  | .argument position => return if ← takesReference position then .reference else .value
  | use => return use

/-- A variable, for the use that is made of it. -/
def readSlot (f : Frame) (slot : Slot) (use : Use) : Run Value := do
  match slot, ← settle use with
  | .frame i, .reference => return .cell (← localCell f i)
  | .frame i, .unique =>
    let (held, own) ← unshareSlot (← local? f i)
    setLocal f i held
    return own
  | .frame i, _ =>
    let v ← local? f i
    return (← heap).resolve v
  | .captured i, .reference => return .cell (← capturedCell f i)
  | .captured i, .unique => return (← unshareSlot (.cell (← capturedCell f i))).2
  | .captured i, _ =>
    let cell ← capturedCell f i
    return (← heap).cellValue cell
  | .global k, .reference => return .cell (← globalCell (← constant f k))
  | .global k, .unique =>
    let name ← constant f k
    let (held, own) ← unshareSlot (← global name)
    setGlobal name held
    return own
  | .global k, _ =>
    let v ← global (← constant f k)
    return (← heap).resolve v

/-- Assigns to a variable. A global that does not exist is created. -/
def writeSlot (f : Frame) (slot : Slot) (v : Value) : Run Unit := do
  match slot with
  | .frame i => setLocal f i (← assign (← local? f i) v)
  | .captured i => setCell (← capturedCell f i) v
  | .global k =>
    let name ← constant f k
    match (← get).globals.find? name with
    | some old => setGlobal name (← assign old v)
    | none => setGlobal name v

/-- What a variable holds before a function is declared in it. -/
def declaredBefore (f : Frame) (slot : Slot) : Run Value := do
  match slot with
  | .frame i => local? f i
  | .captured i => return .cell (← capturedCell f i)
  | .global k => return ((← get).globals.find? (← constant f k)).getD .null

/-- Declares a function in a variable: it becomes an overload of a function that the variable holds. -/
def declare (f : Frame) (slot : Slot) (v : Value) : Run Unit := do
  let before ← declaredBefore f slot
  match v with
  | .object id => writeSlot f slot (.object (← merge before id))
  | v => writeSlot f slot v

-- ---------------------------------------------------------------------------
-- Functions and literals
-- ---------------------------------------------------------------------------

/-- The class that a parameter is declared with; without one, the root. -/
def parameterClass (h : Heap) (v : Value) : Except Failure ClassId :=
  if h.isNull v then .ok .root
  else
    match h.contentOf v with
    | some (.cls c) => .ok c
    | _ => .error (h.mistyped "Class" v)

/-- Fixes the parameter classes of a routine when it is first made a function. They cannot change. -/
def sealSignature (key : RoutineKey) (name : String) (signature : List ClassId) : Run Unit := do
  match (← get).signatures.lookup key with
  | some fixed => if fixed ≠ signature then fail (.signatureChanged name)
  | none => modify fun m => { m with signatures := (key, signature) :: m.signatures }

/-- The cell that a function to be created captures. -/
def capture (f : Frame) (c : Capture) : Run CellId :=
  if c.fromFrame then localCell f c.index else capturedCell f c.index

/-- A function of a routine nested in the one that is running, with the classes of its parameters. -/
def newClosure (f : Frame) (child : Nat) (classes : Array Value) : Run Value := do
  match f.routine.children[child]? with
  | none => fail .constantOutOfRange
  | some routine =>
    let h ← heap
    let signature ← (classes.toList.mapM (parameterClass h) : Except Failure (List ClassId))
    let key : RoutineKey := ⟨f.key.chunk, child :: f.key.path⟩
    sealSignature key routine.name signature
    let captured ← routine.captures.mapM (capture f)
    modify fun m => { m with closures := m.closures + 1 }
    newFunction (.ofClosure routine.name
      { callable := .script routine key, signature := signature, captured := captured,
        serial := (← get).closures })

/-- The entries of a table literal: keys and values by turns. -/
def pairs (h : Heap) : List Value → Except Failure (List (Key × Value))
  | key :: v :: rest => do
    let key ← h.key key
    return (key, h.resolve v) :: (← pairs h rest)
  | _ => .ok []

/-- The texts of several values. -/
def texts (values : Array Value) : Run (List String) := do
  let h ← heap
  return values.toList.map h.text

-- ---------------------------------------------------------------------------
-- Instructions
-- ---------------------------------------------------------------------------

/-- Leaves the condition of a jump on the stack if the jump is taken, and drops it otherwise. -/
def jumpKeeping (target : Nat) (jumpIf : Bool) : Run Flow := do
  let v ← peek 0
  if (← heap).truth v = jumpIf then return .jump target
  let _ ← pop
  return .next

/-- Takes the condition of a jump. -/
def jumpTaking (target : Nat) (jumpIf : Bool) : Run Flow := do
  let v ← pop
  if (← heap).truth v = jumpIf then return .jump target
  return .next

def performJump (test : JumpTest) (target : Nat) : Run Flow :=
  match test with
  | .always => return .jump target
  | .ifFalse => jumpTaking target false
  | .ifTrue => jumpTaking target true
  | .ifFalseKeep => jumpKeeping target false
  | .ifTrueKeep => jumpKeeping target true

/-- Fails unless the condition holds, with the message given as a second operand. -/
def performAssert (operands : Nat) : Run Unit := do
  let message ← if operands > 1 then some <$> pop else pure none
  let condition ← pop
  let h ← heap
  if !h.truth condition then fail (.assertion (message.elim "assertion failed" h.text))

/-- Makes slots up to a number of them. -/
def performReserve (f : Frame) (slots : Nat) : Run Unit := do
  let m ← get
  let top := f.base + slots
  if top > m.config.stackLimit then fail .stackOverflow
  set { m with stack := m.stack ++ Array.replicate (top - m.stack.size) Value.null }

/-- Reads an element for a use of it. -/
def performElement (indices : Nat) (use : Use) : Run Unit := do
  let indices ← popMany indices
  let container ← pop
  match ← settle use with
  | .reference => push (.cell (← elementCell container indices))
  | .unique => push (← ownElement container indices)
  | _ => push (← (← heap).element container indices)

/-- Reads a field for a use of it. -/
def performMember (f : Frame) (name : Nat) (use : Use) : Run Unit := do
  let object ← pop
  let name ← constant f name
  match ← settle use with
  | .reference => push (.cell (← fieldCell object name))
  | .unique => push (← ownField object name)
  | _ => push (← field object name)

/-- A number among the constants. -/
def pushConstant (constants : Array α) (index : Nat) (wrap : α → Value) : Run Unit :=
  match constants[index]? with
  | some a => push (wrap a)
  | none => fail .constantOutOfRange

/-- Performs an instruction that neither jumps nor calls nor returns. -/
def performPlain (f : Frame) (op : Instruction) : Run Unit := do
  match op with
  | .pushNull => push .null
  | .pushBool b => push (.bool b)
  | .pushSmall n => push (.int n.toInt64)
  | .pushInt k => pushConstant f.routine.integers k .int
  | .pushFloat k => pushConstant f.routine.floats k .float
  | .pushNan => push (.float (0.0 / 0.0))
  | .pushStr k => pushConstant f.routine.strings k .text
  | .pop =>
    let _ ← pop
  | .reserve slots => performReserve f slots
  | .read slot use => push (← readSlot f slot use)
  | .write slot => writeSlot f slot (← pop)
  | .define i =>
    let v ← pop
    let _ ← local? f i
    setLocal f i v
  | .declare slot => declare f slot (← pop)
  | .count i up =>
    let old ← local? f i
    setLocal f i (← assign old (← (← heap).stepCounter old up))
  | .element indices use => performElement indices use
  | .setElement indices =>
    let indices ← popMany indices
    let container ← pop
    setElement container indices (← pop)
  | .member name use => performMember f name use
  | .setMember name =>
    let object ← pop
    let v ← pop
    setField object (← constant f name) v
  | .binary op =>
    let right ← pop
    let left ← pop
    push (← (← heap).binary op left right)
  | .negate =>
    let v ← pop
    push (← (← heap).negate v)
  | .not =>
    let v ← pop
    push (.bool (!(← heap).truth v))
  | .concat parts => push (.text (String.join (← texts (← popMany parts))))
  | .precall =>
    let callee ← peek 0
    modify fun m => { m with precall := m.heap.calledFlags callee :: m.precall }
  | .closure child params => push (← newClosure f child (← popMany params))
  | .list n =>
    let items ← popMany n
    push (← newList (items.map (← heap).resolve))
  | .table n =>
    let values ← popMany (2 * n)
    push (← newTable (OrderedMap.ofList (← pairs (← heap) values.toList)))
  | .set n =>
    let values ← popMany n
    let h ← heap
    let keys ← (values.toList.mapM h.key : Except Failure (List Key))
    push (← newSet (keys.foldl KeySet.insert #[]))
  | .array rows cols =>
    let values ← popMany (rows * cols)
    let h ← heap
    let numbers ← (values.toList.mapM h.numberOf : Except Failure (List Float))
    push (← newArray (← Matrix.ofShape rows cols numbers.toArray))
  | .iterate byRef =>
    let v ← pop
    push (← newObject .iterator (.iterator (← (← heap).iterator v byRef)))
  | .hasNext =>
    let (_, it) ← iteratorOf (← pop)
    push (.bool ((← heap).hasNext it))
  | .nextKey =>
    let (_, it) ← iteratorOf (← pop)
    push ((← heap).nextKey it)
  | .nextValue =>
    let v ← pop
    push (← nextValue v)
  | .print n newline =>
    let line := " ".intercalate (← texts (← popMany n))
    write (if newline then line ++ "\n" else line)
  | .assert operands => performAssert operands
  | .throw =>
    let v ← pop
    fail (.thrown ((← heap).text v))
  | .jump .. | .call .. | .result => return

/-- Performs an instruction. -/
def perform (f : Frame) (op : Instruction) : Run Flow := do
  match op with
  | .jump test target => performJump test target
  | .call args keepRef =>
    modify fun m => { m with precall := m.precall.drop 1 }
    return .enter args keepRef
  | .result => return .leave (← pop)
  | op =>
    performPlain f op
    return .next

-- ---------------------------------------------------------------------------
-- Steps
-- ---------------------------------------------------------------------------

/-- Performs the next instruction of a frame. -/
def stepFrame (f : Frame) : Run Unit := do
  match f.routine.code.ops[f.ip]? with
  | none => fail .codeOutOfRange
  | some op =>
    match ← perform f op with
    | .next => goTo (· + 1)
    | .jump target => goTo fun _ => target
    | .enter args keepRef => modify fun m => { m with control := .entering args keepRef :: m.control }
    | .leave v => complete (f.base - 1) f.keepRef v

/-- One step of the innermost activation. -/
def step : Run Unit := do
  match (← get).control with
  | [] => return
  | .script f :: _ => stepFrame f
  | .native w :: _ => resumeNative w
  | .entering args keepRef :: _ => enter args keepRef

end Run

end Rill
