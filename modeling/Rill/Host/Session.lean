-- SUMMARY: What a host does with a machine: values, classes, functions and conversions.
import Rill.Machine.Execution

/-!
# Sessions

A host names classes by the globals that hold them, hands values to the machine, and takes values of a
type it expects.
-/

namespace Rill.Host

-- ---------------------------------------------------------------------------
-- Values
-- ---------------------------------------------------------------------------

/-- A value as a host writes it down. `space` is a new module, `global` what a global holds. -/
inductive Datum
  | null
  | bool (value : Bool)
  | int (value : Int64)
  | float (value : Float)
  | text (value : String)
  | list (items : List Datum)
  | table (entries : List (Datum × Datum))
  | set (items : List Datum)
  | array (numbers : List Float)
  | space (name : String)
  | global (name : String)
  deriving Inhabited

/-- What a global holds. -/
def global? (name : String) : Run (Option Value) := do
  let m ← get
  return (m.globals.find? name).map m.heap.resolve

mutual

/-- Makes a value. -/
def build : Datum → Run Value
  | .null => return .null
  | .bool b => return .bool b
  | .int n => return .int n
  | .float x => return .float x
  | .text s => return .text s
  | .list items => do Run.newList (← buildAll items).toArray
  | .table entries => do Run.newTable (OrderedMap.ofList (← buildEntries entries))
  | .set items => do
    let h ← Run.heap
    let keys ← ((← buildAll items).mapM h.key : Except Failure (List Key))
    Run.newSet (keys.foldl KeySet.insert #[])
  | .array numbers => Run.newArray (.row numbers.toArray)
  | .space name => Run.newObject .space (.space { name := name })
  | .global name => return (← global? name).getD .null

def buildAll : List Datum → Run (List Value)
  | [] => return []
  | d :: rest => do
    let v ← build d
    return v :: (← buildAll rest)

def buildEntries : List (Datum × Datum) → Run (List (Key × Value))
  | [] => return []
  | (key, d) :: rest => do
    let key ← build key
    let key ← (← Run.heap).key key
    let v ← build d
    return (key, v) :: (← buildEntries rest)

end

/-- Gives a global a value. -/
def setGlobal (name : String) (v : Value) : Run Unit := do Run.setGlobal name ((← Run.heap).resolve v)

-- ---------------------------------------------------------------------------
-- Classes and functions
-- ---------------------------------------------------------------------------

/-- The class that a global holds. -/
def classNamed (name : String) : Run ClassId := do
  match (← Run.heap).contentOf ((← global? name).getD .null) with
  | some (.cls c) => return c
  | _ => Run.fail (.noClass name)

/-- Creates a class below another one; its depth and the name of the class above it. -/
def createClass (name parent : String) (collectable : Bool) : Run (Nat × String) := do
  let above ← classNamed parent
  let cls ← Run.createClass name (some above) collectable
  let classes := (← Run.heap).classes
  return (classes.depth cls, (classes.parent? cls).elim "" classes.name)

/-- Adds a function. -/
def addFunction (name : String) (fn : HostFunction) (signature : List String) (refs : RefFlags) :
    Run Unit := do
  Run.addGlobalFunction name (.host fn) (← signature.mapM classNamed) refs

/-- Adds a method to a class. -/
def addMethod (cls name : String) (fn : HostFunction) (signature : List String) (refs : RefFlags) :
    Run Unit := do
  let cls ← classNamed cls
  Run.addMethod cls name (.host fn) (← signature.mapM classNamed) refs

/-- Lets a class be called with arguments of certain classes. -/
def addInitializer (cls : String) (signature : List String) (refs : RefFlags) : Run Unit := do
  let cls ← classNamed cls
  Run.addInitializer cls (.host (.instantiate cls)) (← signature.mapM classNamed) refs

/-- Adds a computed field to a class. -/
def addAccessor (cls name : String) (settable : Bool) : Run Unit := do
  let cls ← classNamed cls
  let setter : Option Native := if settable then some (.host (.printField name)) else none
  Run.addAccessor cls name (.host (.describeField name)) setter

/-- Number of steps from one class up to another, if that is above it. -/
def distance (cls base : String) : Run (Option Nat) := do
  let cls ← classNamed cls
  let base ← classNamed base
  return (← Run.heap).classes.distance? cls base

-- ---------------------------------------------------------------------------
-- Conversions
-- ---------------------------------------------------------------------------

/-- What a host can take a value as. -/
inductive Form
  | integer | float | number | boolean | text | list | table | array | display | truth | className

/-- The value taken as a form; containers are copied. -/
def take (v : Value) (form : Form) : Run Value := do
  let h ← Run.heap
  match form with
  | .integer => return .int (← h.integerOf v)
  | .float => return .float (← h.floatOf v)
  | .number => return .float (← h.numberOf v)
  | .boolean => return .bool (← h.booleanOf v)
  | .text => return .text (← h.textOf v)
  | .list => Run.newList (← h.listOf v)
  | .table => Run.newTable (← h.tableOf v)
  | .array => Run.newArray (← h.matrixOf v)
  | .display => return .text (h.text v)
  | .truth => return .bool (h.truth v)
  | .className => return .text (h.typeName v)

end Rill.Host
