-- SUMMARY: What the library consists of, and how its functions take and edit their arguments.
import Rill.Machine.Registration
import Rill.Machine.Sharing

/-!
# Library entries

The library is a list of entries, each of which adds something to a machine. Functions that edit their
first argument take it by reference, as a cell; a container in it is unshared before it is edited.
-/

namespace Rill.Library

-- ---------------------------------------------------------------------------
-- Entries
-- ---------------------------------------------------------------------------

inductive Entry
  | function (name : String) (fn : Native) (signature : List ClassId)
  | editor (name : String) (fn : Native) (signature : List ClassId)
  | initializer (cls : ClassId) (fn : Native) (signature : List ClassId)
  | field (cls : ClassId) (name : String) (getter : Native)
  | constant (name : String) (value : Value)

/-- Adds an entry to a machine. An editor takes its first argument by reference. -/
def Entry.register : Entry → Run Unit
  | .function name fn signature => Run.addGlobalFunction name fn signature
  | .editor name fn signature => Run.addGlobalFunction name fn signature 1
  | .initializer cls fn signature => Run.addInitializer cls fn signature
  | .field cls name getter => Run.addAccessor cls name getter
  | .constant name value => Run.setGlobal name value

-- ---------------------------------------------------------------------------
-- Arguments
-- ---------------------------------------------------------------------------

/-- The arguments of a native function. -/
abbrev Arguments := Array Value

namespace Arguments

/-- The argument at a position. -/
def nth (args : Arguments) (k : Nat) : Value := args.getD k .null

/-- The argument at a position, with the value of a cell in its place. -/
def value (args : Arguments) (k : Nat) : Run Value := do return (← Run.heap).resolve (args.nth k)

def integer (args : Arguments) (k : Nat) : Run Int64 := do (← Run.heap).integerOf (args.nth k)

def number (args : Arguments) (k : Nat) : Run Float := do (← Run.heap).numberOf (args.nth k)

def boolean (args : Arguments) (k : Nat) : Run Bool := do (← Run.heap).booleanOf (args.nth k)

def text (args : Arguments) (k : Nat) : Run String := do (← Run.heap).textOf (args.nth k)

def chars (args : Arguments) (k : Nat) : Run (List Char) := do return (← args.text k).toList

def list (args : Arguments) (k : Nat) : Run (Array Value) := do (← Run.heap).listOf (args.nth k)

def table (args : Arguments) (k : Nat) : Run Table := do (← Run.heap).tableOf (args.nth k)

def set (args : Arguments) (k : Nat) : Run KeySet := do (← Run.heap).setOf (args.nth k)

def matrix (args : Arguments) (k : Nat) : Run Matrix := do (← Run.heap).matrixOf (args.nth k)

def key (args : Arguments) (k : Nat) : Run Key := do (← Run.heap).key (args.nth k)

/-- A count: an integer that is not negative. -/
def count (args : Arguments) (k : Nat) : Run Nat := do
  let n ← args.integer k
  if n < 0 then Run.fail (.negativeCount n.toInt)
  return n.toInt.toNat

end Arguments

-- ---------------------------------------------------------------------------
-- Editing
-- ---------------------------------------------------------------------------

/-- Stores a value in the variable behind an argument passed by reference. -/
def store (target v : Value) : Run Unit := do
  match target with
  | .cell id => Run.setCell id v
  | _ => return

/-- The unshared object behind an argument, with what it holds. -/
def ownObject (expected : String) (target : Value) : Run (ObjectId × Content) := do
  let (_, own) ← Run.unshareSlot target [target]
  let h ← Run.heap
  match own with
  | .object id =>
    match h.content? id with
    | some content => return (id, content)
    | none => throw (h.mistyped expected target)
  | _ => throw (h.mistyped expected target)

/-- Changes the list behind an argument. The change is kept when it comes with a failure. -/
def editList (target : Value) (f : Array Value → Array Value × Except Failure Value) : Run Value := do
  match ← ownObject "List" target with
  | (id, .list items) =>
    let (items, result) := f items
    Run.setContent id (.list items)
    result
  | _ => throw ((← Run.heap).mistyped "List" target)

/-- Replaces the items of the list behind an argument. -/
def replaceItems (target : Value) (f : Array Value → Except Failure (Array Value)) : Run Value :=
  editList target fun items =>
    match f items with
    | .ok changed => (changed, .ok .null)
    | .error e => (items, .error e)

def editTable (target : Value) (f : Table → Table) : Run Value := do
  match ← ownObject "Table" target with
  | (id, .table entries) =>
    Run.setContent id (.table (f entries))
    return .null
  | _ => throw ((← Run.heap).mistyped "Table" target)

def editSet (target : Value) (f : KeySet → KeySet) : Run Value := do
  match ← ownObject "Set" target with
  | (id, .set elements) =>
    Run.setContent id (.set (f elements))
    return .null
  | _ => throw ((← Run.heap).mistyped "Set" target)

def editArray (target : Value) (f : Matrix → Matrix) : Run Value := do
  match ← ownObject "Array" target with
  | (id, .array matrix) =>
    Run.setContent id (.array (f matrix))
    return .null
  | _ => throw ((← Run.heap).mistyped "Array" target)

end Rill.Library
