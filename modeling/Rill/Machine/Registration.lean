-- SUMMARY: Creation of classes and registration of native functions, methods, initializers and fields.
import Rill.Machine.State

/-!
# Registration

What a host or the library adds to a machine. Functions registered under a name that already holds a
function become overloads of it; a stored function is never changed, a new one takes its place.
-/

namespace Rill.Run

/-- A closure that runs a native function. -/
def nativeClosure (fn : Native) (signature : List ClassId) (refs : RefFlags) : Closure :=
  { callable := .native fn refs, signature := signature }

/-- A function added to what is stored already: its closures become overloads of a stored function, and
otherwise it takes the place of what is stored. -/
def merge (existing : Value) (function : ObjectId) : Run ObjectId := do
  let h ← heap
  match h.contentOf existing, h.content? function with
  | some (.function old), some (.function new) =>
    if new.closures.isEmpty then return function
    allocate .function (.function (← old.addAll new.closures))
  | _, _ => return function

/-- A new function with one native closure. -/
def newNative (name : String) (fn : Native) (signature : List ClassId) (refs : RefFlags) : Run ObjectId :=
  allocate .function (.function (.ofClosure name (nativeClosure fn signature refs)))

/-- Binds a native function to a global name. -/
def addGlobalFunction (name : String) (fn : Native) (signature : List ClassId) (refs : RefFlags := 0) :
    Run Unit := do
  let function ← newNative name fn signature refs
  let existing := ((← get).globals.find? name).getD .null
  setGlobal name (.object (← merge existing function))

def modifyClasses (f : ClassTree → ClassTree) : Run Unit :=
  modifyHeap fun h => { h with classes := f h.classes }

/-- Adds a method: a member of a class that is found through its instances. -/
def addMethod (cls : ClassId) (name : String) (fn : Native) (signature : List ClassId)
    (refs : RefFlags := 0) : Run Unit := do
  let function ← newNative name fn signature refs
  let own := ((← heap).classes.get? cls).bind (·.members.find? name)
  let merged ← merge (own.getD .null) function
  modifyClasses (·.setMember cls name (.object merged))

/-- Adds an overload of what a class does when it is called. -/
def addInitializer (cls : ClassId) (fn : Native) (signature : List ClassId) (refs : RefFlags := 0) :
    Run Unit := do
  let classes := (← heap).classes
  let function ← newNative (classes.name cls) fn signature refs
  let existing := ((classes.initializer? cls).map Value.object).getD .null
  let merged ← merge existing function
  modifyClasses (·.setInitializer cls merged)

/-- Adds a computed field. -/
def addAccessor (cls : ClassId) (name : String) (getter : Native) (setter : Option Native := none) :
    Run Unit :=
  modifyClasses (·.setAccessor cls name ⟨getter, setter⟩)

/-- Creates a class, its object, and a global of its name. -/
def createClass (name : String) (parent : Option ClassId) (collectable : Bool) : Run ClassId := do
  let cls : ClassId := ⟨(← heap).classes.size⟩
  let object ← allocate .cls (.cls cls)
  modifyClasses (·.create name parent collectable object)
  setGlobal name (.object object)
  return cls

end Rill.Run
