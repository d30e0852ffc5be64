-- SUMMARY: Running the machine to the end of a call, failures on the way, and the calls of a host.
import Rill.Machine.Step

/-!
# Execution

A step that fails gives its failure the position of the innermost script frame. A guarded call of a
native function takes the failure and goes on with its headline; without one the call that the host made
fails, and stack, activations and recorded reference flags are what they were before it.
-/

namespace Rill

-- ---------------------------------------------------------------------------
-- Failures
-- ---------------------------------------------------------------------------

/-- The activation waits for a guarded call. -/
def Activation.isGuarded : Activation → Bool
  | .native w => w.guarded
  | _ => false

namespace Machine

/-- The failure with the position of the innermost script frame and the active calls, unless it has a
position already. -/
def locate (m : Machine) (e : Failure) : Failure :=
  match e.line, m.frames with
  | none, f :: _ =>
    { e with
      line := some (f.routine.code.lineAt f.ip), file := some f.routine.file, trace := m.trace }
  | _, _ => e

/-- Forgets the reference flags recorded since there were `count` of them. -/
def forgetPrecalls (m : Machine) (count : Nat) : Machine :=
  { m with precall := m.precall.drop (m.precall.length - count) }

/-- Ends the activations that began since there were `count` of them. -/
def forgetActivations (m : Machine) (count : Nat) : Machine :=
  { m with control := m.control.drop (m.control.length - count) }

/-- The machine after the innermost guarded call has taken a failure, if there is one that began when
there were at least `outer` activations. -/
def recover (m : Machine) (outer : Nat) (e : Failure) : Option Machine :=
  match m.control.dropWhile (!·.isGuarded) with
  | .native w :: rest =>
    if rest.length < outer then none
    else
      let m := m.forgetPrecalls w.precalls
      some { m with
        stack := (m.stack.shrink w.inner).push (.text e.headline)
        control := .native { w with succeeded := false } :: rest }
  | _ => none

end Machine

namespace Run

/-- One step, with its failure located and taken by a guarded call if there is one. -/
def attempt (outer : Nat) : Run Unit := fun m =>
  match step m with
  | .ok () m => .ok () m
  | .error e m =>
    let e := m.locate e
    match m.recover outer e with
    | some m => .ok () m
    | none => .error e m

/-- Runs until only the `outer` outermost activations are left, for at most a number of steps. The result
tells whether it came to that. -/
def attempts (outer : Nat) : Nat → Run Bool
  | 0 => return ((← get).control.drop outer).isEmpty
  | count + 1 => do
    if ((← get).control.drop outer).isEmpty then return true
    attempt outer
    attempts outer count

/-- More steps than a machine makes. -/
def endlessly : Nat := 0x4000000000000000

-- ---------------------------------------------------------------------------
-- Calls of a host
-- ---------------------------------------------------------------------------

/-- Runs a call whose callee and arguments are on the stack, for at most a number of steps. -/
def callPushed (steps count : Nat) (mustBeClass : Bool) : Run Bool := do
  let m ← get
  let callee := m.stack.getD (m.stack.size - 1 - count) .null
  let isClass : Bool :=
    match m.heap.contentOf callee with
    | some (.cls _) => true
    | _ => false
  if mustBeClass && !isClass then fail (.notConstructible (m.heap.typeName callee))
  modify fun m => { m with control := .entering count false :: m.control }
  attempts m.control.length steps

/-- Calls the value below the top `count` values. Its result takes their place; if the call fails, they
are removed, and a guarded call leaves the headline of the failure. The result tells whether the call
was over after a number of steps. -/
def hostCall (steps count : Nat) (mustBeClass guarded : Bool) : Run Bool := fun m =>
  if m.stack.size < count + 1 then .error Fault.stackUnderflow.failure m
  else
    match callPushed steps count mustBeClass m with
    | .ok ended after => .ok ended after
    | .error e after =>
      let after := (after.forgetPrecalls m.precall.length).forgetActivations m.control.length
      let stack := after.stack.shrink (m.stack.size - 1 - count)
      .error e { after with stack := if guarded then stack.push (.text e.headline) else stack }

def call (count : Nat) : Run Unit := discard (hostCall endlessly count false false)

def guardedCall (count : Nat) : Run Unit := discard (hostCall endlessly count false true)

/-- Calls a class to make an instance of it. -/
def construct (count : Nat) : Run Unit := discard (hostCall endlessly count true false)

def guardedConstruct (count : Nat) : Run Unit := discard (hostCall endlessly count true true)

/-- Calls a value with arguments that the host keeps during the call. -/
def callValue (callee : Value) (args : Array Value) : Run Value := do
  let m ← get
  push callee
  args.forM push
  modify fun m => { m with held := callee :: args.toList ++ m.held }
  tryCatch (call args.size) fun e => do
    modify fun after => { after with held := m.held, stack := after.stack.shrink m.stack.size }
    throw e
  modify fun after => { after with held := m.held }
  pop

-- ---------------------------------------------------------------------------
-- Scripts
-- ---------------------------------------------------------------------------

/-- Runs a function without arguments. -/
def runFunction (function : Value) : Run Value := do
  push function
  call 0
  let v ← pop
  return (← heap).resolve v

/-- Runs a source text. -/
def runText (file source : String) : Run Value := do runFunction (← loadText file source)

/-- Runs a file. -/
def runFile (path : String) : Run Value := do runFunction (← loadFile path)

end Run

namespace Machine

/-- A machine with the classes of the language and the core functions, and the library if wanted. -/
def new (m : Machine) (library : Bool) : Machine :=
  let start : Run Unit := do
    Run.addLanguage
    if library then Run.addLibrary
    Run.reclaim
  match start m with
  | .ok () m | .error _ m => m

end Machine

end Rill
