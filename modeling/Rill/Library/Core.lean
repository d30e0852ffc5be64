-- SUMMARY: The functions every machine has: collection, loading, input and ending a script.
import Rill.Heap.Text
import Rill.Library.Entry
import Rill.Machine.Collection
import Rill.Machine.Loading

/-!
# Core functions

These are there even without the library. A script ends by failing with a status.
-/

namespace Rill

/-- The next line of the input without the line breaks at its end, or null at the end of the input. -/
def Run.readInput : Run Value := do
  let input := (← get).input
  if input.isEmpty then return .null
  let line := input.takeWhile (· ≠ '\n')
  modify fun m => { m with input := input.drop (line.length + 1) }
  return .text (String.ofList (line.reverse.dropWhile (· = '\r')).reverse)

namespace Library

/-- A status of 32 bits; any other number becomes one. -/
def exitStatus (n : Int64) : Int := if -0x80000000 ≤ n.toInt ∧ n.toInt < 0x80000000 then n.toInt else 1

def core (f : CoreFunction) (args : Arguments) : Run Reply := do
  match f with
  | .collect =>
    let _ ← Run.collect
    return .value .null
  | .report =>
    if ← args.boolean 0 then
      Run.collectAndReport
    else
      let _ ← Run.collect
    return .value .null
  | .load => return .call (← Run.loadFile (← args.text 0)) #[] false
  | .compile => return .value (← Run.loadText "[string]" (← args.text 0))
  | .compileNamed =>
    let source ← args.text 0
    return .value (← Run.loadText (← args.text 1) source)
  | .readLine => return .value (← Run.readInput)
  | .quit => Run.fail (.quit 0)
  | .quitWith => Run.fail (.quit (exitStatus (← args.integer 0)))
  | .error => Run.fail (.thrown ((← Run.heap).text (args.nth 0)))

/-- The core functions by name, each with its overloads. -/
def coreFunctions : List (String × List (CoreFunction × List ClassId)) :=
  [ ("gc", [(.collect, []), (.report, [.boolean])]),
    ("load", [(.load, [.string])]),
    ("compile", [(.compile, [.string]), (.compileNamed, [.string, .string])]),
    ("read_line", [(.readLine, [])]),
    ("quit", [(.quit, []), (.quitWith, [.integer])]),
    ("error", [(.error, [.root])]) ]

/-- Binds a core function to its name. -/
def addCoreFunction (name : String) (overloads : List (CoreFunction × List ClassId)) : Run Unit := do
  let closures := overloads.map fun (f, signature) => Run.nativeClosure (.core f) signature 0
  let function ← Function.addAll { name := name } closures
  Run.setGlobal name (← Run.newFunction function)

end Library

end Rill
