-- SUMMARY: Source texts and files made into functions.
import Rill.Compile.Program
import Rill.Grammar.Statement
import Rill.Machine.Sharing

/-!
# Loading

A source text is parsed, compiled and made a function that runs it.
-/

namespace Rill

/-- The script in a file. An error in reading the file has no position. -/
def parseFile (t : Files.Tree) (path : String) : Except ParseError Script :=
  match t.read path with
  | .ok source => parse source
  | .error why => .error ⟨.unreadable path why.text, ⟨0, 0⟩, 0⟩

/-- The routine of a source text. -/
def compileText (source file : String) (debug : Bool) : Except Failure Routine :=
  match parse source with
  | .ok script => compile script file debug
  | .error e => .error (Failure.ofParse e file)

namespace Run

/-- A function that runs a source text. -/
def loadText (file source : String) : Run Value := do
  let routine ← compileText source file (← config).debug
  let key : RoutineKey := { chunk := (← get).chunks }
  modify fun m => { m with chunks := m.chunks + 1 }
  newFunction (.ofClosure routine.name { callable := .script routine key, signature := [] })

/-- An operation on files. Files that are no longer referred to are written out before. -/
def withFiles (f : Files.Tree → Except Failure (α × Files.Tree)) : Run α := do
  reclaim
  let (result, files) ← f (← get).files
  modify fun m => { m with files := files }
  return result

/-- The text of a file. -/
def readFile (path : String) : Run String :=
  withFiles fun t =>
    match t.read path with
    | .ok text => .ok (text, t)
    | .error why => .error (Fault.refused "read file" path why)

/-- A function that runs the text of a file. -/
def loadFile (path : String) : Run Value := do
  loadText path (← readFile path)

end Run

end Rill
