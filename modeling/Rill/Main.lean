-- SUMMARY: The program: arguments, variables, files and input in, output and an exit status out.
import Rill.Files.Tree
import Rill.Program.Command

/-!
# The program

The commands work on a copy of the current directory. What they have changed in it is written back at the
end. A session at a terminal reads its lines one after the other; any other input is read before the
command begins.
-/

namespace Rill

-- ---------------------------------------------------------------------------
-- Files
-- ---------------------------------------------------------------------------

/-- Adds what is below an entry of a directory to a tree. Files that hold no text are left out. -/
partial def readEntry (t : Files.Tree) (place : Files.Place) (entry : IO.FS.DirEntry) : IO Files.Tree := do
  match (← entry.path.symlinkMetadata).type with
  | .dir =>
    let mut t := t.setEntry place .directory
    for inner in ← entry.path.readDir do
      t ← readEntry t (place ++ [inner.fileName]) inner
    return t
  | _ =>
    try
      let text ← IO.FS.readFile entry.path
      return { t.setEntry place (.file t.contents.size) with contents := t.contents.push text }
    catch _ => return t

/-- The current directory and everything in it. -/
def readFiles : IO Files.Tree := do
  let root ← IO.currentDir
  let names := (Files.Tree.pathParts (toString root)).filter (· ≠ "")
  let above := (List.range (names.length + 1)).drop 1
  let entries : List (Files.Place × Files.Entry) := above.map fun n => (names.take n, .directory)
  readEntry { entries := entries, current := names } names ⟨root, "."⟩

/-- Makes a change to the files. -/
def makeChange : Files.Change → IO Unit
  | .removeFile place => IO.FS.removeFile (Files.placeText place)
  | .removeDirectory place => IO.FS.removeDir (Files.placeText place)
  | .makeDirectory place => IO.FS.createDir (Files.placeText place)
  | .write place text => IO.FS.writeFile (Files.placeText place) text

-- ---------------------------------------------------------------------------
-- Input and output
-- ---------------------------------------------------------------------------

/-- The rest of an input. -/
partial def readRest (input : IO.FS.Stream) (before : String := "") : IO String := do
  let line ← input.getLine
  if line.isEmpty then return before else readRest input (before ++ line)

/-- Writes a text out at once. -/
def display (text : String) : IO Unit := do
  IO.print text
  (← IO.getStdout).flush

/-- Reads and feeds lines until the session ends. -/
partial def converse (r : Repl) (input : IO.FS.Stream) : IO (Int × Machine) := do
  display r.prompt
  let line ← input.getLine
  if line.isEmpty then
    display "\n"
    return (0, r.machine)
  let turn := { r with machine := { r.machine with output := "" } }.feed (String.join (Text.linesOf line))
  display (turn.next.machine.output ++ turn.shown)
  match turn.status with
  | some status => return (status, turn.next.machine)
  | none => converse turn.next input

/-- The variables that the program looks at. -/
def readVariables : IO (List (String × String)) := do
  let names := ["RILL_DEBUG", "RILL_GC_THRESHOLD", "HOME", "USERPROFILE"]
  return (← names.mapM fun name => return (← IO.getEnv name).map (name, ·)).filterMap id

/-- Runs a test script and measures how many milliseconds it takes. -/
def timed (f : Unit → α) : IO (α × String) := do
  let start ← IO.monoMsNow
  let result ← IO.lazyPure f
  return (result, toString ((← IO.monoMsNow) - start))

/-- Performs a command in its surroundings: its exit status and the files it leaves. -/
def serve (i : Invocation) (s : Surroundings) : IO (Int × Files.Tree) := do
  let input ← IO.getStdin
  if ← input.isTty then
    if i.command = .repl then
      display greeting
      let (status, m) ← converse { machine := i.options.machine s } input
      return (status, m.finalFiles)
  let given ← if ← input.isTty then pure "" else readRest input
  let (result, s) ← i.perform timed { s with input := given.toList }
  display result.output
  IO.eprint result.errors
  return (result.status, s.files)

end Rill

open Rill

def main (args : List String) : IO UInt32 := do
  let s : Surroundings := { environment := ← readVariables }
  let (invocation, warning) := s.invocation args
  IO.eprint warning
  match invocation with
  | .error fault =>
    IO.eprintln ("error: " ++ fault.message)
    return 2
  | .ok i =>
    let before ← if i.command.usesFiles then readFiles else pure {}
    let (status, after) ← serve i { s with files := before }
    (before.changes after).forM makeChange
    return (status % 256).toNat.toUInt32
