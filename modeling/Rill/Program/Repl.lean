-- SUMMARY: The interactive session: entries read line by line, run, and their values shown.
import Rill.Machine.Execution
import Rill.Report

/-!
# Interactive sessions

Each entry runs as a script of its own on one machine, so that globals last from entry to entry and
locals do not. An entry that stops at the end of its text goes on with the next line. The value of an
entry that is an expression is shown.
-/

namespace Rill

/-- A session between two lines. `entry` holds the lines of an entry that goes on. -/
structure Repl where
  machine : Machine
  entry : String := ""

/-- What a line leads to: what the session shows, the session after it, and a status if it ends. -/
structure Turn where
  shown : String := ""
  next : Repl
  status : Option Int := none

/-- A prompt and what followed it: what the entry printed, and what the session showed. -/
structure Exchange where
  prompt : String
  printed : String
  shown : String

namespace Repl

/-- The file name of entries. -/
def entryName : String := "[repl]"

/-- Runs an entry, as an expression if it is one. -/
def evaluate (entry : String) : Run Value := do
  let expression := "return " ++ entry
  let isExpression := (compileText expression entryName (← Run.config).debug).toBool
  Run.runText entryName (if isExpression then expression else entry)

/-- The text ended too early. -/
def isUnfinished (e : Failure) : Bool := e.category = .badSyntax && e.message.endsWith "end of file"

def prompt (r : Repl) : String := if r.entry = "" then "> " else "... "

/-- Goes on with a line of input. What the entry prints is left as the output of the machine. -/
def feed (r : Repl) (line : String) : Turn :=
  let entry := r.entry ++ line ++ "\n"
  if entry.toList.all Unicode.isBlank then { next := { r with entry := "" } }
  else
    match evaluate entry r.machine with
    | .ok .null m => { next := { machine := m } }
    | .ok v m => { shown := m.heap.text v ++ "\n", next := { machine := m } }
    | .error e m =>
      if isUnfinished e then { next := { machine := m, entry := entry } }
      else if e.isExit then { next := { machine := m }, status := some e.exitStatus }
      else { shown := e.report (some entry), next := { machine := m } }

/-- The session over the lines of an input, and its status. The end of the input ends it. -/
def converse (r : Repl) : List String → List Exchange × Int
  | [] => ([⟨r.prompt, "", "\n"⟩], 0)
  | line :: rest =>
    let turn := { r with machine := { r.machine with output := "" } }.feed line
    let exchange : Exchange := ⟨r.prompt, turn.next.machine.output, turn.shown⟩
    match turn.status with
    | some status => ([exchange], status)
    | none =>
      let (more, status) := turn.next.converse rest
      (exchange :: more, status)

end Repl

end Rill
