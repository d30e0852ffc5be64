-- SUMMARY: Running every script below a directory as a test.
import Rill.Program.Options
import Rill.Report

/-!
# Test suites

The scripts below a directory run one after the other in the order of their paths, each on a machine of
its own. A script passes if it ends without a failure or quits with status zero.

Lines of a text end with a line feed, or with a carriage return and a line feed. Behind the last of them
there is another line only if it has characters.
-/

namespace Rill.Text

/-- The lines of a text, without what ends them. -/
def lines : List Char → List (List Char)
  | [] => []
  | '\n' :: rest => [] :: lines rest
  | '\r' :: '\n' :: rest => [] :: lines rest
  | c :: rest =>
    match lines rest with
    | [] => [[c]]
    | line :: more => (c :: line) :: more

/-- The lines of a text as texts. -/
def linesOf (text : String) : List String := (lines text.toList).map String.ofList

end Rill.Text

namespace Rill.Suite

-- ---------------------------------------------------------------------------
-- Finding scripts
-- ---------------------------------------------------------------------------

/-- What stands behind the last dot of a file name. A dot at the start does not count. -/
def extension? (name : String) : Option String :=
  match (name.splitOn ".").reverse with
  | last :: first :: rest => if first = "" ∧ rest = [] then none else some last
  | _ => none

/-- The paths of the scripts below a directory, in the order of their names. -/
def scripts (t : Files.Tree) (directory extension : String) : Except Files.Refusal (List String) := do
  match ← t.lookup directory with
  | (_, .file _) => throw .notDirectory
  | (top, .directory) =>
    let isScript (place : Files.Place) (entry : Files.Entry) : Bool :=
      entry ≠ .directory && top.isPrefixOf place &&
        ((place.getLast?.bind extension?).map ("." ++ ·)) = some extension
    let found := t.entries.filterMap fun (place, entry) =>
      if isScript place entry then some (place.drop top.length) else none
    return (found.mergeSort Files.Place.precedes).map fun names => names.foldl Files.joinPath directory

-- ---------------------------------------------------------------------------
-- Running scripts
-- ---------------------------------------------------------------------------

/-- How a script ended: the report of its failure, if it failed, and what it printed. -/
structure Outcome where
  path : String
  failure : Option String
  output : String
  deriving Repr, DecidableEq

def Outcome.passed (o : Outcome) : Bool := o.failure.isNone

/-- Runs one script. The surroundings are what it leaves. -/
def runScript (options : Options) (s : Surroundings) (path : String) : Outcome × Surroundings :=
  match s.files.read path with
  | .error why =>
    let e : Failure := Fault.refused "read" path why
    (⟨path, some (e.report none), ""⟩, s)
  | .ok source =>
    match Run.runText path source (options.machine s) with
    | .ok _ m => (⟨path, none, m.output⟩, s.after m)
    | .error e m =>
      let passed := e.isExit && e.exitStatus = 0
      (⟨path, if passed then none else some (e.report (some source)), m.output⟩, s.after m)

/-- Runs scripts one after the other. `timed` runs each of them and tells how long it took. -/
def runAll [Monad μ] (timed : (Unit → Outcome × Surroundings) → μ ((Outcome × Surroundings) × String))
    (options : Options) (s : Surroundings) : List String → μ (List (Outcome × String) × Surroundings)
  | [] => return ([], s)
  | path :: rest => do
    let ((outcome, s), time) ← timed fun _ => runScript options s path
    let (more, s) ← runAll timed options s rest
    return ((outcome, time) :: more, s)

-- ---------------------------------------------------------------------------
-- Summaries
-- ---------------------------------------------------------------------------

def passedCount (outcomes : List Outcome) : Nat := outcomes.countP (·.passed)

def failedCount (outcomes : List Outcome) : Nat := outcomes.countP (!·.passed)

/-- One if a script failed. -/
def exitStatus (outcomes : List Outcome) : Int := if failedCount outcomes > 0 then 1 else 0

/-- The outcome of a script in lines: how it ended and after how many milliseconds, its failure, and what
it printed if it failed or `verbose` asks for it. -/
def Outcome.summary (o : Outcome) (time : String) (verbose : Bool) : String :=
  let head := (if o.passed then "ok    " else "FAIL  ") ++ o.path ++ " (" ++ time ++ " ms)"
  let failure := (Text.linesOf (o.failure.getD "")).map ("      " ++ ·)
  let printed := if verbose || !o.passed then (Text.linesOf o.output).map ("    | " ++ ·) else []
  unlines (head :: failure ++ printed)

/-- The outcomes of a suite, and how many scripts passed and failed. -/
def summary (outcomes : List (Outcome × String)) (verbose : Bool) : String :=
  let count (n : Nat) : String := toString n
  String.join (outcomes.map fun (o, time) => o.summary time verbose) ++
    "\n" ++ count (passedCount (outcomes.map (·.1))) ++ " passed, " ++
    count (failedCount (outcomes.map (·.1))) ++ " failed\n"

end Rill.Suite
