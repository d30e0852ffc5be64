-- SUMMARY: The command line: what its arguments ask for, and carrying it out.
import Rill.Program.Repl
import Rill.Program.Suite

/-!
# Commands

`Invocation.ofArguments` takes the arguments apart, `Invocation.perform` does what they ask for and gives
what is written and the exit status.
-/

namespace Rill

-- ---------------------------------------------------------------------------
-- Arguments
-- ---------------------------------------------------------------------------

/-- What the program is asked to do. `needsPath` is a command without the script it is about. -/
inductive Command
  | usage
  | version
  | run (path : String)
  | check (path : String)
  | repl
  | test (directory : String)
  | needsPath (name : String)
  | unknown (name : String)
  deriving Repr, DecidableEq

/-- The last name of a path, unless it leads upwards. -/
def fileName? (path : String) : Option String :=
  match ((Files.Tree.pathParts path).filter fun name => name ≠ "" ∧ name ≠ ".").getLast? with
  | some ".." => none
  | name => name

/-- The path ends like that of a script, in letters of either case. -/
def isScriptPath (path : String) : Bool :=
  match (fileName? path).bind Suite.extension? with
  | some extension => extension.toLower = "rill"
  | none => false

/-- The command that the arguments name which are not flags. -/
def Command.ofArguments : List String → Command
  | [] => .usage
  | "run" :: rest => (rest.head?).elim (.needsPath "run") .run
  | "check" :: rest => (rest.head?).elim (.needsPath "check") .check
  | "repl" :: _ => .repl
  | "test" :: rest => .test ((rest.head?).getD ".")
  | name :: _ =>
    if name ∈ ["help", "--help", "-h"] then .usage
    else if name ∈ ["version", "--version", "-V"] then .version
    else if isScriptPath name then .run name
    else .unknown name

/-- The command reads or runs scripts. -/
def Command.usesFiles : Command → Bool
  | .run _ | .check _ | .repl | .test _ => true
  | .usage | .version | .needsPath _ | .unknown _ => false

/-- A command with its settings. -/
structure Invocation where
  command : Command
  options : Options := {}
  verbose : Bool := false
  deriving Repr, DecidableEq

/-- The flags among arguments applied from left to right, and the arguments that are none. -/
def readFlags (options : Options) (verbose : Bool) :
    List String → Except OptionFault (Options × Bool × List String)
  | [] => .ok (options, verbose, [])
  | arg :: rest => do
    match ← options.applyFlag arg with
    | some options => readFlags options verbose rest
    | none =>
      if arg = "--verbose" ∨ arg = "-v" then readFlags options true rest
      else
        let (options, verbose, positional) ← readFlags options verbose rest
        return (options, verbose, arg :: positional)

/-- What the arguments ask for, with options from the environment to begin with. -/
def Invocation.ofArguments (options : Options) (args : List String) : Except OptionFault Invocation := do
  let (options, verbose, positional) ← readFlags options false args
  return { command := .ofArguments positional, options := options, verbose := verbose }

-- ---------------------------------------------------------------------------
-- Results
-- ---------------------------------------------------------------------------

/-- What the program writes, and its exit status. -/
structure Result where
  output : String := ""
  errors : String := ""
  status : Int := 0
  deriving Repr, DecidableEq

def version : String := "0.3.0"

/-- The words about the program. -/
def usage : String := unlines
  [ "Rill scripting language",
    "",
    "Usage: rill <command> [options]",
    "",
    "Commands:",
    "  run <file.rill>      Run a script",
    "  check <file.rill>    Compile a script without running it",
    "  repl                 Start an interactive session",
    "  test [dir]           Run every script under a directory (default: .)",
    "  help                 Show this help message",
    "  version              Show version information",
    "",
    "Options:",
    "  --debug              Compile debug blocks",
    "  --gc-threshold=<n>   Registrations between collections (0 disables)",
    "  --verbose, -v        Show the output of passing test scripts",
    "",
    "Environment:",
    "  RILL_DEBUG, RILL_GC_THRESHOLD   Defaults for the options above",
    "  RUST_LOG                        Enable tracing output",
    "  RILL_LOG_TREE                   Print tracing spans as a tree" ]

/-- What an interactive session begins with. -/
def greeting : String := "Rill " ++ version ++ ". Type quit() or press Ctrl-D to leave.\n"

/-- An error of the command line itself. -/
def Result.ofMessage (message : String) (status : Int) : Result :=
  { errors := "error: " ++ message ++ "\n", status := status }

-- ---------------------------------------------------------------------------
-- Commands
-- ---------------------------------------------------------------------------

/-- Does something with the text of a script, if there is one. -/
def withScript (s : Surroundings) (path : String) (f : String → Result × Surroundings) :
    Result × Surroundings :=
  match s.files.read path with
  | .ok source => f source
  | .error why => (.ofMessage (Fault.refused "read" path why).message 1, s)

/-- Runs a script. -/
def runScript (o : Options) (s : Surroundings) (path : String) : Result × Surroundings :=
  withScript s path fun source =>
    match Run.runText path source (o.machine s) with
    | .ok _ m => ({ output := m.output }, s.after m)
    | .error e m =>
      let errors := if e.isExit then "" else e.report (some source)
      ({ output := m.output, errors := errors, status := e.exitStatus }, s.after m)

/-- Compiles a script without running it. -/
def checkScript (o : Options) (s : Surroundings) (path : String) : Result × Surroundings :=
  withScript s path fun source =>
    match compileText source path o.debug with
    | .ok routine =>
      let count := toString routine.code.ops.size
      ({ output := "OK: " ++ path ++ " (" ++ count ++ " instructions)\n" }, s)
    | .error e => ({ errors := e.report (some source), status := 1 }, s)

/-- An interactive session over the whole input. -/
def runSession (o : Options) (s : Surroundings) : Result × Surroundings :=
  let session : Repl := { machine := o.machine { s with input := [] } }
  let (exchanges, status) := session.converse (Text.linesOf (String.ofList s.input))
  let shown (e : Exchange) : String := e.prompt ++ e.printed ++ e.shown
  ({ output := greeting ++ String.join (exchanges.map shown), status := status }, { s with input := [] })

/-- Runs the scripts below a directory. -/
def runSuite [Monad μ]
    (timed : (Unit → Suite.Outcome × Surroundings) → μ ((Suite.Outcome × Surroundings) × String))
    (o : Options) (verbose : Bool) (s : Surroundings) (directory : String) : μ (Result × Surroundings) := do
  if !s.files.isDirectoryPath directory then return (.ofMessage ("not a directory: " ++ directory) 1, s)
  match Suite.scripts s.files directory o.config.extension with
  | .error why => return (.ofMessage (Fault.refused "scan" directory why).message 1, s)
  | .ok paths =>
    let (outcomes, s) ← Suite.runAll timed o s paths
    let status := Suite.exitStatus (outcomes.map (·.1))
    return ({ output := Suite.summary outcomes verbose, status := status }, s)

/-- Does what is asked for. `timed` runs a test script and tells how many milliseconds it took. -/
def Invocation.perform [Monad μ]
    (timed : (Unit → Suite.Outcome × Surroundings) → μ ((Suite.Outcome × Surroundings) × String))
    (i : Invocation) (s : Surroundings) : μ (Result × Surroundings) :=
  match i.command with
  | .usage => return ({ output := usage }, s)
  | .version => return ({ output := "rill " ++ version ++ "\n" }, s)
  | .needsPath name =>
    return ({ errors := "Usage: rill " ++ name ++ " <file.rill>\n", status := 2 }, s)
  | .unknown name =>
    return ({ output := usage, errors := "Unknown command: " ++ name ++ "\n\n", status := 2 }, s)
  | .run path => return runScript i.options s path
  | .check path => return checkScript i.options s path
  | .repl => return runSession i.options s
  | .test directory => runSuite timed i.options i.verbose s directory

/-- What the program is asked to do in its surroundings, and a warning about them. -/
def Surroundings.invocation (s : Surroundings) (args : List String) :
    Except OptionFault Invocation × String :=
  let (options, fault) := Options.ofVariables fun name => s.environment.lookup name
  (Invocation.ofArguments options args, fault.elim "" fun f => "warning: " ++ f.message ++ "\n")

/-- The program: what arguments ask for, done in some surroundings. -/
def perform [Monad μ]
    (timed : (Unit → Suite.Outcome × Surroundings) → μ ((Suite.Outcome × Surroundings) × String))
    (args : List String) (s : Surroundings) : μ (Result × Surroundings) := do
  let (invocation, warning) := s.invocation args
  let (result, s) ←
    match invocation with
    | .ok invocation => invocation.perform timed s
    | .error f => pure (.ofMessage f.message 2, s)
  return ({ result with errors := warning ++ result.errors }, s)

end Rill
