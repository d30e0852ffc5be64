-- SUMMARY: What is around the program, and its settings from environment variables and flags.
import Rill.Decimal.Read
import Rill.Machine.Execution

/-!
# Options

The settings of a run come from environment variables first and from flags of the command line after
that. A variable that cannot be understood is passed over with a warning; a flag is an error.
-/

namespace Rill

-- ---------------------------------------------------------------------------
-- Surroundings
-- ---------------------------------------------------------------------------

/-- What the program finds: environment variables, files and its standard input. -/
structure Surroundings where
  environment : List (String × String) := []
  files : Files.Tree := {}
  input : List Char := []

/-- What a machine leaves of the surroundings it was given. -/
def Surroundings.after (s : Surroundings) (m : Machine) : Surroundings :=
  { s with files := m.finalFiles, input := m.input }

/-- The directory of the user. -/
def Surroundings.home (s : Surroundings) : Option String :=
  s.environment.lookup "HOME" <|> s.environment.lookup "USERPROFILE"

-- ---------------------------------------------------------------------------
-- Options
-- ---------------------------------------------------------------------------

/-- The settings shared by all commands. -/
structure Options where
  debug : Bool := false
  gcThreshold : Option Nat := none
  deriving Repr, DecidableEq

/-- A threshold that is no number. -/
inductive OptionFault
  | variable (value : String)
  | flag (value : String)
  deriving Repr, DecidableEq

def OptionFault.message : OptionFault → String
  | .variable value => "ignoring invalid RILL_GC_THRESHOLD \"" ++ value ++ "\""
  | .flag value => "invalid value for --gc-threshold: \"" ++ value ++ "\""

namespace Options

/-- The options that the environment asks for, and what is wrong with it. -/
def ofVariables (lookup : String → Option String) : Options × Option OptionFault :=
  let debug := (lookup "RILL_DEBUG").any fun value => value ≠ "" ∧ value ≠ "0"
  match lookup "RILL_GC_THRESHOLD" with
  | none => ({ debug := debug }, none)
  | some value =>
    match Decimal.readNat (Unicode.trim value.toList) with
    | some n => ({ debug := debug, gcThreshold := some n }, none)
    | none => ({ debug := debug }, some (.variable value))

/-- The beginning of the flag that sets the threshold. -/
def thresholdFlag : String := "--gc-threshold="

/-- The options with a flag applied, none if the argument is not a flag for them. -/
def applyFlag (o : Options) (arg : String) : Except OptionFault (Option Options) :=
  if arg = "--debug" then .ok (some { o with debug := true })
  else if arg.startsWith thresholdFlag then
    let value := arg.toList.drop thresholdFlag.length
    match Decimal.readNat value with
    | some n => .ok (some { o with gcThreshold := some n })
    | none => .error (.flag (String.ofList value))
  else .ok none

def config (o : Options) : Config :=
  let base : Config := {}
  { base with debug := o.debug, gcThreshold := o.gcThreshold.getD base.gcThreshold }

/-- A machine with the whole library. -/
def machine (o : Options) (s : Surroundings) : Machine :=
  Machine.new { config := o.config, files := s.files, input := s.input, home := s.home } true

end Options

end Rill
