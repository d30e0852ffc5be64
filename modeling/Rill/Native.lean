-- SUMMARY: The names of the functions that are not written in the language itself.
import Rill.Value

/-!
# Native functions

Every function that is not compiled from source is named by a constructor here, one for each overload.
What it does is defined with its library; functions of the host are named by what they do.
-/

namespace Rill

/-- The functions every machine has. -/
inductive CoreFunction
  | collect | report | load | compile | compileNamed | readLine | quit | quitWith | error
  deriving Repr, DecidableEq

/-- Conversions and introspection. `constant` is a class's call without arguments. -/
inductive GeneralFunction
  | typeName | length | text | truth | integer | float
  | constant (value : Value)
  deriving Repr, DecidableEq

/-- A function of one real variable. -/
inductive Elementary
  | sqrt | exp | log | log10 | log2 | sin | cos | tan | asin | acos | atan | floor | ceil | round | abs
  deriving Repr, DecidableEq

inductive MathFunction
  | apply (f : Elementary)
  | applyEach (f : Elementary)
  | atan2 | roundTo | absInt | minInt | maxInt | minFloat | maxFloat | random | randomTo
  deriving Repr, DecidableEq

inductive TextFunction
  | contains | startsWith | endsWith | find | findFrom | findBack | findBackFrom | left | right | slice
  | sliceCount | count | toUpper | toLower | isEmpty | char | split | reverse | trim | trimStart | trimEnd
  | append | prepend | insert | remove | removeFirst | removeLast | removeAt | replace | replaceFirst
  | replaceLast | replaceAt
  deriving Repr, DecidableEq

inductive ListFunction
  | create | contains | first | last | find | findFrom | findBack | findBackFrom | left | right | join
  | isEmpty | isSorted | sample | intersect | unite | subtract | clear | append | prepend | insert | pop
  | shift | sort | reverse | shuffle | remove | removeFirst | removeLast | removeAt
  deriving Repr, DecidableEq

inductive TableFunction
  | create | contains | isEmpty | get | getOr | clear | remove | keys | values
  deriving Repr, DecidableEq

inductive SetFunction
  | create | contains | isEmpty | insert | remove | clear | intersect | unite | subtract
  deriving Repr, DecidableEq

inductive ArrayFunction
  | filledRow (x : Float)
  | filled (x : Float)
  | min | max | transpose | clear | rows | cols
  deriving Repr, DecidableEq

inductive FileFunction
  | openRead | openMode | readLine | readLines | read | atEnd | write | writeLine | writeLines | close
  | readFile | path
  deriving Repr, DecidableEq

inductive PathFunction
  | currentDirectory | setCurrentDirectory | temporaryDirectory | temporaryName | userDirectory | separator
  | systemName | fullPath | join | baseName | directory | splitExtension | extension | extensionCased
  | stripExtension | createDirectory | removeDirectory | removeDirectoryTree | clearDirectory
  | listDirectory | listDirectoryHidden | removeFile | removePath | pathExists | isFile | isDirectory
  | rename
  deriving Repr, DecidableEq

inductive JsonFunction
  | load | dump
  deriving Repr, DecidableEq

inductive PatternFunction
  | create | createWithFlags | find | findFrom | hasMatch | count | group | start | stop | source
  deriving Repr, DecidableEq

inductive ModuleFunction
  | create | contains
  deriving Repr, DecidableEq

/-- What a function of the host does with its arguments: gives them back as a list, gives a text, tells
which of them are references, stores a text into the first one, describes the active calls, counts them,
calls the first argument with the others, does so and reports failure as a value, fails, builds an
instance of a class, describes an object, prints an assignment. -/
inductive HostFunction
  | arguments
  | constant (text : String)
  | areReferences
  | storeFirst (text : String)
  | trace
  | depth
  | callFirst
  | tryFirst
  | fail (text : String)
  | instantiate (cls : ClassId)
  | describeField (name : String)
  | printField (name : String)
  deriving Repr, DecidableEq

inductive Native
  | core (f : CoreFunction)
  | general (f : GeneralFunction)
  | math (f : MathFunction)
  | text (f : TextFunction)
  | list (f : ListFunction)
  | table (f : TableFunction)
  | set (f : SetFunction)
  | array (f : ArrayFunction)
  | file (f : FileFunction)
  | path (f : PathFunction)
  | json (f : JsonFunction)
  | pattern (f : PatternFunction)
  | space (f : ModuleFunction)
  | host (f : HostFunction)
  deriving Repr, DecidableEq

/-- How a computed field is read and, unless it is read-only, written. -/
structure Accessor where
  getter : Native
  setter : Option Native
  deriving Repr, DecidableEq

end Rill
