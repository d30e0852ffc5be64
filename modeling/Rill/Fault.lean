-- SUMMARY: The causes of failure, their categories and messages, and failures with their position.
import Rill.Grammar.Cursor
import Rill.Json.Problem
import Rill.Files.Refusal

/-!
# Faults and failures

A `Fault` is the cause of a failure, a constructor for each; `Fault.category` and `Fault.message` give
its wording. A `Failure` is a fault with what is known about its position: a line and a file, the span of
a syntax error, and the calls that were active.
-/

namespace Rill

-- ---------------------------------------------------------------------------
-- Categories
-- ---------------------------------------------------------------------------

/-- The broad kinds of failure that scripts and hosts tell apart. -/
inductive Category
  | badSyntax | name | type | range | index | math | reference | assertion | runtime | user | exit
  | internal
  deriving Repr, DecidableEq

def Category.label : Category → String
  | .badSyntax => "Syntax error"
  | .name => "Name error"
  | .type => "Type error"
  | .range => "Range error"
  | .index => "Index error"
  | .math => "Math error"
  | .reference => "Reference error"
  | .assertion => "Assertion error"
  | .runtime => "Runtime error"
  | .user => "Error"
  | .exit => "Exit"
  | .internal => "Internal error"

-- ---------------------------------------------------------------------------
-- Causes
-- ---------------------------------------------------------------------------

/-- Why something failed. Types are given by the names of their classes. -/
inductive Fault
  -- source texts
  | parse (fault : ParseFault)
  | jumpOutsideLoop (word : String)
  | notReferenceable
  | notAssignable
  | tooManyParameters
  | unevenDeclaration (names values : Nat)
  | alreadyDefined (name : String)
  | json (complaint : Json.Complaint)
  -- names
  | undefinedIdentifier (name : String)
  | noMember (type name : String)
  -- types
  | expectedType (expected found : String)
  | invalidOperands (op left right : String)
  | invalidOperand (op operand : String)
  | notCallable (type : String)
  | notInstantiable (className : String)
  | notConstructible (type : String)
  | noOverload (name : String) (args candidates : List String)
  | notIndexable (type : String)
  | badIndexType (type : String)
  | badKeyType (type : String)
  | fixedString
  | fieldNotSettable (name type : String)
  | notIterable (type : String)
  | badCounter (type : String)
  | signatureChanged (name : String)
  | noLength (type : String)
  | unconvertibleText (text target : String)
  | unconvertible (type target : String)
  | floatNotJson (x : Float)
  | notJson (type : String)
  -- references
  | inconsistentOverload (name : String) (position : Nat) (byRef : Bool)
  | noElementReference (type : String)
  | readOnlyField (name type : String)
  | noReferenceLoop (type : String)
  -- positions and keys
  | indexOutOfRange (index : Int) (size : Nat)
  | keyNotFound (key : String)
  | missingMember (moduleName key : String)
  | indexCount (given : Nat)
  | arrayIndexCount (given : Nat)
  | emptyList
  | badGroup (index : Int)
  -- ranges
  | badShape (rows cols given : Nat)
  | hugeArray
  | negativeCount (given : Int)
  | sampleTooLarge (wanted size : Nat)
  | badRandomBound (bound : Int)
  | floatTooLarge (x : Float)
  | emptySplit
  | emptyReplace
  | emptyCount
  | emptyArray
  -- arithmetic
  | divisionByZero
  | integerOverflow (op : String)
  | nanComparison
  -- raised on purpose
  | assertion (text : String)
  | thrown (text : String)
  | quit (status : Int)
  -- the world outside
  | ambiguousCall (name : String) (args candidates : List String)
  | refused (action path : String) (why : Files.Refusal)
  | fileError (path : String) (why : Files.Refusal)
  | fileMisuse (what path : String)
  | badFileMode (mode : String)
  | noUserDirectory
  | unknownRegexFlag (flag : String)
  | badRegex (why : String)
  | cyclicJson
  | noClass (name : String)
  | host (text : String)
  -- broken invariants
  | stackUnderflow
  | stackOverflow
  | localOutOfRange
  | upvalueOutOfRange
  | codeOutOfRange
  | constantOutOfRange
  | iteratorExpected
  | endless
  deriving Repr, DecidableEq

def Fault.category : Fault → Category
  | .parse _ | .jumpOutsideLoop _ | .notReferenceable | .notAssignable | .tooManyParameters
  | .unevenDeclaration .. | .json _ => .badSyntax
  | .alreadyDefined _ | .undefinedIdentifier _ | .noMember .. => .name
  | .expectedType .. | .invalidOperands .. | .invalidOperand .. | .notCallable _ | .notInstantiable _
  | .notConstructible _ | .noOverload .. | .notIndexable _ | .badIndexType _ | .badKeyType _ | .fixedString
  | .fieldNotSettable .. | .notIterable _ | .badCounter _ | .signatureChanged _ | .noLength _
  | .unconvertibleText .. | .unconvertible .. | .floatNotJson _ | .notJson _ => .type
  | .inconsistentOverload .. | .noElementReference _ | .readOnlyField .. | .noReferenceLoop _ => .reference
  | .indexOutOfRange .. | .keyNotFound _ | .missingMember .. | .indexCount _ | .arrayIndexCount _
  | .emptyList | .badGroup _ => .index
  | .badShape .. | .hugeArray | .negativeCount _ | .sampleTooLarge .. | .badRandomBound _
  | .floatTooLarge _ | .emptySplit | .emptyReplace | .emptyCount | .emptyArray => .range
  | .divisionByZero | .integerOverflow _ | .nanComparison => .math
  | .assertion _ => .assertion
  | .thrown _ => .user
  | .quit _ => .exit
  | .ambiguousCall .. | .refused .. | .fileError .. | .fileMisuse .. | .badFileMode _ | .noUserDirectory
  | .unknownRegexFlag _ | .badRegex _ | .cyclicJson | .noClass _ | .host _ => .runtime
  | .stackUnderflow | .stackOverflow | .localOutOfRange | .upvalueOutOfRange | .codeOutOfRange
  | .constantOutOfRange | .iteratorExpected | .endless => .internal

/-- The candidates of a call, each on a line of its own. -/
def candidateLines (candidates : List String) : String :=
  String.join (candidates.map ("\n" ++ ·))

def Fault.message : Fault → String
  | .parse f => f.message
  | .jumpOutsideLoop word => quoted word ++ " outside of a loop"
  | .notReferenceable => "only variables, fields, indexed values and calls can be referenced"
  | .notAssignable => "cannot assign to this expression"
  | .tooManyParameters => "a function cannot have more than " ++ toString maxParams ++ " parameters"
  | .unevenDeclaration names values => (ParseFault.unevenDeclaration names values).message
  | .alreadyDefined name => "variable " ++ quoted name ++ " is already defined in this scope"
  | .json c => "JSON: " ++ c.text
  | .undefinedIdentifier name => "undefined identifier " ++ quoted name
  | .noMember type name => "a value of type " ++ type ++ " has no member " ++ quoted name
  | .expectedType expected found => "expected a value of type " ++ expected ++ " but got " ++ found
  | .invalidOperands op left right =>
    "cannot apply operator " ++ quoted op ++ " to " ++ left ++ " and " ++ right
  | .invalidOperand op operand => "cannot apply operator " ++ quoted op ++ " to " ++ operand
  | .notCallable type => "value of type " ++ type ++ " is not callable"
  | .notInstantiable className => "class " ++ className ++ " cannot be instantiated"
  | .notConstructible type => "cannot construct a value of type " ++ type
  | .noOverload name args candidates =>
    "Cannot find a version of function '" ++ name ++ "' that accepts the following argument types: (" ++
      ", ".intercalate args ++ ")." ++
      (if candidates.isEmpty then "" else "\nCandidates are:" ++ candidateLines candidates)
  | .notIndexable type => "a value of type " ++ type ++ " cannot be indexed"
  | .badIndexType type => "an index must be an integer, not a value of type " ++ type
  | .badKeyType type => "a value of type " ++ type ++ " cannot be used as a key"
  | .fixedString => "strings cannot be modified"
  | .fieldNotSettable name type => "cannot set field " ++ quoted name ++ " on a value of type " ++ type
  | .notIterable type => "a value of type " ++ type ++ " cannot be iterated"
  | .badCounter type => "a loop counter must be a number, not a value of type " ++ type
  | .signatureChanged name =>
    "the parameter types of function " ++ quoted name ++ " cannot change once it has been created"
  | .noLength type => "a value of type " ++ type ++ " has no length"
  | .unconvertibleText text target => "cannot convert " ++ quoted text ++ " to " ++ target
  | .unconvertible type target => "cannot convert a value of type " ++ type ++ " to " ++ target
  | .floatNotJson x => Decimal.plainForm.write x ++ " cannot be represented in JSON"
  | .notJson type => "a value of type " ++ type ++ " cannot be converted to JSON"
  | .inconsistentOverload name position byRef =>
    "This overload of function " ++ quoted name ++
      " is not consistent with previous definitions: parameter " ++ toString position ++
      " must be passed by " ++ (if byRef then "reference" else "value")
  | .noElementReference type => "cannot reference an element of a value of type " ++ type
  | .readOnlyField name type => "field " ++ quoted name ++ " of " ++ type ++ " is read-only"
  | .noReferenceLoop type => "cannot iterate by reference over a value of type " ++ type
  | .indexOutOfRange index size =>
    "index " ++ toString index ++ " out of range (size is " ++ toString size ++ ")"
  | .keyNotFound key => "key not found: " ++ key
  | .missingMember moduleName key => "missing key in module " ++ quoted moduleName ++ ": " ++ quoted key
  | .indexCount given => "expected 1 index, got " ++ toString given
  | .arrayIndexCount given => "arrays take 1 or 2 indices, got " ++ toString given
  | .emptyList => "the list is empty"
  | .badGroup index => "invalid group index in regular expression: " ++ toString index
  | .badShape rows cols given =>
    "cannot build a " ++ toString rows ++ "x" ++ toString cols ++ " array from " ++ toString given ++ " values"
  | .hugeArray => "array dimensions are too large"
  | .negativeCount given => "expected a non-negative count, got " ++ toString given
  | .sampleTooLarge wanted size =>
    "cannot sample " ++ toString wanted ++ " items from a list of " ++ toString size
  | .badRandomBound bound => "random(" ++ toString bound ++ "): the upper bound must be positive"
  | .floatTooLarge x => Decimal.plainForm.write x ++ " cannot be converted to an integer"
  | .emptySplit => "cannot split on an empty delimiter"
  | .emptyReplace => "cannot replace an empty string"
  | .emptyCount => "cannot count an empty string"
  | .emptyArray => "the array is empty"
  | .divisionByZero => "division by zero"
  | .integerOverflow op => "integer overflow in " ++ quoted op
  | .nanComparison => "cannot compare nan"
  | .assertion text => text
  | .thrown text => text
  | .quit status => "exit status " ++ toString status
  | .ambiguousCall name args candidates =>
    "Cannot resolve ambiguity in call to function '" ++ name ++ "' with the following argument types: (" ++
      ", ".intercalate args ++ ").\nCandidates are:" ++ candidateLines candidates
  | .refused action path why => "cannot " ++ action ++ " " ++ quoted path ++ ": " ++ why.text
  | .fileError path why => "I/O error on " ++ quoted path ++ ": " ++ why.text
  | .fileMisuse what path => "cannot " ++ what ++ ": " ++ quoted path
  | .badFileMode mode => "invalid file mode " ++ quoted mode
  | .noUserDirectory => "cannot locate the user directory"
  | .unknownRegexFlag flag => "unknown regular expression flag " ++ quoted flag
  | .badRegex why => "invalid regular expression: " ++ why
  | .cyclicJson => "cannot serialize a cyclic structure to JSON"
  | .noClass name => "no class " ++ name
  | .host text => text
  | .stackUnderflow => "stack underflow"
  | .stackOverflow => "stack overflow"
  | .localOutOfRange => "local slot out of range"
  | .upvalueOutOfRange => "upvalue out of range"
  | .codeOutOfRange => "instruction pointer out of range"
  | .constantOutOfRange => "constant out of range"
  | .iteratorExpected => "expected an iterator"
  | .endless => "endless comparison"

/-- Secondary remarks, such as a suggestion. -/
def Fault.notes : Fault → List String
  | .parse f => f.hint.toList
  | _ => []

/-- The exit status that a request to quit carries. -/
def Fault.status : Fault → Int
  | .quit n => n
  | _ => 0

-- ---------------------------------------------------------------------------
-- Failures
-- ---------------------------------------------------------------------------

/-- One call that was active when something failed. -/
structure TraceFrame where
  name : String
  file : String
  line : Nat
  deriving Repr, DecidableEq

/-- A fault and what is known about its position. -/
structure Failure where
  fault : Fault
  line : Option Nat := none
  file : Option String := none
  span : Option Span := none
  trace : List TraceFrame := []
  deriving Repr, DecidableEq

/-- A fault without a position. -/
def Fault.failure (f : Fault) : Failure := { fault := f }

instance : Coe Fault Failure := ⟨Fault.failure⟩

/-- A syntax error in a file. Without a line, it has no position. -/
def Failure.ofParse (e : ParseError) (file : String) : Failure :=
  if e.line > 0 then { fault := .parse e.fault, line := some e.line, file := some file, span := some e.span }
  else { fault := .parse e.fault, file := some file }

def Failure.category (e : Failure) : Category := e.fault.category

def Failure.message (e : Failure) : String := e.fault.message

/-- The failure is a request to quit. -/
def Failure.isExit (e : Failure) : Bool := e.category = .exit

/-- The failure leaves a machine that scripts must not observe. -/
def Failure.isFatal (e : Failure) : Bool := e.category = .internal

/-- Category and message, without position or trace. -/
def Failure.headline (e : Failure) : String := "[" ++ e.category.label ++ "] " ++ e.message

/-- One line per active call, innermost first. -/
def traceText (trace : List TraceFrame) : String :=
  String.join (trace.map fun f => "\n\tat " ++ f.name ++ " (" ++ f.file ++ ":" ++ toString f.line ++ ")")

/-- The headline and the calls, or the position when no call was active. -/
def Failure.display (e : Failure) : String :=
  e.headline ++
    match e.trace, e.line with
    | _ :: _, _ => traceText e.trace
    | [], some line => "\n\tat " ++ e.file.getD "[string]" ++ ":" ++ toString line
    | [], none => ""

end Rill
