-- SUMMARY: Compiled functions: code, constant pools, local slots and captured variables.
import Rill.Code

/-!
# Routines

A routine is the compiled body of a function or of a whole script, with the routines of the functions
nested in it.
-/

namespace Rill

/-- A word of reference flags: bit `i` is set when parameter `i` is passed by reference. -/
abbrev RefFlags := BitVec 64

/-- The parameter at a position is passed by reference; positions past the word are not. -/
def RefFlags.isRef (flags : RefFlags) (position : Nat) : Bool := flags.getLsbD position

/-- The flags with one more position marked. -/
def RefFlags.mark (flags : RefFlags) (position : Nat) : RefFlags := flags ||| (1#64 <<< position)

/-- A local variable slot: the scope that declares it and the number of scopes open there. -/
structure LocalInfo where
  name : String
  scope : Nat
  depth : Nat
  deriving Repr, DecidableEq

/-- Where a function finds a captured variable when it is created: in a slot of the enclosing frame, or
among the captured variables of the enclosing function. -/
structure Capture where
  index : Nat
  fromFrame : Bool
  deriving Repr, DecidableEq

/-- A compiled body. -/
structure Routine where
  name : String
  file : String
  code : Code
  integers : Array Int64
  floats : Array Float
  strings : Array String
  children : Array Routine
  locals : Array LocalInfo
  captures : Array Capture
  paramCount : Nat
  refFlags : RefFlags

/-- Number of local slots, parameters included. -/
def Routine.frameSize (r : Routine) : Nat := r.locals.size

instance : Inhabited Routine := ⟨⟨"", "", {}, #[], #[], #[], #[], #[], #[], 0, 0⟩⟩

end Rill
