-- SUMMARY: Overloaded functions: their closures, declaration of overloads and choice among them.
import Rill.Class
import Rill.Fault
import Rill.Routine

/-!
# Functions

A function is a name and the closures declared under it, sorted by arity. A call takes the closure whose
parameter classes are nearest to the classes of the arguments. All closures agree on which positions are
passed by reference, so that arguments can be prepared before a closure is chosen.
-/

namespace Rill

-- ---------------------------------------------------------------------------
-- Closures
-- ---------------------------------------------------------------------------

/-- Names a routine: the number of the compilation, and the indices that lead from the enclosing routines
to it, innermost first. -/
structure RoutineKey where
  chunk : Nat
  path : List Nat := []
  deriving Repr, DecidableEq, Inhabited

/-- What a closure runs. -/
inductive Callable
  | script (routine : Routine) (key : RoutineKey)
  | native (fn : Native) (refFlags : RefFlags)

/-- One overload: what it runs, the classes of its parameters and the variables it captured. Functions can
share a closure; closures that captured something are told apart by their serial numbers. -/
structure Closure where
  callable : Callable
  signature : List ClassId
  captured : Array CellId := #[]
  serial : Nat := 0

namespace Closure

def arity (c : Closure) : Nat := c.signature.length

def refFlags (c : Closure) : RefFlags :=
  match c.callable with
  | .script routine _ => routine.refFlags
  | .native _ flags => flags

/-- Sum of the distances from the classes of the arguments to those of the parameters, if every argument
fits. An argument without a class, null, fits everywhere at no cost. -/
def cost (c : Closure) (classes : ClassTree) (args : List (Option ClassId)) : Option Nat :=
  (c.signature.zip args).foldlM (fun total (parameter, arg) =>
    match arg with
    | none => some total
    | some arg => (classes.distance? arg parameter).map (total + ·)) 0

/-- The closure as it is listed to users, such as `area(ref List, Number)`. -/
def definition (c : Closure) (classes : ClassTree) (name : String) : String :=
  let parameter (position : Nat) (cls : ClassId) : String :=
    (if c.refFlags.isRef position then "ref " else "") ++ classes.name cls
  name ++ "(" ++ ", ".intercalate (c.signature.mapIdx parameter) ++ ")"

end Closure

-- ---------------------------------------------------------------------------
-- Functions
-- ---------------------------------------------------------------------------

/-- `refFlags` are those of the closure with the most parameters, `maxArity` their number. -/
structure Function where
  name : String
  closures : List Closure := []
  refFlags : RefFlags := 0
  maxArity : Nat := 0

namespace Function

/-- The first shared position at which a closure and a function disagree on passing by reference. -/
def conflict? (f : Function) (c : Closure) : Option Nat :=
  if f.closures.isEmpty then none
  else (List.range (min c.arity f.maxArity)).find? fun p => c.refFlags.isRef p != f.refFlags.isRef p

/-- Adds an overload behind those with as many parameters. One with the same parameter classes is
replaced. -/
def add (f : Function) (c : Closure) : Except Failure Function :=
  match f.conflict? c with
  | some position =>
    .error (Fault.inconsistentOverload f.name (position + 1) (f.refFlags.isRef position))
  | none =>
    match f.closures.findIdx? (·.signature = c.signature) with
    | some i => .ok { f with closures := f.closures.set i c }
    | none =>
      let f := if f.closures.isEmpty ∨ c.arity > f.maxArity then
          { f with refFlags := c.refFlags, maxArity := c.arity }
        else f
      let fits (other : Closure) : Bool := other.arity ≤ c.arity
      .ok { f with closures := f.closures.takeWhile fits ++ c :: f.closures.dropWhile fits }

/-- A function with one closure. -/
def ofClosure (name : String) (c : Closure) : Function :=
  { name := name, closures := [c], refFlags := c.refFlags, maxArity := c.arity }

/-- Adds several overloads, in order. -/
def addAll (f : Function) (cs : List Closure) : Except Failure Function := cs.foldlM add f

/-- The cheapest closure of a scan: its cost, the closure, and whether another one costs as much. -/
structure Candidate where
  cost : Nat
  closure : Closure
  tied : Bool

/-- One step of the scan for the cheapest closure. -/
def consider (best : Option Candidate) (cost : Nat) (c : Closure) : Option Candidate :=
  match best with
  | none => some ⟨cost, c, false⟩
  | some b =>
    if cost > b.cost then some b
    else if cost = b.cost then some { b with tied := true }
    else some ⟨cost, c, false⟩

/-- The closures that accept the arguments, with their costs, in the order of declaration. The search
ends at the first closure with more parameters than there are arguments. -/
def applicable (f : Function) (classes : ClassTree) (args : List (Option ClassId)) :
    List (Nat × Closure) :=
  (f.closures.takeWhile fun c => c.arity ≤ args.length).filterMap fun c =>
    if c.arity = args.length then (c.cost classes args).map fun cost => (cost, c) else none

/-- The closure that fits the arguments best. Their classes are given as `none` for null; `shown` are
the names of all their classes. -/
def choose (f : Function) (classes : ClassTree) (args : List (Option ClassId)) (shown : List String) :
    Except Failure Closure :=
  let fitting := f.applicable classes args
  match fitting.foldl (fun best (cost, c) => consider best cost c) none with
  | none =>
    .error (Fault.noOverload f.name shown (f.closures.map (·.definition classes f.name)))
  | some best =>
    if best.tied then
      let tied := f.closures.filter fun c =>
        c.arity = args.length && c.cost classes args = some best.cost
      .error (Fault.ambiguousCall f.name shown (tied.map (·.definition classes f.name)))
    else .ok best.closure

end Function

end Rill
