-- SUMMARY: Automata for regular expressions: states with preferences among their successors.
import Rill.Pattern.Node

/-!
# Automata

An expression becomes an automaton whose branching states list their successors in order of preference.
The match that is found is the one a search in that order meets first. An expression is compiled against
the state that follows it, so most successors are known when a state is added; only loops are closed
afterwards.
-/

namespace Rill.Pattern

/-- `save` records the place reached in a numbered slot. -/
inductive State
  | step (cls : CharClass) (next : Nat)
  | check (assertion : Assertion) (next : Nat)
  | choice (nexts : List Nat)
  | save (slot next : Nat)
  | accept
  deriving Repr, DecidableEq

/-- Groups are numbered from one; group zero is the whole match. -/
structure Automaton where
  states : Array State
  start : Nat
  groups : Nat
  deriving Repr, DecidableEq, Inhabited

abbrev Assembly := StateM (Array State)

namespace Assembly

/-- Adds a state. -/
def add (s : State) : Assembly Nat := fun states => (states.size, states.push s)

/-- Replaces a state. -/
def put (index : Nat) (s : State) : Assembly Unit := fun states => ((), states.setIfInBounds index s)

/-- The successors of a repetition that can go on or stop. -/
def preferring (greedy : Bool) (again stop : Nat) : State :=
  .choice (if greedy then [again, stop] else [stop, again])

/-- At least one repetition of `body`, which is compiled against the state that follows it. -/
def oneOrMore (body : Nat → Assembly Nat) (greedy : Bool) (next : Nat) : Assembly (Nat × Nat) := do
  let loop ← add .accept
  let first ← body loop
  put loop (preferring greedy first next)
  return (first, loop)

/-- `count` repetitions. -/
def exactly (body : Nat → Assembly Nat) : Nat → Nat → Assembly Nat
  | 0, next => return next
  | count + 1, next => do body (← exactly body count next)

/-- At most `count` repetitions. -/
def atMost (body : Nat → Assembly Nat) (greedy : Bool) (stop : Nat) : Nat → Assembly Nat
  | 0 => return stop
  | count + 1 => do
    let rest ← atMost body greedy stop count
    let again ← body rest
    add (preferring greedy again stop)

/-- Any number of repetitions, from a least one. A body that can match nothing is repeated as an optional
sequence of at least one, which keeps the order of preference. -/
def atLeast (body : Nat → Assembly Nat) (nullable greedy : Bool) (next : Nat) : Nat → Assembly Nat
  | 0 => do
    let (first, loop) ← oneOrMore body greedy next
    if nullable then add (preferring greedy first next) else return loop
  | 1 => do
    let (first, _) ← oneOrMore body greedy next
    return first
  | count + 1 => do body (← atLeast body nullable greedy next count)

/-- States for an expression followed by `next`. -/
def node : Node → Nat → Assembly Nat
  | .empty, next => return next
  | .one cls, next => add (.step cls next)
  | .check a, next => add (.check a next)
  | .group index body, next => do
    let close ← add (.save (2 * index + 1) next)
    let first ← node body close
    add (.save (2 * index) first)
  | .concat a b, next => do node a (← node b next)
  | .either a b, next => do
    let first ← node a next
    let second ← node b next
    add (.choice [first, second])
  | .repeated body min max greedy, next => do
    match max with
    | none => atLeast (node body) body.isNullable greedy next min
    | some max => exactly (node body) min (← atMost (node body) greedy next (max - min))

end Assembly

/-- The automaton of an expression with the given number of groups. -/
def Automaton.ofNode (groups : Nat) (n : Node) : Automaton :=
  let build : Assembly Nat := do
    let accept ← Assembly.add .accept
    Assembly.node (.group 0 n) accept
  let (start, states) := build.run #[]
  { states := states, start := start, groups := groups }

end Rill.Pattern
