-- SUMMARY: The search for the preferred match of an automaton in a text.
import Rill.Pattern.Automaton

/-!
# Search

States are explored depth first in order of preference. A pair of a state and a place that has been
explored without success is not explored again, so the search takes a number of steps bounded by the
number of such pairs.
-/

namespace Rill.Pattern

/-- The assertion holds between the characters before and after a place. -/
def Assertion.holds : Assertion → Option Char → Option Char → Bool
  | .textStart, before, _ => before.isNone
  | .textEnd, _, after => after.isNone
  | .lineStart, before, _ => before.all (· = '\n')
  | .lineEnd, _, after => after.all (· = '\n')
  | .wordEdge, before, after => before.any Unicode.isWord != after.any Unicode.isWord
  | .noWordEdge, before, after => before.any Unicode.isWord == after.any Unicode.isWord
  | .wordStart, before, after => !before.any Unicode.isWord && after.any Unicode.isWord
  | .wordEnd, before, after => before.any Unicode.isWord && !after.any Unicode.isWord
  | .wordStartHalf, before, _ => !before.any Unicode.isWord
  | .wordEndHalf, _, after => !after.any Unicode.isWord

/-- What is left to do: explore a state at a place, or put back the content of a slot. -/
inductive Task
  | explore (state place : Nat)
  | restore (slot : Nat) (place : Option Nat)
  deriving Repr, DecidableEq

/-- The state of a search: explored pairs, and the places saved on the way to the current state. -/
structure Trail where
  seen : Array Bool
  saved : Array (Option Nat)

/-- The character before a place. -/
def charBefore (text : Array Char) (place : Nat) : Option Char :=
  if place = 0 then none else text[place - 1]?

/-- Works off tasks until a state accepts; the places saved then are the match. -/
def explore (a : Automaton) (text : Array Char) : Nat → List Task → Trail → Bool × Trail
  | 0, _, trail => (false, trail)
  | _, [], trail => (false, trail)
  | fuel + 1, .restore slot place :: tasks, trail =>
    explore a text fuel tasks { trail with saved := trail.saved.setIfInBounds slot place }
  | fuel + 1, .explore state place :: tasks, trail =>
    let pair := state * (text.size + 1) + place
    if trail.seen.getD pair true then explore a text fuel tasks trail
    else
      let trail := { trail with seen := trail.seen.setIfInBounds pair true }
      match a.states[state]? with
      | none => explore a text fuel tasks trail
      | some .accept => (true, trail)
      | some (.step cls next) =>
        if text[place]?.any cls.accepts then
          explore a text fuel (.explore next (place + 1) :: tasks) trail
        else explore a text fuel tasks trail
      | some (.check assertion next) =>
        if assertion.holds (charBefore text place) text[place]? then
          explore a text fuel (.explore next place :: tasks) trail
        else explore a text fuel tasks trail
      | some (.choice nexts) =>
        explore a text fuel (nexts.map (.explore · place) ++ tasks) trail
      | some (.save slot next) =>
        let old := (trail.saved[slot]?).join
        let trail := { trail with saved := trail.saved.setIfInBounds slot (some place) }
        explore a text fuel (.explore next place :: .restore slot old :: tasks) trail

/-- Enough steps for a search: every pair is explored once and adds at most three tasks. -/
def searchBound (a : Automaton) (text : Array Char) : Nat :=
  4 * (a.states.size + 1) * (text.size + 2)

/-- Searches from each place in turn, `count` of them. -/
def searchFrom (a : Automaton) (text : Array Char) (place : Nat) (trail : Trail) :
    Nat → Option (Array (Option Nat))
  | 0 => none
  | count + 1 =>
    match explore a text (searchBound a text) [.explore a.start place] trail with
    | (true, found) => some found.saved
    | (false, trail) => searchFrom a text (place + 1) trail count

/-- The groups of the first match that starts at `place` or later, each with its two ends. -/
def search (a : Automaton) (text : Array Char) (place : Nat) : Option (Array (Option (Nat × Nat))) :=
  let trail : Trail :=
    ⟨Array.replicate (a.states.size * (text.size + 1)) false, Array.replicate (2 * (a.groups + 1)) none⟩
  (searchFrom a text place trail (text.size + 1 - place)).map fun saved =>
    (Array.range (a.groups + 1)).map fun group =>
      match (saved[2 * group]?).join, (saved[2 * group + 1]?).join with
      | some start, some stop => some (start, stop)
      | _, _ => none

end Rill.Pattern
