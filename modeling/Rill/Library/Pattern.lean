-- SUMMARY: Regular expressions: their creation, matching and the groups of the last match.
import Rill.Library.Entry
import Rill.Pattern.Read
import Rill.Pattern.Search
import Rill.Text.Position
import Rill.Unicode.Property

/-!
# Pattern functions

A pattern remembers its last match. Positions count characters from one, and the end of a group is the
position behind its last character.
-/

namespace Rill

-- ---------------------------------------------------------------------------
-- Patterns
-- ---------------------------------------------------------------------------

/-- The modes that a text of flags, separated by bars, switches on. -/
def Pattern.modesOf (flags : String) : Except Failure Pattern.Modes :=
  let names := (Text.split flags.toList ['|']).map fun flag => String.ofList (Unicode.trim flag)
  (names.filter (· ≠ "")).foldlM (fun modes name =>
    match name with
    | "caseless" => .ok { modes with caseless := true }
    | "multiline" => .ok { modes with multiline := true }
    | "dotall" => .ok { modes with dotall := true }
    | "extended" => .ok { modes with extended := true }
    | "ungreedy" => .ok { modes with ungreedy := true }
    | other => .error (Fault.unknownRegexFlag other)) {}

namespace Matcher

/-- A pattern that has not been matched yet. -/
def ofSource (source flags : String) : Except Failure Matcher := do
  let modes ← Pattern.modesOf flags
  match Pattern.read source modes with
  | .ok (node, groups) => return { source := source, automaton := .ofNode groups node }
  | .error why => throw (Fault.badRegex why).failure

/-- Searches a text from a place on. -/
def search (m : Matcher) (subject : List Char) (place : Nat) : Matcher :=
  { m with last := (Pattern.search m.automaton subject.toArray place).map fun groups => (subject, groups) }

/-- Number of groups of the last match, the whole match not counted. -/
def groupCount (m : Matcher) : Nat := m.last.elim 0 fun (_, groups) => groups.size - 1

/-- The subject of the last match and the ends of one of its groups; none if the group took no part. -/
def group (m : Matcher) (index : Int64) : Except Failure (List Char × Option (Nat × Nat)) :=
  match m.last with
  | some (subject, groups) =>
    match if index < 0 then none else groups[index.toInt.toNat]? with
    | some ends => .ok (subject, ends)
    | none => .error (Fault.badGroup index.toInt)
  | none => .error (Fault.badGroup index.toInt)

end Matcher

-- ---------------------------------------------------------------------------
-- The functions
-- ---------------------------------------------------------------------------

namespace Library

/-- The pattern behind the first argument. -/
def matcherOf (args : Arguments) : Run (ObjectId × Matcher) := do
  let h ← Run.heap
  match h.resolve (args.nth 0) with
  | .object id =>
    match h.content? id with
    | some (.regex m) => return (id, m)
    | _ => throw (h.mistyped "Regex" (args.nth 0))
  | other => throw (h.mistyped "Regex" other)

def newPattern (args : Arguments) (flags : String) : Run Value := do
  Run.newObject .regex (.regex (← Matcher.ofSource (← args.text 0) flags))

/-- Searches the second argument from a position on; in an empty text, from its start. -/
def findPattern (args : Arguments) (start : List Char → Except Failure Nat) : Run Value := do
  let subject ← args.chars 1
  let place ← if subject.isEmpty then pure 0 else (start subject : Run Nat)
  let (id, m) ← matcherOf args
  let m := m.search subject place
  Run.setContent id (.regex m)
  return .bool m.last.isSome

/-- What is told about a group of the last match; null if the group took no part. -/
def aboutGroup (args : Arguments) (tell : List Char → Nat → Nat → Value) : Run Value := do
  let index ← args.integer 1
  let (_, m) ← matcherOf args
  match ← m.group index with
  | (subject, some (start, stop)) => return tell subject start stop
  | (_, none) => return .null

def pattern (f : PatternFunction) (args : Arguments) : Run Value := do
  match f with
  | .create => newPattern args ""
  | .createWithFlags => newPattern args (← args.text 1)
  | .find => findPattern args fun _ => .ok 0
  | .findFrom =>
    let position ← args.integer 2
    findPattern args (Text.place · position true)
  | .hasMatch => return .bool (← matcherOf args).2.last.isSome
  | .count => return .ofNat (← matcherOf args).2.groupCount
  | .group =>
    aboutGroup args fun subject start stop =>
      .text (String.ofList ((subject.take stop).drop start))
  | .start => aboutGroup args fun _ start _ => .ofNat (start + 1)
  | .stop => aboutGroup args fun _ _ stop => .ofNat (stop + 1)
  | .source => return .text (← matcherOf args).2.source

def patternEntries : List Entry :=
  let fn (f : PatternFunction) : Native := .pattern f
  let r : ClassId := .regex
  let s : ClassId := .string
  let i : ClassId := .integer
  [ .initializer .regex (fn .create) [s],
    .initializer .regex (fn .createWithFlags) [s, s],
    .function "match" (fn .find) [r, s],
    .function "match" (fn .findFrom) [r, s, i],
    .function "has_match" (fn .hasMatch) [r],
    .function "count" (fn .count) [r],
    .function "group" (fn .group) [r, i],
    .function "get_start" (fn .start) [r, i],
    .function "get_end" (fn .stop) [r, i],
    .field .regex "pattern" (fn .source),
    .field .regex "length" (fn .count) ]

end Library

end Rill
