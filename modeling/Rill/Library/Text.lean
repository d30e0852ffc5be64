-- SUMMARY: Functions on texts.
import Rill.Library.Entry
import Rill.Text.Position
import Rill.Unicode.Case
import Rill.Unicode.Property

/-!
# Text functions

Positions count characters; searches answer zero when nothing is found. Functions that edit a text take
it by reference and answer null.
-/

namespace Rill.Library

/-- A text value. -/
def chars (cs : List Char) : Value := .text (String.ofList cs)

/-- Changes the text behind the first argument. -/
def editText (args : Arguments) (f : List Char → Except Failure (List Char)) : Run Value := do
  store (args.nth 0) (chars (← f (← args.chars 0)))
  return .null

/-- Changes the text behind the first argument in a way that cannot fail. -/
def alterText (args : Arguments) (f : List Char → List Char) : Run Value :=
  editText args fun text => .ok (f text)

def text (f : TextFunction) (args : Arguments) : Run Value := do
  match f with
  | .contains => return .bool (Text.contains (← args.chars 0) (← args.chars 1))
  | .startsWith => return .bool ((← args.chars 1).isPrefixOf (← args.chars 0))
  | .endsWith => return .bool ((← args.chars 1).isSuffixOf (← args.chars 0))
  | .find => return .ofNat (← Text.find (← args.chars 0) (← args.chars 1) 1)
  | .findFrom => return .ofNat (← Text.find (← args.chars 0) (← args.chars 1) (← args.integer 2))
  | .findBack => return .ofNat (← Text.findBack (← args.chars 0) (← args.chars 1) (-1))
  | .findBackFrom => return .ofNat (← Text.findBack (← args.chars 0) (← args.chars 1) (← args.integer 2))
  | .left => return chars (Text.left (← args.chars 0) (← args.count 1))
  | .right => return chars (Text.right (← args.chars 0) (← args.count 1))
  | .slice => return chars (← Text.slice (← args.chars 0) (← args.integer 1))
  | .sliceCount =>
    let rest ← Text.slice (← args.chars 0) (← args.integer 1)
    return chars (Text.left rest (← args.count 2))
  | .count =>
    let subject ← args.chars 0
    let needle ← args.chars 1
    if needle.isEmpty then Run.fail .emptyCount
    return .ofNat (Text.count subject needle)
  | .toUpper => return chars (Unicode.toUpper (← args.chars 0))
  | .toLower => return chars (Unicode.toLower (← args.chars 0))
  | .isEmpty => return .bool (← args.chars 0).isEmpty
  | .char => return chars (← Text.charAt (← args.chars 0) (← args.integer 1))
  | .split =>
    let subject ← args.chars 0
    let delimiter ← args.chars 1
    if delimiter.isEmpty then Run.fail .emptySplit
    Run.newList ((Text.split subject delimiter).map chars).toArray
  | .reverse => alterText args List.reverse
  | .trim => alterText args Unicode.trim
  | .trimStart => alterText args Unicode.trimStart
  | .trimEnd => alterText args Unicode.trimEnd
  | .append =>
    let piece ← args.chars 1
    alterText args (· ++ piece)
  | .prepend =>
    let piece ← args.chars 1
    alterText args (piece ++ ·)
  | .insert =>
    let position ← args.integer 1
    let piece ← args.chars 2
    editText args (Text.insert · position piece)
  | .remove =>
    let piece ← args.chars 1
    alterText args (Text.replaceAll · piece [])
  | .removeFirst =>
    let piece ← args.chars 1
    alterText args (Text.replaceFirst · piece [])
  | .removeLast =>
    let piece ← args.chars 1
    alterText args (Text.replaceLast · piece [])
  | .removeAt =>
    let position ← args.integer 1
    let count ← args.count 2
    editText args (Text.splice · position count [])
  | .replace =>
    let old ← args.chars 1
    let new ← args.chars 2
    if old.isEmpty then Run.fail .emptyReplace
    alterText args (Text.replaceAll · old new)
  | .replaceFirst =>
    let old ← args.chars 1
    let new ← args.chars 2
    alterText args (Text.replaceFirst · old new)
  | .replaceLast =>
    let old ← args.chars 1
    let new ← args.chars 2
    alterText args (Text.replaceLast · old new)
  | .replaceAt =>
    let position ← args.integer 1
    let count ← args.count 2
    let new ← args.chars 3
    editText args (Text.splice · position count new)

def textEntries : List Entry :=
  let fn (f : TextFunction) : Native := .text f
  let s : ClassId := .string
  let i : ClassId := .integer
  [ .function "contains" (fn .contains) [s, s],
    .function "starts_with" (fn .startsWith) [s, s],
    .function "ends_with" (fn .endsWith) [s, s],
    .function "find" (fn .find) [s, s],
    .function "find" (fn .findFrom) [s, s, i],
    .function "find_back" (fn .findBack) [s, s],
    .function "find_back" (fn .findBackFrom) [s, s, i],
    .function "left" (fn .left) [s, i],
    .function "right" (fn .right) [s, i],
    .function "slice" (fn .slice) [s, i],
    .function "slice" (fn .sliceCount) [s, i, i],
    .function "count" (fn .count) [s, s],
    .function "to_upper" (fn .toUpper) [s],
    .function "to_lower" (fn .toLower) [s],
    .function "is_empty" (fn .isEmpty) [s],
    .function "char" (fn .char) [s, i],
    .function "split" (fn .split) [s, s],
    .editor "reverse" (fn .reverse) [s],
    .editor "trim" (fn .trim) [s],
    .editor "ltrim" (fn .trimStart) [s],
    .editor "rtrim" (fn .trimEnd) [s],
    .editor "append" (fn .append) [s, s],
    .editor "prepend" (fn .prepend) [s, s],
    .editor "insert" (fn .insert) [s, i, s],
    .editor "remove" (fn .remove) [s, s],
    .editor "remove_first" (fn .removeFirst) [s, s],
    .editor "remove_last" (fn .removeLast) [s, s],
    .editor "remove_at" (fn .removeAt) [s, i, i],
    .editor "replace" (fn .replace) [s, s, s],
    .editor "replace_first" (fn .replaceFirst) [s, s, s],
    .editor "replace_last" (fn .replaceLast) [s, s, s],
    .editor "replace_at" (fn .replaceAt) [s, i, i, s] ]

end Rill.Library
