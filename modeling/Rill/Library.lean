-- SUMMARY: The whole library, and what each native function does.
import Rill.Host.Function
import Rill.Library.Container
import Rill.Library.Core
import Rill.Library.File
import Rill.Library.General
import Rill.Library.Json
import Rill.Library.List
import Rill.Library.Path
import Rill.Library.Pattern
import Rill.Library.Text

/-!
# The library

The entries are registered in this order; functions of the same name become overloads of one another.
-/

namespace Rill

/-- Everything that the library adds to a machine. -/
def Library.entries : List Library.Entry :=
  generalEntries ++ mathEntries ++ textEntries ++ listEntries ++ tableEntries ++ setEntries ++
    arrayEntries ++ fileEntries ++ pathEntries ++ jsonEntries ++ patternEntries ++ spaceEntries

/-- Runs a native function. -/
def Native.run (fn : Native) (args : Library.Arguments) : Run Reply :=
  match fn with
  | .core f => Library.core f args
  | .host f => Host.function f args
  | .general f => .value <$> Library.general f args
  | .math f => .value <$> Library.math f args
  | .text f => .value <$> Library.text f args
  | .list f => .value <$> Library.list f args
  | .table f => .value <$> Library.table f args
  | .set f => .value <$> Library.set f args
  | .array f => .value <$> Library.array f args
  | .file f => .value <$> Library.file f args
  | .path f => .value <$> Library.path f args
  | .json f => .value <$> Library.json f args
  | .pattern f => .value <$> Library.pattern f args
  | .space f => .value <$> Library.space f args

/-- The answer of a native function that makes no call, as those behind fields are. -/
def Native.answer (fn : Native) (args : Library.Arguments) : Run Value := do
  match ← fn.run args with
  | .value v => return (← Run.heap).resolve v
  | .call .. => return .null

/-- Creates the classes of the language and the core functions. -/
def Run.addLanguage : Run Unit := do
  for (name, parent, collectable) in languageClasses do
    let _ ← createClass name parent collectable
  for (name, overloads) in Library.coreFunctions do
    Library.addCoreFunction name overloads

/-- Adds the library. -/
def Run.addLibrary : Run Unit := Library.entries.forM Library.Entry.register

end Rill
