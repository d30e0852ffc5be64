-- SUMMARY: Functions and fields of open files.
import Rill.Heap.Text
import Rill.Library.Entry
import Rill.Machine.Loading

/-!
# File functions

Files are opened for reading, for writing from the start, or for writing at the end.
-/

namespace Rill.Library

/-- The open file behind the first argument. -/
def fileOf (args : Arguments) : Run (ObjectId × Files.OpenFile) := do
  let h ← Run.heap
  match h.resolve (args.nth 0) with
  | .object id =>
    match h.content? id with
    | some (.file file) => return (id, file)
    | _ => throw (h.mistyped "File" (args.nth 0))
  | other => throw (h.mistyped "File" other)

/-- An operation on the open file behind the first argument. -/
def useFile (args : Arguments)
    (f : Files.OpenFile → Files.Tree → Except Failure (α × Files.OpenFile × Files.Tree)) : Run α := do
  let (id, file) ← fileOf args
  let (result, file) ← Run.withFiles fun t => do
    let (result, file, t) ← f file t
    return ((result, file), t)
  Run.setContent id (.file file)
  return result

/-- An operation that reads. -/
def readFrom (args : Arguments)
    (f : Files.OpenFile → Files.Tree → Except Failure (α × Files.OpenFile)) : Run α :=
  useFile args fun file t => do
    let (result, file) ← f file t
    return (result, file, t)

/-- Writes texts one after the other. -/
def writeTexts (args : Arguments) (texts : List String) : Run Value :=
  useFile args fun file t => do
    let (file, t) ← texts.foldlM (fun (file, t) text => file.write t text) (file, t)
    return (.null, file, t)

/-- Opens the file that the first argument names. -/
def openFile (args : Arguments) (mode : String) : Run Value := do
  let path ← args.text 0
  let file ← Run.withFiles fun t => Files.OpenFile.openPath t path mode
  Run.newObject .file (.file file)

def file (f : FileFunction) (args : Arguments) : Run Value := do
  match f with
  | .openRead => openFile args "r"
  | .openMode => openFile args (← args.text 1)
  | .readLine => return (← readFrom args (·.readLine ·)).elim .null .text
  | .readLines =>
    let lines ← readFrom args fun file t => file.readLines t (Files.OpenFile.bufferBound t)
    Run.newList (lines.map Value.text).toArray
  | .read => return .text (← readFrom args (·.readAll ·))
  | .atEnd => return .bool (← readFrom args (·.atEnd ·))
  | .write => writeTexts args [← args.text 1]
  | .writeLine => writeTexts args [(← args.text 1) ++ "\n"]
  | .writeLines =>
    let h ← Run.heap
    writeTexts args ((← args.list 1).toList.map fun line => h.text line ++ "\n")
  | .close =>
    useFile args fun file t =>
      let (file, t) := file.close t
      .ok (.null, file, t)
  | .readFile => return .text (← Run.readFile (← args.text 0))
  | .path => return .text (← fileOf args).2.path

def fileEntries : List Entry :=
  let fn (f : FileFunction) : Native := .file f
  let f : ClassId := .file
  let s : ClassId := .string
  [ .function "open" (fn .openRead) [s],
    .function "open" (fn .openMode) [s, s],
    .initializer .file (fn .openRead) [s],
    .initializer .file (fn .openMode) [s, s],
    .function "read_line" (fn .readLine) [f],
    .function "read_lines" (fn .readLines) [f],
    .function "read" (fn .read) [f],
    .function "eof" (fn .atEnd) [f],
    .function "write" (fn .write) [f, s],
    .function "write_line" (fn .writeLine) [f, s],
    .function "write_lines" (fn .writeLines) [f, .list],
    .function "close" (fn .close) [f],
    .function "read_file" (fn .readFile) [s],
    .field .file "path" (fn .path) ]

end Rill.Library
