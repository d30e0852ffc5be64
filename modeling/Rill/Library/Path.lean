-- SUMMARY: Functions on paths, directories and the surroundings of a script.
import Rill.Library.Math
import Rill.Machine.Loading
import Rill.Unicode.Case

/-!
# Path functions

Paths are texts; the functions that only take paths apart or put them together do not look at files.
-/

namespace Rill.Library

-- ---------------------------------------------------------------------------
-- Operations on files
-- ---------------------------------------------------------------------------

/-- What the file tree tells about a path. -/
def askFiles (f : Files.Tree → α) : Run α := Run.withFiles fun t => .ok (f t, t)

/-- Changes the file tree. A refusal is reported with what was attempted on which path. -/
def changeFiles (action path : String) (f : Files.Tree → Except Files.Refusal Files.Tree) : Run Value :=
  Run.withFiles fun t =>
    match f t with
    | .ok t => .ok (.null, t)
    | .error why => .error (Fault.refused action path why)

/-- The names in a directory, sorted. -/
def directoryNames (path : String) (hidden : Bool) : Run (List String) :=
  Run.withFiles fun t =>
    match t.list path hidden with
    | .ok names => .ok (names, t)
    | .error why => .error (Fault.refused "list directory" path why)

def newNames (names : List String) : Run Value := Run.newList (names.map Value.text).toArray

/-- Removes a file, or a directory with everything in it. -/
def removePath (path : String) : Run Value := changeFiles "remove" path (·.remove path)

-- ---------------------------------------------------------------------------
-- Temporary files
-- ---------------------------------------------------------------------------

/-- The directory for temporary files. -/
def temporaryDirectory : String := "/tmp"

/-- A number of 32 bits in hexadecimal, with leading zeros. -/
def hexWord (n : Nat) : String :=
  let digits := Nat.toDigits 16 (n % 0x100000000)
  String.ofList (List.replicate (8 - digits.length) '0' ++ digits)

/-- A path for a temporary file that does not exist: the first one free from a random number on. -/
def temporaryName : Run String := do
  let start ← Run.randomBelow 0x100000000
  askFiles fun t =>
    let candidates := (List.range (t.entries.length + 1)).map fun k =>
      Files.joinPath temporaryDirectory ("rill-" ++ hexWord (start + k))
    (candidates.find? fun path => !t.pathExists path).getD ""

-- ---------------------------------------------------------------------------
-- The functions
-- ---------------------------------------------------------------------------

def path (f : PathFunction) (args : Arguments) : Run Value := do
  match f with
  | .currentDirectory => return .text (Files.placeText (← get).files.current)
  | .setCurrentDirectory =>
    let path ← args.text 0
    changeFiles "change directory to" path (·.changeDirectory path)
  | .temporaryDirectory => return .text temporaryDirectory
  | .temporaryName => return .text (← temporaryName)
  | .userDirectory =>
    match (← get).home with
    | some path => return .text path
    | none => Run.fail .noUserDirectory
  | .separator => return .text "/"
  | .systemName => return .text "linux"
  | .fullPath =>
    let path ← args.text 0
    match Files.fullPath (← get).files.current path with
    | .ok full => return .text full
    | .error why => Run.fail (.refused "resolve" path why)
  | .join => return .text (Files.joinPath (← args.text 0) (← args.text 1))
  | .baseName => return .text (Files.baseName (← args.text 0))
  | .directory => return .text (Files.directoryName (← args.text 0))
  | .splitExtension =>
    let (stem, extension) := Files.splitExtension (← args.text 0)
    newNames [stem, extension]
  | .extension => return .text (Files.splitExtension (← args.text 0)).2
  | .extensionCased =>
    let extension := (Files.splitExtension (← args.text 0)).2
    if ← args.boolean 1 then return .text (String.ofList (Unicode.toLower extension.toList))
    return .text extension
  | .stripExtension => return .text (Files.splitExtension (← args.text 0)).1
  | .createDirectory =>
    let path ← args.text 0
    changeFiles "create directory" path (·.makeDirectories path path.length)
  | .removeDirectory =>
    let path ← args.text 0
    changeFiles "remove directory" path (·.removeDirectory path)
  | .removeDirectoryTree =>
    let path ← args.text 0
    let everything ← args.boolean 1
    changeFiles "remove directory" path fun t =>
      if everything then t.removeTree path else t.removeDirectory path
  | .clearDirectory =>
    let path ← args.text 0
    for name in ← directoryNames path true do
      let _ ← removePath (Files.joinPath path name)
    return .null
  | .listDirectory => newNames (← directoryNames (← args.text 0) false)
  | .listDirectoryHidden => newNames (← directoryNames (← args.text 0) (← args.boolean 1))
  | .removeFile =>
    let path ← args.text 0
    changeFiles "remove file" path (·.removeFile path)
  | .removePath => removePath (← args.text 0)
  | .pathExists =>
    let path ← args.text 0
    return .bool (← askFiles (·.pathExists path))
  | .isFile =>
    let path ← args.text 0
    return .bool (← askFiles (·.isFilePath path))
  | .isDirectory =>
    let path ← args.text 0
    return .bool (← askFiles (·.isDirectoryPath path))
  | .rename =>
    let source ← args.text 0
    let target ← args.text 1
    changeFiles "rename" source (·.rename source target)

def pathEntries : List Entry :=
  let fn (f : PathFunction) : Native := .path f
  let s : ClassId := .string
  let b : ClassId := .boolean
  [ .function "get_current_directory" (fn .currentDirectory) [],
    .function "set_current_directory" (fn .setCurrentDirectory) [s],
    .function "get_temp_directory" (fn .temporaryDirectory) [],
    .function "get_temp_name" (fn .temporaryName) [],
    .function "get_user_directory" (fn .userDirectory) [],
    .function "get_path_separator" (fn .separator) [],
    .function "get_os_name" (fn .systemName) [],
    .function "get_full_path" (fn .fullPath) [s],
    .function "join_path" (fn .join) [s, s],
    .function "get_base_name" (fn .baseName) [s],
    .function "get_directory" (fn .directory) [s],
    .function "split_extension" (fn .splitExtension) [s],
    .function "get_extension" (fn .extension) [s],
    .function "get_extension" (fn .extensionCased) [s, b],
    .function "strip_extension" (fn .stripExtension) [s],
    .function "create_directory" (fn .createDirectory) [s],
    .function "remove_directory" (fn .removeDirectory) [s],
    .function "remove_directory" (fn .removeDirectoryTree) [s, b],
    .function "clear_directory" (fn .clearDirectory) [s],
    .function "list_directory" (fn .listDirectory) [s],
    .function "list_directory" (fn .listDirectoryHidden) [s, b],
    .function "remove_file" (fn .removeFile) [s],
    .function "remove_path" (fn .removePath) [s],
    .function "exists" (fn .pathExists) [s],
    .function "is_file" (fn .isFile) [s],
    .function "is_directory" (fn .isDirectory) [s],
    .function "rename" (fn .rename) [s, s] ]

end Rill.Library
