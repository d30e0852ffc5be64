-- SUMMARY: A file system: directories, files, the operations on paths, and changes from one to another.
import Rill.Files.Refusal

/-!
# File trees

Directories and files are listed by their places, the names that lead to them from the root. A place of a
file names its content, so that an open file keeps its content when the place is removed or renamed. A
path is a text whose names are separated by slashes; it is followed name by name, from the root or from
the current directory.
-/

namespace Rill.Files

-- ---------------------------------------------------------------------------
-- Trees
-- ---------------------------------------------------------------------------

/-- The names that lead from the root to a file or a directory. -/
abbrev Place := List String

/-- The order of places by their names, the first different one deciding. -/
def Place.precedes : Place → Place → Bool
  | [], _ => true
  | _ :: _, [] => false
  | a :: as, b :: bs => if a = b then Place.precedes as bs else a < b

inductive Entry
  | directory
  | file (content : Nat)
  deriving Repr, DecidableEq

structure Tree where
  /-- Every place but the root. -/
  entries : List (Place × Entry) := []
  contents : Array String := #[]
  current : Place := []
  deriving Repr

namespace Tree

/-- What is at a place. -/
def entry? (t : Tree) (place : Place) : Option Entry :=
  if place = [] then some .directory else (t.entries.find? (·.1 = place)).map (·.2)

def isDirectory (t : Tree) (place : Place) : Bool := t.entry? place = some .directory

/-- Puts an entry at a place. -/
def setEntry (t : Tree) (place : Place) (entry : Entry) : Tree :=
  { t with entries := (place, entry) :: t.entries.filter (·.1 ≠ place) }

/-- Removes a place and everything below it. -/
def prune (t : Tree) (place : Place) : Tree :=
  { t with entries := t.entries.filter fun e => !place.isPrefixOf e.1 }

/-- The names in a directory. -/
def children (t : Tree) (place : Place) : List String :=
  t.entries.filterMap fun e => if e.1.dropLast = place then e.1.getLast? else none

/-- The text of a content. -/
def content (t : Tree) (k : Nat) : String := t.contents.getD k ""

def setContent (t : Tree) (k : Nat) (text : String) : Tree :=
  { t with contents := t.contents.setIfInBounds k text }

-- ---------------------------------------------------------------------------
-- Paths
-- ---------------------------------------------------------------------------

/-- The parts of a path between slashes. -/
def pathParts (path : String) : List String := path.splitOn "/"

/-- The directory reached from `place` along names, all of which must exist. -/
def descend (t : Tree) (place : Place) : List String → Except Refusal Place
  | [] => .ok place
  | name :: rest =>
    match t.entry? place with
    | some .directory =>
      if name = "" ∨ name = "." then descend t place rest
      else if name = ".." then descend t place.dropLast rest
      else
        match t.entry? (place ++ [name]) with
        | none => .error .notFound
        | some _ => descend t (place ++ [name]) rest
    | some (.file _) => .error .notDirectory
    | none => .error .notFound

/-- Where a path leads: a place that need not exist in a directory that must. `onlyDirectory` tells that
the path can only mean a directory. -/
structure Target where
  place : Place
  onlyDirectory : Bool
  deriving Repr, DecidableEq

/-- The directory that a path starts from. -/
def origin (t : Tree) (path : String) : Place := if path.startsWith "/" then [] else t.current

/-- The names of a path, and whether it ends in a way that only a directory can. -/
def splitTarget (path : String) : List String × Bool :=
  let names := (pathParts path).filter (· ≠ "")
  (names, path.endsWith "/" ∨ names.getLast? = some "." ∨ names.getLast? = some "..")

def resolve (t : Tree) (path : String) : Except Refusal Target := do
  if path = "" then throw .notFound
  let (names, onlyDirectory) := splitTarget path
  match names.getLast? with
  | none => return ⟨[], true⟩
  | some last =>
    if last = "." ∨ last = ".." then return ⟨← t.descend (t.origin path) names, true⟩
    let directory ← t.descend (t.origin path) names.dropLast
    if !t.isDirectory directory then throw .notDirectory
    return ⟨directory ++ [last], onlyDirectory⟩

/-- The existing entry that a path leads to. -/
def lookup (t : Tree) (path : String) : Except Refusal (Place × Entry) := do
  let target ← t.resolve path
  match t.entry? target.place with
  | none => throw .notFound
  | some (.file k) => if target.onlyDirectory then throw .notDirectory else return (target.place, .file k)
  | some .directory => return (target.place, .directory)

-- ---------------------------------------------------------------------------
-- Questions
-- ---------------------------------------------------------------------------

def pathExists (t : Tree) (path : String) : Bool := (t.lookup path).toBool

def isDirectoryPath (t : Tree) (path : String) : Bool :=
  match t.lookup path with
  | .ok (_, .directory) => true
  | _ => false

def isFilePath (t : Tree) (path : String) : Bool :=
  match t.lookup path with
  | .ok (_, .file _) => true
  | _ => false

/-- The names in a directory, sorted. Names that start with a dot are left out unless `hidden` is set. -/
def list (t : Tree) (path : String) (hidden : Bool) : Except Refusal (List String) := do
  match ← t.lookup path with
  | (place, .directory) =>
    let names := (t.children place).filter fun name => hidden || !name.startsWith "."
    return names.mergeSort (· ≤ ·)
  | (_, .file _) => throw .notDirectory

/-- The text of a file. -/
def read (t : Tree) (path : String) : Except Refusal String := do
  match ← t.lookup path with
  | (_, .file k) => return t.content k
  | (_, .directory) => throw .isDirectory

-- ---------------------------------------------------------------------------
-- Changes
-- ---------------------------------------------------------------------------

/-- The content of a file that is about to be written, and the tree with that file in it. An existing
file is emptied if `truncate` is set. -/
def openForWriting (t : Tree) (path : String) (truncate : Bool) : Except Refusal (Nat × Tree) := do
  let target ← t.resolve path
  match t.entry? target.place with
  | some .directory => throw .isDirectory
  | some (.file k) =>
    if target.onlyDirectory then throw .isDirectory
    return (k, if truncate then t.setContent k "" else t)
  | none =>
    if target.onlyDirectory then throw .isDirectory
    let k := t.contents.size
    return (k, { t.setEntry target.place (.file k) with contents := t.contents.push "" })

/-- Writes a file, creating it if needed. -/
def write (t : Tree) (path text : String) : Except Refusal Tree := do
  let (k, t) ← t.openForWriting path true
  return t.setContent k text

/-- Makes one directory. -/
def makeDirectory (t : Tree) (path : String) : Except Refusal Tree := do
  let target ← t.resolve path
  match t.entry? target.place with
  | some _ => throw .alreadyExists
  | none => return t.setEntry target.place .directory

/-- The path without its last name, if it has one. Single dots are no names. -/
def parentPath (path : String) : Option String :=
  let names := (pathParts path).filter fun name => name ≠ "" ∧ name ≠ "."
  if names.isEmpty then none
  else some ((if path.startsWith "/" then "/" else "") ++ "/".intercalate names.dropLast)

/-- Makes a directory and those above it that are missing. `depth` bounds the number of names. -/
def makeDirectories (t : Tree) (path : String) : Nat → Except Refusal Tree
  | 0 => t.makeDirectory path
  | depth + 1 =>
    if path = "" then .ok t
    else
      match t.makeDirectory path with
      | .ok t => .ok t
      | .error .notFound =>
        match parentPath path with
        | none => .error .notFound
        | some parent => do
          let t ← makeDirectories t parent depth
          match t.makeDirectory path with
          | .ok t => .ok t
          | .error why => if t.isDirectoryPath path then .ok t else .error why
      | .error why => if t.isDirectoryPath path then .ok t else .error why

/-- Removes an empty directory. It must be given by its name, not by dots. -/
def removeDirectory (t : Tree) (path : String) : Except Refusal Tree := do
  match ← t.lookup path with
  | (_, .file _) => throw .notDirectory
  | (place, .directory) =>
    let last := (splitTarget path).1.getLast?
    if last = some "." then throw .invalidArgument
    if last = some ".." ∨ !(t.children place).isEmpty then throw .notEmpty
    return t.prune place

/-- Removes a directory and everything in it. -/
def removeTree (t : Tree) (path : String) : Except Refusal Tree := do
  match ← t.lookup path with
  | (_, .file _) => throw .notDirectory
  | (place, .directory) => return t.prune place

def removeFile (t : Tree) (path : String) : Except Refusal Tree := do
  match ← t.lookup path with
  | (_, .directory) => throw .isDirectory
  | (place, .file _) => return t.prune place

/-- Removes a file or a directory with everything in it. -/
def remove (t : Tree) (path : String) : Except Refusal Tree :=
  if t.isDirectoryPath path then t.removeTree path else t.removeFile path

/-- Moves everything at and below a place to another place. -/
def move (t : Tree) (source target : Place) : Tree :=
  { t with entries := t.entries.map fun e =>
      if source.isPrefixOf e.1 then (target ++ e.1.drop source.length, e.2) else e }

/-- Gives a file or a directory another path. What is at the new path is replaced if it is of the same
kind, a directory only if it is empty. -/
def rename (t : Tree) (source target : String) : Except Refusal Tree := do
  let origin ← t.resolve source
  let destination ← t.resolve target
  match t.entry? origin.place with
  | none => throw .notFound
  | some entry =>
    if entry ≠ .directory && (origin.onlyDirectory || destination.onlyDirectory) then throw .notDirectory
    if origin.place = destination.place then return t
    if origin.place.isPrefixOf destination.place then throw .invalidArgument
    if destination.place.isPrefixOf origin.place then throw .notEmpty
    match entry, t.entry? destination.place with
    | .file _, some .directory => throw .isDirectory
    | .directory, some (.file _) => throw .notDirectory
    | .directory, some .directory =>
      if !(t.children destination.place).isEmpty then throw .notEmpty
      return (t.prune destination.place).move origin.place destination.place
    | _, _ => return (t.prune destination.place).move origin.place destination.place

def changeDirectory (t : Tree) (path : String) : Except Refusal Tree := do
  match ← t.lookup path with
  | (place, .directory) => return { t with current := place }
  | (_, .file _) => throw .notDirectory

end Tree

-- ---------------------------------------------------------------------------
-- Path texts
-- ---------------------------------------------------------------------------

/-- The text of a place. -/
def placeText (place : Place) : String := "/" ++ "/".intercalate place

/-- Two paths put together; a second path from the root stands alone. -/
def joinPath (first second : String) : String :=
  if second.startsWith "/" ∨ first = "" then second
  else if first.endsWith "/" then first ++ second
  else first ++ "/" ++ second

/-- The path from the root, without empty names and single dots. Names are not looked up. -/
def fullPath (current : Place) (path : String) : Except Refusal String :=
  if path = "" then .error .emptyPath
  else
    let names := (Tree.pathParts path).filter fun name => name ≠ "" ∧ name ≠ "."
    let start :=
      if path.startsWith "//" ∧ !path.startsWith "///" then "//"
      else if path.startsWith "/" then "/"
      else placeText current
    let full := names.foldl joinPath start
    .ok (if path.endsWith "/" ∧ !full.endsWith "/" then full ++ "/" else full)

/-- The parts of a path before and behind its last slash. -/
def splitName (path : String) : Option (String × String) :=
  match (Tree.pathParts path).reverse with
  | [] | [_] => none
  | name :: rest => some ("/".intercalate rest.reverse, name)

/-- The last name of a path. -/
def baseName (path : String) : String := (splitName path).elim path (·.2)

/-- Everything before the last slash. -/
def directoryName (path : String) : String := (splitName path).elim "" (·.1)

/-- A path split before the last dot of its last name. -/
def splitExtension (path : String) : String × String :=
  match ((baseName path).splitOn ".").reverse with
  | [] | [_] => (path, "")
  | last :: _ => (String.ofList (path.toList.take (path.length - last.length - 1)), "." ++ last)

-- ---------------------------------------------------------------------------
-- Changes
-- ---------------------------------------------------------------------------

-- The changes that lead from one file tree to another: what is gone is removed, a directory after what was
-- in it; then directories are made, a directory before what is in it; then files are written.

inductive Change
  | removeFile (place : Place)
  | removeDirectory (place : Place)
  | makeDirectory (place : Place)
  | write (place : Place) (text : String)
  deriving Repr, DecidableEq

/-- What a file holds that is at a place. -/
def Tree.text? (t : Tree) (place : Place) : Option String :=
  match t.entry? place with
  | some (.file k) => some (t.content k)
  | _ => none

/-- The removals among the changes, for places in this order. -/
def Tree.removals (old new : Tree) (places : List Place) : List Change :=
  places.filterMap fun place =>
    match old.entry? place, new.entry? place with
    | some (.file _), some (.file _) | some .directory, some .directory => none
    | some (.file _), _ => some (.removeFile place)
    | some .directory, _ => some (.removeDirectory place)
    | none, _ => none

/-- The directories that are new, for places in this order. -/
def Tree.newDirectories (old new : Tree) (places : List Place) : List Change :=
  places.filterMap fun place =>
    if new.isDirectory place && !old.isDirectory place then some (.makeDirectory place) else none

/-- The files that are new or hold another text. -/
def Tree.newTexts (old new : Tree) (places : List Place) : List Change :=
  places.filterMap fun place =>
    match new.text? place with
    | some text => if old.text? place = some text then none else some (.write place text)
    | none => none

/-- The changes that make one tree the other. -/
def Tree.changes (old new : Tree) : List Change :=
  let depth (places : List Place) : List Place := places.mergeSort fun a b => a.length ≤ b.length
  let before := depth (old.entries.map (·.1))
  let after := depth (new.entries.map (·.1))
  old.removals new before.reverse ++ old.newDirectories new after ++ old.newTexts new after

end Rill.Files
