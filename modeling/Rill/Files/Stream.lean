-- SUMMARY: Open files: buffered reading and writing.
import Rill.Files.Tree
import Rill.Fault

/-!
# Streams

An open file reads ahead into a buffer, or collects what is written until the buffer is full or the file
is closed. What another file writes to the same content is seen when the buffer is filled again.
-/

namespace Rill.Files

/-- Size of a buffer in bytes. -/
def bufferSize : Nat := 8192

/-- How a file is open. `none` as content is a directory, which opens but cannot be read. `place` is the
number of characters of the content taken or given so far. -/
inductive Stream
  | reading (content : Option Nat) (place : Nat) (buffer : List Char)
  | writing (content : Nat) (append : Bool) (place : Nat) (buffer : String)
  | closed
  deriving Repr, DecidableEq

/-- An open file and the path it was opened with. -/
structure OpenFile where
  path : String
  stream : Stream
  deriving Repr, DecidableEq

/-- The characters at the beginning of a text that fit into a number of bytes. -/
def takeBytes : Nat → List Char → List Char
  | _, [] => []
  | n, c :: rest => if c.utf8Size ≤ n then c :: takeBytes (n - c.utf8Size) rest else []

/-- Puts written text into a content, at its end or at a place of it. -/
def overwrite (content : List Char) (place : Nat) (text : List Char) : List Char :=
  let padding := List.replicate (place - content.length) '\x00'
  content.take place ++ padding ++ text ++ content.drop (place + text.length)

namespace OpenFile

/-- Opens a file in a mode. -/
def openPath (t : Tree) (path mode : String) : Except Failure (OpenFile × Tree) :=
  let refuse (why : Refusal) : Failure := Fault.refused "open file" path why
  match mode with
  | "r" =>
    match t.lookup path with
    | .ok (_, .file k) => .ok (⟨path, .reading (some k) 0 []⟩, t)
    | .ok (_, .directory) => .ok (⟨path, .reading none 0 []⟩, t)
    | .error why => .error (refuse why)
  | "w" =>
    match t.openForWriting path true with
    | .ok (k, t) => .ok (⟨path, .writing k false 0 ""⟩, t)
    | .error why => .error (refuse why)
  | "a" =>
    match t.openForWriting path false with
    | .ok (k, t) => .ok (⟨path, .writing k true 0 ""⟩, t)
    | .error why => .error (refuse why)
  | _ => .error (Fault.badFileMode mode)

/-- The file with a buffer that is not empty unless the content has ended. -/
def fill (f : OpenFile) (t : Tree) : Except Failure (OpenFile × List Char) :=
  match f.stream with
  | .reading (some k) place [] =>
    let buffer := takeBytes bufferSize ((t.content k).toList.drop place)
    .ok ({ f with stream := .reading (some k) (place + buffer.length) buffer }, buffer)
  | .reading none _ _ => .error (Fault.fileError f.path .isDirectory)
  | .reading _ _ buffer => .ok (f, buffer)
  | .writing .. => .error (Fault.fileMisuse "read from a file opened for writing" f.path)
  | .closed => .error (Fault.fileMisuse "read from a closed file" f.path)

/-- The file with other characters in its buffer. -/
def setBuffer (f : OpenFile) (buffer : List Char) : OpenFile :=
  match f.stream with
  | .reading k place _ => { f with stream := .reading k place buffer }
  | _ => f

/-- The buffer is at the end of the content. -/
def atEnd (f : OpenFile) (t : Tree) : Except Failure (Bool × OpenFile) := do
  let (f, buffer) ← f.fill t
  return (buffer.isEmpty, f)

/-- Takes characters up to and including the next line feed. `fuel` bounds the number of buffers. -/
def takeLine (f : OpenFile) (t : Tree) : Nat → Except Failure (List Char × OpenFile)
  | 0 => .ok ([], f)
  | fuel + 1 => do
    let (f, buffer) ← f.fill t
    let line := buffer.takeWhile (· ≠ '\n')
    match buffer.drop line.length with
    | _ :: rest => return (line ++ ['\n'], f.setBuffer rest)
    | [] =>
      if buffer.isEmpty then return ([], f)
      let (more, f) ← (f.setBuffer []).takeLine t fuel
      return (line ++ more, f)

/-- A line without its terminator: a line feed, and a carriage return before it. -/
def stripTerminator (line : List Char) : List Char :=
  match line.reverse with
  | '\n' :: '\r' :: rest | '\n' :: rest => rest.reverse
  | _ => line

/-- More buffers, and more lines, than a content can fill. -/
def bufferBound (t : Tree) : Nat := t.contents.foldl (fun n text => n + text.length) 2

/-- The next line without its terminator, if the content has not ended. -/
def readLine (f : OpenFile) (t : Tree) : Except Failure (Option String × OpenFile) := do
  let (line, f) ← f.takeLine t (bufferBound t)
  return (if line.isEmpty then none else some (String.ofList (stripTerminator line)), f)

/-- The rest of the lines. -/
def readLines (f : OpenFile) (t : Tree) : Nat → Except Failure (List String × OpenFile)
  | 0 => .ok ([], f)
  | fuel + 1 => do
    match ← f.readLine t with
    | (none, f) => return ([], f)
    | (some line, f) =>
      let (more, f) ← f.readLines t fuel
      return (line :: more, f)

/-- The rest of the content. -/
def readAll (f : OpenFile) (t : Tree) : Except Failure (String × OpenFile) := do
  let (f, buffer) ← f.fill t
  match f.stream with
  | .reading (some k) place _ =>
    let rest := (t.content k).toList.drop place
    return (String.ofList (buffer ++ rest), { f with stream := .reading (some k) (place + rest.length) [] })
  | _ => return (String.ofList buffer, f)

/-- Writes out what has been collected. -/
def flush (f : OpenFile) (t : Tree) : OpenFile × Tree :=
  match f.stream with
  | .writing k append place buffer =>
    if buffer = "" then (f, t)
    else
      let content := (t.content k).toList
      let start := if append then content.length else place
      let text := buffer.toList
      ({ f with stream := .writing k append (start + text.length) "" },
        t.setContent k (String.ofList (overwrite content start text)))
  | _ => (f, t)

/-- Collects a text. The buffer is written out first if the text does not fit into it, and a text that
is as large as the buffer is written at once. -/
def write (f : OpenFile) (t : Tree) (text : String) : Except Failure (OpenFile × Tree) :=
  match f.stream with
  | .writing _ _ _ buffer =>
    let (f, t) :=
      if buffer.utf8ByteSize + text.utf8ByteSize > bufferSize then f.flush t else (f, t)
    match f.stream with
    | .writing k append place buffer =>
      let f := { f with stream := .writing k append place (buffer ++ text) }
      .ok (if text.utf8ByteSize ≥ bufferSize then f.flush t else (f, t))
    | _ => .ok (f, t)
  | .reading .. => .error (Fault.fileMisuse "write to a file opened for reading" f.path)
  | .closed => .error (Fault.fileMisuse "write to a closed file" f.path)

/-- Writes out what has been collected and closes the file. -/
def close (f : OpenFile) (t : Tree) : OpenFile × Tree :=
  let (f, t) := f.flush t
  ({ f with stream := .closed }, t)

end OpenFile

end Rill.Files
