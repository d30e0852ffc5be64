-- SUMMARY: The heap: objects with their contents, cells, and the classes they belong to.
import Rill.Files.Stream
import Rill.Function
import Rill.Matrix
import Rill.Pattern.Automaton

/-!
# The heap

Objects and cells live at identities that are never used twice; what has been reclaimed leaves an empty
place. Objects of a collectable class and all cells are watched by the collector. The classes are kept
with the heap because the class of a value decides how it is shown, dispatched on and reclaimed.
-/

namespace Rill

-- ---------------------------------------------------------------------------
-- Contents
-- ---------------------------------------------------------------------------

/-- What a loop goes through. -/
inductive Sequence
  | object (id : ObjectId)
  | text (rest : List Char)
  deriving Repr, DecidableEq

/-- The state of a loop over elements: the source, the position in it, and the number of elements given
out. The rest of a text is its own position. -/
structure Iterator where
  source : Sequence
  position : Nat := 0
  count : Nat := 0
  byRef : Bool
  deriving Repr, DecidableEq

/-- A named space of variables. -/
structure Space where
  name : String
  members : OrderedMap String Value := {}

/-- A compiled pattern and the groups of its last match, if it matched. -/
structure Matcher where
  source : String
  automaton : Pattern.Automaton
  last : Option (List Char × Array (Option (Nat × Nat))) := none

/-- What an object holds. -/
inductive Content
  | list (items : Array Value)
  | table (entries : Table)
  | set (elements : KeySet)
  | array (matrix : Matrix)
  | function (fn : Function)
  | cls (id : ClassId)
  | iterator (state : Iterator)
  | space (space : Space)
  | regex (matcher : Matcher)
  | file (file : Files.OpenFile)

instance : Inhabited Content := ⟨.list #[]⟩

namespace Content

/-- Number of elements of a container. -/
def size? : Content → Option Nat
  | .list items => some items.size
  | .table entries => some entries.size
  | .set elements => some elements.size
  | .array matrix => some matrix.data.size
  | _ => none

/-- Lists, tables, sets and arrays behave as values: each variable has its own. -/
def isContainer (c : Content) : Bool := c.size?.isSome

/-- The same kind of content with nothing in it, if the collector may leave that behind. -/
def emptied? : Content → Option Content
  | .list _ => some (.list #[])
  | .table _ => some (.table {})
  | .set _ => some (.set #[])
  | .function f => some (.function { name := f.name })
  | .space s => some (.space { name := s.name })
  | .array _ | .cls _ | .iterator _ | .regex _ | .file _ => none

/-- Two contents are of one kind. -/
def sameKind : Content → Content → Bool
  | .list _, .list _ | .table _, .table _ | .set _, .set _ | .array _, .array _
  | .function _, .function _ | .cls _, .cls _ | .iterator _, .iterator _ | .space _, .space _
  | .regex _, .regex _ | .file _, .file _ => true
  | _, _ => false

end Content

/-- An object: its class and what it holds. -/
structure Object where
  cls : ClassId
  content : Content
  deriving Inhabited

-- ---------------------------------------------------------------------------
-- Heaps
-- ---------------------------------------------------------------------------

structure Heap where
  classes : ClassTree := #[]
  objects : Array (Option Object) := #[]
  cells : Array (Option Value) := #[]

namespace Heap

def object? (h : Heap) (id : ObjectId) : Option Object := (h.objects[id.index]?).join

def content? (h : Heap) (id : ObjectId) : Option Content := (h.object? id).map (·.content)

def cell? (h : Heap) (id : CellId) : Option Value := (h.cells[id.index]?).join

/-- The value in a cell; null if there is no such cell. -/
def cellValue (h : Heap) (id : CellId) : Value := ((h.cells[id.index]?).join).getD .null

/-- A value with a cell replaced by what is in it. -/
def resolve (h : Heap) : Value → Value
  | .cell id => h.cellValue id
  | v => v

/-- Puts a new object on the heap. -/
def allocate (h : Heap) (cls : ClassId) (content : Content) : ObjectId × Heap :=
  (⟨h.objects.size⟩, { h with objects := h.objects.push (some ⟨cls, content⟩) })

/-- Puts a new cell on the heap. -/
def allocateCell (h : Heap) (value : Value) : CellId × Heap :=
  (⟨h.cells.size⟩, { h with cells := h.cells.push (some (h.resolve value)) })

/-- Changes what an object holds. -/
def modifyContent (h : Heap) (id : ObjectId) (f : Content → Content) : Heap :=
  { h with objects := h.objects.modify id.index (·.map fun o => { o with content := f o.content }) }

/-- Gives an object another content of the same kind. -/
def setContent (h : Heap) (id : ObjectId) (content : Content) : Heap :=
  h.modifyContent id fun old => if old.sameKind content then content else old

/-- Stores a value in a cell; of another cell its value. -/
def setCell (h : Heap) (id : CellId) (value : Value) : Heap :=
  { h with cells := h.cells.setIfInBounds id.index (some (h.resolve value)) }

/-- The class of a value. -/
def classOf (h : Heap) (v : Value) : ClassId :=
  match h.resolve v with
  | .null | .cell _ => .null
  | .bool _ => .boolean
  | .int _ => .integer
  | .float _ => .float
  | .text _ => .string
  | .object id => (h.object? id).elim .root (·.cls)

/-- The name of the class of a value. -/
def typeName (h : Heap) (v : Value) : String := h.classes.name (h.classOf v)

/-- The truth of a value. -/
def truth (h : Heap) (v : Value) : Bool := (h.resolve v).isTrue

/-- The value is null, or a cell with null in it. -/
def isNull (h : Heap) (v : Value) : Bool := h.resolve v = .null

/-- What the object behind a value holds. -/
def contentOf (h : Heap) (v : Value) : Option Content :=
  match h.resolve v with
  | .object id => h.content? id
  | _ => none

/-- The key that a value selects. -/
def key (h : Heap) (v : Value) : Except Failure Key :=
  match (h.resolve v).key? with
  | some key => .ok key
  | none => .error (Fault.badKeyType (h.typeName v))

-- ---------------------------------------------------------------------------
-- Values of a certain type
-- ---------------------------------------------------------------------------

/-- The failure of a value that should have had another type. -/
def mistyped (h : Heap) (expected : String) (v : Value) : Failure :=
  Fault.expectedType expected (h.typeName v)

def integerOf (h : Heap) (v : Value) : Except Failure Int64 :=
  match h.resolve v with
  | .int n => .ok n
  | other => .error (h.mistyped "Integer" other)

def floatOf (h : Heap) (v : Value) : Except Failure Float :=
  match h.resolve v with
  | .float x => .ok x
  | other => .error (h.mistyped "Float" other)

/-- An integer or a float as a float. -/
def numberOf (h : Heap) (v : Value) : Except Failure Float :=
  match h.resolve v with
  | .int n => .ok (widen n)
  | .float x => .ok x
  | other => .error (h.mistyped "Number" other)

def booleanOf (h : Heap) (v : Value) : Except Failure Bool :=
  match h.resolve v with
  | .bool b => .ok b
  | other => .error (h.mistyped "Boolean" other)

def textOf (h : Heap) (v : Value) : Except Failure String :=
  match h.resolve v with
  | .text s => .ok s
  | other => .error (h.mistyped "String" other)

/-- The items of a list. -/
def listOf (h : Heap) (v : Value) : Except Failure (Array Value) :=
  match h.contentOf v with
  | some (.list items) => .ok (items.map h.resolve)
  | _ => .error (h.mistyped "List" v)

/-- The entries of a table. -/
def tableOf (h : Heap) (v : Value) : Except Failure Table :=
  match h.contentOf v with
  | some (.table entries) => .ok (entries.map h.resolve)
  | _ => .error (h.mistyped "Table" v)

def setOf (h : Heap) (v : Value) : Except Failure KeySet :=
  match h.contentOf v with
  | some (.set elements) => .ok elements
  | _ => .error (h.mistyped "Set" v)

def matrixOf (h : Heap) (v : Value) : Except Failure Matrix :=
  match h.contentOf v with
  | some (.array matrix) => .ok matrix
  | _ => .error (h.mistyped "Array" v)

end Heap

end Rill
