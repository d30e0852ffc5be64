-- SUMMARY: Values made from JSON documents and documents made from values.
import Rill.Json.Read
import Rill.Library.Entry

/-!
# JSON functions

Objects become tables and lists become lists. In the other direction, sets and arrays become lists too,
and a key that is no text becomes its text; if two keys of a table have the same text, the first gives
the position and the last the value.
-/

namespace Rill

-- ---------------------------------------------------------------------------
-- From documents to values
-- ---------------------------------------------------------------------------

mutual

/-- The value of a document. -/
def Run.ofDocument : Json.Document → Run Value
  | .null => return .null
  | .bool b => return .bool b
  | .int n => return .int n
  | .float x => return .float x
  | .text s => return .text s
  | .list items => do Run.newList (← ofItems items).toArray
  | .object fields => do Run.newTable (OrderedMap.ofList (← ofFields fields))

/-- The values of the items of a list. -/
def Run.ofItems : List Json.Document → Run (List Value)
  | [] => return []
  | d :: rest => do
    let v ← ofDocument d
    return v :: (← ofItems rest)

/-- The entries for the fields of an object. -/
def Run.ofFields : List (String × Json.Document) → Run (List (Key × Value))
  | [] => return []
  | (key, d) :: rest => do
    let v ← ofDocument d
    return (.text key, v) :: (← ofFields rest)

end

-- ---------------------------------------------------------------------------
-- From values to documents
-- ---------------------------------------------------------------------------

namespace Heap

def floatDocument (x : Float) : Except Failure Json.Document :=
  if x.isNaN || x.isInf then .error (Fault.floatNotJson x) else .ok (.float x)

/-- The rows of an array. A single row is not nested. -/
def matrixDocument (m : Matrix) : Except Failure Json.Document := do
  let numbers ← m.data.toList.mapM floatDocument
  let width := max m.cols 1
  let row (k : Nat) : Json.Document := .list ((numbers.drop (k * width)).take width)
  if m.rows = 1 then return .list numbers
  return .list ((List.range ((numbers.length + width - 1) / width)).map row)

/-- The document of what an object holds, given those of the values in it. -/
def contentDocument (h : Heap) (cls : ClassId) (value : Value → Except Failure Json.Document) :
    Content → Except Failure Json.Document
  | .list items => return .list (← items.toList.mapM value)
  | .table entries => do
    let fields ← entries.entries.toList.mapM fun (key, v) => do return (key.display, ← value v)
    return .object (OrderedMap.ofList fields).entries.toList
  | .set elements => return .list (← elements.toList.mapM fun key => value key.value)
  | .array m => matrixDocument m
  | _ => .error (Fault.notJson (h.classes.name cls))

/-- The document of a value inside the objects `around` it, each of which takes one unit of `fuel`. With
more objects around a value than there are, one of them contains itself. -/
def documentWithin (h : Heap) : Nat → List ObjectId → Value → Except Failure Json.Document
  | fuel, around, v =>
    match h.resolve v with
    | .null | .cell _ => .ok .null
    | .bool b => .ok (.bool b)
    | .int n => .ok (.int n)
    | .float x => floatDocument x
    | .text s => .ok (.text s)
    | .object id =>
      if around.contains id then .error Fault.cyclicJson
      else
        match fuel, h.object? id with
        | fuel + 1, some o => h.contentDocument o.cls (documentWithin h fuel (id :: around)) o.content
        | 0, some _ => .error Fault.cyclicJson
        | _, none => .error (Fault.notJson (h.typeName v))

/-- The document of a value, unless an object contains itself. -/
def document (h : Heap) (v : Value) : Except Failure Json.Document :=
  h.documentWithin (h.objects.size + 1) [] v

end Heap

-- ---------------------------------------------------------------------------
-- The functions
-- ---------------------------------------------------------------------------

namespace Library

def json (f : JsonFunction) (args : Arguments) : Run Value := do
  match f with
  | .load =>
    match Json.read (← args.text 0) with
    | .ok d => Run.ofDocument d
    | .error c => Run.fail (.json c)
  | .dump => return .text (String.ofList (← (← Run.heap).document (args.nth 0)).write)

def jsonEntries : List Entry :=
  [ .function "load_json" (.json .load) [.string],
    .function "dump_json" (.json .dump) [.table],
    .function "dump_json" (.json .dump) [.list] ]

end Library

end Rill
