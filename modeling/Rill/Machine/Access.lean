-- SUMMARY: Elements and fields: reading, referring, making ready for a change, and assigning.
import Rill.Library

/-!
# Elements and fields

An element is read as a value. To refer to it, its place in the container is made a cell; a key that a
table lacks is added for that. To be changed in place, an element that is shared is first copied. A field
is a computed field of the class, a string key of a table or a member of a module, or a member of the
class, in this order.
-/

namespace Rill

-- ---------------------------------------------------------------------------
-- Indices
-- ---------------------------------------------------------------------------

namespace Heap

/-- An index: an integer, or a float with an integral value. -/
def indexOf (h : Heap) (v : Value) : Except Failure Int64 :=
  match h.resolve v with
  | .int n => .ok n
  | .float x =>
    match integralOf x with
    | some n => .ok n
    | none => .error (Fault.badIndexType "Float")
  | other => .error (Fault.badIndexType (h.typeName other))

/-- The only index. -/
def onlyIndex (indices : Array Value) : Except Failure Value :=
  match indices.toList with
  | [v] => .ok v
  | _ => .error (Fault.indexCount indices.size)

/-- The offset in a sequence. -/
def offsetOf (h : Heap) (indices : Array Value) (size : Nat) : Except Failure Nat := do
  resolveIndex (← h.indexOf (← onlyIndex indices)) size

/-- The key of an entry or an element. -/
def keyOf (h : Heap) (indices : Array Value) : Except Failure Key := do h.key (← onlyIndex indices)

/-- The name of a member. -/
def memberOf (h : Heap) (indices : Array Value) : Except Failure String := do
  h.textOf (← onlyIndex indices)

/-- The offset in an array. -/
def matrixOffset (h : Heap) (m : Matrix) (indices : Array Value) : Except Failure Nat := do
  m.offset (← indices.toList.mapM h.indexOf)

-- ---------------------------------------------------------------------------
-- Reading elements
-- ---------------------------------------------------------------------------

/-- A member of a module. -/
def member (h : Heap) (s : Space) (name : String) : Except Failure Value :=
  match s.members.find? name with
  | some v => .ok (h.resolve v)
  | none => .error (Fault.missingMember s.name name)

/-- The value of an element. -/
def element (h : Heap) (container : Value) (indices : Array Value) : Except Failure Value :=
  match h.resolve container with
  | .text s => do
    let cs := s.toList
    return .text (String.ofList ((cs.drop (← h.offsetOf indices cs.length)).take 1))
  | .object id =>
    match h.content? id with
    | some (.list items) => do
      return h.resolve (items.getD (← h.offsetOf indices items.size) .null)
    | some (.table entries) => do
      let key ← h.keyOf indices
      match entries.find? key with
      | some v => return h.resolve v
      | none => throw (Fault.keyNotFound key.display).failure
    | some (.set elements) => do return .bool (elements.contains (← h.keyOf indices))
    | some (.array m) => do return .float (m.data.getD (← h.matrixOffset m indices) 0)
    | some (.space s) => do h.member s (← h.memberOf indices)
    | _ => .error (Fault.notIndexable (h.typeName container))
  | other => .error (Fault.notIndexable (h.typeName other))

end Heap

namespace Run

-- ---------------------------------------------------------------------------
-- Places
-- ---------------------------------------------------------------------------

/-- What a place holds after a value has been assigned to it. A plain value goes into a cell that the
place holds. -/
def assign (old v : Value) : Run Value := do
  match old with
  | .cell id =>
    if v.isCell then return v
    setCell id v
    return old
  | _ => return v

/-- The cell of a place: the one it holds, or a new one with the value it holds. -/
def cellFor (v : Value) : Run CellId := do
  match v with
  | .cell id => return id
  | _ => allocateCell v

/-- Makes the place of a table entry a cell. -/
def entryCell (id : ObjectId) (entries : Table) (key : Key) : Run CellId := do
  let cell ← cellFor ((entries.find? key).getD .null)
  setContent id (.table (entries.insert key (.cell cell)))
  return cell

/-- Makes the place of a module member a cell. -/
def memberCell (id : ObjectId) (s : Space) (name : String) : Run CellId := do
  let cell ← cellFor ((s.members.find? name).getD .null)
  setContent id (.space { s with members := s.members.insert name (.cell cell) })
  return cell

/-- Assigns to a table entry. -/
def assignEntry (id : ObjectId) (entries : Table) (key : Key) (v : Value) : Run Unit := do
  let v ← assign ((entries.find? key).getD .null) v
  setContent id (.table (entries.insert key v))

/-- Assigns to a module member. -/
def assignMember (id : ObjectId) (s : Space) (name : String) (v : Value) : Run Unit := do
  let v ← assign ((s.members.find? name).getD .null) v
  setContent id (.space { s with members := s.members.insert name v })

-- ---------------------------------------------------------------------------
-- Elements
-- ---------------------------------------------------------------------------

/-- The failure to refer to an element of a value. -/
def notReferenceable (v : Value) : Run α := do
  fail (.noElementReference ((← heap).typeName v))

/-- The cell of an element. -/
def elementCell (container : Value) (indices : Array Value) : Run CellId := do
  let h ← heap
  match h.resolve container with
  | .object id =>
    match h.content? id with
    | some (.list items) =>
      let offset ← h.offsetOf indices items.size
      let cell ← cellFor (items.getD offset .null)
      setContent id (.list (items.setIfInBounds offset (.cell cell)))
      return cell
    | some (.table entries) => entryCell id entries (← h.keyOf indices)
    | some (.space s) => memberCell id s (← h.memberOf indices)
    | _ => notReferenceable container
  | other => notReferenceable other

/-- An element that may be changed in place. Its container must be so already. -/
def ownElement (container : Value) (indices : Array Value) : Run Value := do
  let h ← heap
  let extra := container :: indices.toList
  match h.contentOf container, h.resolve container with
  | some (.list items), .object id =>
    let offset ← h.offsetOf indices items.size
    let (held, own) ← unshareSlot (items.getD offset .null) extra
    setContent id (.list (items.setIfInBounds offset held))
    return own
  | some (.table entries), .object id =>
    let key ← h.keyOf indices
    match entries.find? key with
    | some v =>
      let (held, own) ← unshareSlot v extra
      setContent id (.table (entries.insert key held))
      return own
    | none => fail (.keyNotFound key.display)
  | _, _ => h.element container indices

/-- Assigns to an element. -/
def setElement (container : Value) (indices : Array Value) (v : Value) : Run Unit := do
  let h ← heap
  let v := h.resolve v
  match h.resolve container with
  | .object id =>
    match h.content? id with
    | some (.list items) =>
      let offset ← h.offsetOf indices items.size
      let held ← assign (items.getD offset .null) v
      setContent id (.list (items.setIfInBounds offset held))
    | some (.table entries) => assignEntry id entries (← h.keyOf indices) v
    | some (.set elements) =>
      let key ← h.keyOf indices
      setContent id (.set (if v.isTrue then elements.insert key else elements.erase key))
    | some (.array m) =>
      let offset ← h.matrixOffset m indices
      let x ← h.numberOf v
      setContent id (.array { m with data := m.data.setIfInBounds offset x })
    | some (.space s) => assignMember id s (← h.memberOf indices) v
    | _ => fail (.notIndexable (h.typeName container))
  | .text _ => fail .fixedString
  | other => fail (.notIndexable (h.typeName other))

-- ---------------------------------------------------------------------------
-- Fields
-- ---------------------------------------------------------------------------

/-- The value of a field. -/
def field (object : Value) (name : String) : Run Value := do
  let h ← heap
  let object := h.resolve object
  let cls := h.classOf object
  if let some accessor := h.classes.accessor? cls name then
    return ← accessor.getter.answer #[object]
  let content := h.contentOf object
  let own : Option Value :=
    match content with
    | some (.table entries) => (entries.find? (.text name)).map h.resolve
    | some (.cls described) => h.classes.member? described name
    | _ => none
  match own, content with
  | some v, _ => return v
  | none, some (.space s) => h.member s name
  | none, _ =>
    match h.classes.member? cls name, content with
    | some v, _ => return v
    | none, some (.table _) => fail (.keyNotFound name)
    | none, _ => fail (.noMember (h.classes.name cls) name)

/-- The cell of a field. -/
def fieldCell (object : Value) (name : String) : Run CellId := do
  let h ← heap
  match h.contentOf object, h.resolve object with
  | some (.table entries), .object id => entryCell id entries (.text name)
  | some (.space s), .object id => memberCell id s name
  | _, other => notReferenceable other

/-- A field that may be changed in place. -/
def ownField (object : Value) (name : String) : Run Value := do
  let h ← heap
  match h.contentOf object, h.resolve object with
  | some (.table entries), .object id =>
    match entries.find? (.text name) with
    | some v =>
      let (held, own) ← unshareSlot v [object]
      setContent id (.table (entries.insert (.text name) held))
      return own
    | none => fail (.keyNotFound name)
  | some (.space s), .object id =>
    match s.members.find? name with
    | some v =>
      let (held, own) ← unshareSlot v [object]
      setContent id (.space { s with members := s.members.insert name held })
      return own
    | none => fail (.missingMember s.name name)
  | _, other => field other name

/-- Assigns to a field. -/
def setField (object : Value) (name : String) (v : Value) : Run Unit := do
  let h ← heap
  let object := h.resolve object
  let v := h.resolve v
  let cls := h.classOf object
  if let some accessor := h.classes.accessor? cls name then
    match accessor.setter with
    | some setter =>
      let _ ← setter.answer #[object, v]
      return
    | none => fail (.readOnlyField name (h.classes.name cls))
  match h.contentOf object, object with
  | some (.table entries), .object id => assignEntry id entries (.text name) v
  | some (.space s), .object id => assignMember id s name v
  | _, _ => fail (.fieldNotSettable name (h.classes.name cls))

end Run

end Rill
