-- SUMMARY: Values, the keys of tables and sets, and insertion-ordered maps.
import Rill.Decimal.FloatText

/-!
# Values

A value is a scalar, an object on the heap or a cell on the heap. Cells are storage shared by several
variables; they never hold another cell. Tables and sets are keyed by scalars: a float with an integral
value is the same key as the integer.
-/

namespace Rill

-- ---------------------------------------------------------------------------
-- Identities and values
-- ---------------------------------------------------------------------------

/-- The identity of an object on the heap. -/
structure ObjectId where
  index : Nat
  deriving Repr, DecidableEq, Inhabited

/-- The identity of a cell on the heap. -/
structure CellId where
  index : Nat
  deriving Repr, DecidableEq, Inhabited

/-- The identity of a class. -/
structure ClassId where
  index : Nat
  deriving Repr, DecidableEq, Inhabited

inductive Value
  | null
  | bool (value : Bool)
  | int (value : Int64)
  | float (value : Float)
  | text (value : String)
  | object (id : ObjectId)
  | cell (id : CellId)
  deriving Repr, DecidableEq, Inhabited

/-- The value is a cell. -/
def Value.isCell : Value → Bool
  | .cell _ => true
  | _ => false

/-- The truth of a value that is no cell. Zero and nan are false. -/
def Value.isTrue : Value → Bool
  | .null => false
  | .bool b => b
  | .int n => n ≠ 0
  | .float x => !(x == 0 || x.isNaN)
  | .text _ | .object _ | .cell _ => true

/-- A length or a position as an integer value. -/
def Value.ofNat (n : Nat) : Value := .int (Int64.ofNat n)

-- ---------------------------------------------------------------------------
-- Integers and floats
-- ---------------------------------------------------------------------------

/-- The float nearest to an integer. -/
def widen (n : Int64) : Float := .ofModel (.ofInt64 n)

/-- The integral part of a float. Out of range it is the end of the range, and nan gives zero. -/
def truncate (x : Float) : Int64 := x.toModel.toInt64

/-- The integer that a float denotes, if it is integral and small enough to be one for certain. -/
def integralOf (x : Float) : Option Int64 :=
  if x.abs < 9.0e18 && widen (truncate x) == x then some (truncate x) else none

-- ---------------------------------------------------------------------------
-- Keys
-- ---------------------------------------------------------------------------

/-- The key of a table entry or an element of a set. Floats are told apart by their bits. -/
inductive Key
  | null
  | bool (value : Bool)
  | int (value : Int64)
  | float (bits : UInt64)
  | text (value : String)
  deriving Repr, DecidableEq, Inhabited

/-- The key that a value which is no cell selects; objects are not keys. -/
def Value.key? : Value → Option Key
  | .null => some .null
  | .bool b => some (.bool b)
  | .int n => some (.int n)
  | .float x =>
    match integralOf x with
    | some n => some (.int n)
    | none => some (.float x.toBits)
  | .text s => some (.text s)
  | .object _ | .cell _ => none

def Key.value : Key → Value
  | .null => .null
  | .bool b => .bool b
  | .int n => .int n
  | .float bits => .float (Float.ofBits bits)
  | .text s => .text s

-- ---------------------------------------------------------------------------
-- Scalar text
-- ---------------------------------------------------------------------------

/-- The text of a key by itself. -/
def Key.display : Key → String
  | .null => "null"
  | .bool b => toString b
  | .int n => toString n
  | .float bits => Decimal.scriptForm.write (Float.ofBits bits)
  | .text s => s

-- ---------------------------------------------------------------------------
-- Insertion-ordered maps
-- ---------------------------------------------------------------------------

/-- Entries in the order in which their keys were first inserted. -/
structure OrderedMap (κ : Type) (α : Type) where
  entries : Array (κ × α) := #[]
  deriving Repr, Inhabited

namespace OrderedMap

variable [DecidableEq κ]

def size (m : OrderedMap κ α) : Nat := m.entries.size

/-- The position of a key. -/
def position? (m : OrderedMap κ α) (key : κ) : Option Nat := m.entries.findIdx? (·.1 = key)

def find? (m : OrderedMap κ α) (key : κ) : Option α := (m.entries.find? (·.1 = key)).map (·.2)

def contains (m : OrderedMap κ α) (key : κ) : Bool := m.entries.any (·.1 = key)

/-- Sets the value of a key; a new key comes last. -/
def insert (m : OrderedMap κ α) (key : κ) (value : α) : OrderedMap κ α :=
  match m.position? key with
  | some i => ⟨m.entries.modify i fun entry => (entry.1, value)⟩
  | none => ⟨m.entries.push (key, value)⟩

/-- Removes a key; the entries behind it move up. -/
def erase (m : OrderedMap κ α) (key : κ) : OrderedMap κ α :=
  match m.position? key with
  | some i => ⟨m.entries.eraseIdxIfInBounds i⟩
  | none => m

def keys (m : OrderedMap κ α) : Array κ := m.entries.map (·.1)

def values (m : OrderedMap κ α) : Array α := m.entries.map (·.2)

/-- Changes every value. -/
def map (f : α → β) (m : OrderedMap κ α) : OrderedMap κ β := ⟨m.entries.map fun (k, v) => (k, f v)⟩

/-- The map that results from inserting entries one after the other. -/
def ofList (entries : List (κ × α)) : OrderedMap κ α :=
  entries.foldl (fun m (k, v) => m.insert k v) {}

end OrderedMap

/-- The entries of a table. -/
abbrev Table := OrderedMap Key Value

/-- The elements of a set, in the order in which they were first inserted. -/
abbrev KeySet := Array Key

/-- Adds an element; a new one comes last. -/
def KeySet.insert (s : KeySet) (key : Key) : KeySet := if s.contains key then s else s.push key

/-- Removes an element; those behind it move up. -/
def KeySet.erase (s : KeySet) (key : Key) : KeySet := Array.filter (· ≠ key) s

end Rill
