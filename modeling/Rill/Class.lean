-- SUMMARY: Classes: their tree, distances in it, and inherited members, accessors and initializers.
import Rill.Native

/-!
# Classes

Every value has a class. Classes form a tree with one root; a class keeps the path from the root to
itself, so that the distance to an ancestor is read off in one step. Members, accessors and initializers
are inherited from the nearest class that has one.
-/

namespace Rill

structure ClassInfo where
  name : String
  /-- From the root to the class itself. -/
  lineage : Array ClassId
  /-- Instances are watched by the collector. -/
  collectable : Bool
  /-- The object that stands for the class. -/
  object : ObjectId
  members : OrderedMap String Value := {}
  initializer : Option ObjectId := none
  accessors : OrderedMap String Accessor := {}
  deriving Repr

/-- Number of steps to the root. -/
def ClassInfo.depth (c : ClassInfo) : Nat := c.lineage.size - 1

/-- The class tree; identities are positions. -/
abbrev ClassTree := Array ClassInfo

namespace ClassTree

def get? (t : ClassTree) (c : ClassId) : Option ClassInfo := t[c.index]?

def name (t : ClassTree) (c : ClassId) : String := (t.get? c).elim "" (·.name)

def depth (t : ClassTree) (c : ClassId) : Nat := (t.get? c).elim 0 (·.depth)

def lineage (t : ClassTree) (c : ClassId) : Array ClassId := (t.get? c).elim #[] (·.lineage)

def isCollectable (t : ClassTree) (c : ClassId) : Bool := (t.get? c).any (·.collectable)

/-- The class one step nearer to the root. -/
def parent? (t : ClassTree) (c : ClassId) : Option ClassId := (t.lineage c).pop.back?

/-- Number of steps from a class up to `base`, if that is an ancestor or the class itself. -/
def distance? (t : ClassTree) (c base : ClassId) : Option Nat :=
  if (t.lineage c)[t.depth base]? = some base then some (t.depth c - t.depth base) else none

/-- A new class below `parent`, represented by `object`. Its identity is the next position. -/
def create (t : ClassTree) (name : String) (parent : Option ClassId) (collectable : Bool)
    (object : ObjectId) : ClassTree :=
  let above := parent.elim #[] t.lineage
  t.push { name := name, lineage := above.push ⟨t.size⟩, collectable := collectable, object := object }

/-- What the nearest class on the path from a class to the root has. -/
def inherited? (t : ClassTree) (c : ClassId) (own : ClassInfo → Option α) : Option α :=
  (t.lineage c).toList.reverse.findSome? fun ancestor => (t.get? ancestor).bind own

def member? (t : ClassTree) (c : ClassId) (name : String) : Option Value :=
  t.inherited? c (·.members.find? name)

def accessor? (t : ClassTree) (c : ClassId) (name : String) : Option Accessor :=
  t.inherited? c (·.accessors.find? name)

def initializer? (t : ClassTree) (c : ClassId) : Option ObjectId := t.inherited? c (·.initializer)

def setMember (t : ClassTree) (c : ClassId) (name : String) (value : Value) : ClassTree :=
  t.modify c.index fun info => { info with members := info.members.insert name value }

def setAccessor (t : ClassTree) (c : ClassId) (name : String) (accessor : Accessor) : ClassTree :=
  t.modify c.index fun info => { info with accessors := info.accessors.insert name accessor }

def setInitializer (t : ClassTree) (c : ClassId) (function : ObjectId) : ClassTree :=
  t.modify c.index fun info => { info with initializer := some function }

end ClassTree

-- ---------------------------------------------------------------------------
-- The classes of the language
-- ---------------------------------------------------------------------------

namespace ClassId

abbrev root : ClassId := ⟨0⟩
abbrev null : ClassId := ⟨1⟩
abbrev boolean : ClassId := ⟨2⟩
abbrev number : ClassId := ⟨3⟩
abbrev integer : ClassId := ⟨4⟩
abbrev float : ClassId := ⟨5⟩
abbrev string : ClassId := ⟨6⟩
abbrev list : ClassId := ⟨7⟩
abbrev table : ClassId := ⟨8⟩
abbrev set : ClassId := ⟨9⟩
abbrev array : ClassId := ⟨10⟩
abbrev regex : ClassId := ⟨11⟩
abbrev file : ClassId := ⟨12⟩
abbrev function : ClassId := ⟨13⟩
abbrev cls : ClassId := ⟨14⟩
abbrev space : ClassId := ⟨15⟩
abbrev iterator : ClassId := ⟨16⟩

end ClassId

/-- The classes of the language in the order of their identities: name, class above, and whether the
collector watches instances. -/
def languageClasses : List (String × Option ClassId × Bool) :=
  [("Object", none, false), ("Null", some .root, false), ("Boolean", some .root, false),
   ("Number", some .root, false), ("Integer", some .number, false), ("Float", some .number, false),
   ("String", some .root, false), ("List", some .root, true), ("Table", some .root, true),
   ("Set", some .root, true), ("Array", some .root, false), ("Regex", some .root, false),
   ("File", some .root, false), ("Function", some .root, true), ("Class", some .root, false),
   ("Module", some .root, true), ("Iterator", some .root, false)]

end Rill
