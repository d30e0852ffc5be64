-- SUMMARY: What functions of the host do.
import Rill.Heap.Text
import Rill.Library.Entry

/-!
# Functions of the host

A host registers functions that show what scripts pass to them, call back into scripts, and make
instances of its classes.
-/

namespace Rill.Host

/-- The arguments as the entries of a table: `a1`, `a2` and so on. -/
def numbered (h : Heap) (args : Array Value) : Table :=
  ⟨args.mapIdx fun k v => (.text ("a" ++ toString (k + 1)), h.resolve v)⟩

def function (f : HostFunction) (args : Library.Arguments) : Run Reply := do
  let h ← Run.heap
  match f with
  | .arguments => return .value (← Run.newList (args.map h.resolve))
  | .constant text => return .value (.text text)
  | .areReferences => return .value (← Run.newList (args.map fun v => .bool v.isCell))
  | .storeFirst text =>
    Library.store (args.nth 0) (.text text)
    return .value .null
  | .trace => return .value (.text (traceText (← get).trace))
  | .depth => return .value (.ofNat (← get).frames.length)
  | .callFirst => return .call (args.nth 0) (args.drop 1) false
  | .tryFirst => return .call (args.nth 0) (args.drop 1) true
  | .fail text => Run.fail (.host text)
  | .instantiate cls => return .value (← Run.newObject cls (.table (numbered h args)))
  | .describeField name => return .value (.text (name ++ " of " ++ h.typeName (args.nth 0)))
  | .printField name =>
    Run.write ("set " ++ name ++ " of " ++ h.text (args.nth 0) ++ " to " ++ h.text (args.nth 1) ++ "\n")
    return .value .null

end Rill.Host
