-- SUMMARY: Elements, fields, globals and loops leave operand stack and activations alone.
import Rill.Machine.Step
import Rill.Proofs.Safety.Natives

/-!
# Elements, fields and globals

What an instruction does once it has taken its operands is tame: it reads and changes elements, fields,
globals and captured variables, and makes cells of them.
-/

namespace Rill.Tame

section Places

variable (v : Value) (id : ObjectId)

@[grind .]
theorem assign (old : Value) : Tame (Run.assign old v) := by
  fun_cases Run.assign old v <;> grind

@[grind .]
theorem cellFor : Tame (Run.cellFor v) := by
  fun_cases Run.cellFor v <;> grind

@[grind .]
theorem entryCell (entries : Table) (key : Key) : Tame (Run.entryCell id entries key) := by
  grind [Run.entryCell]

@[grind .]
theorem memberCell (s : Space) (name : String) : Tame (Run.memberCell id s name) := by
  grind [Run.memberCell]

@[grind .]
theorem assignEntry (entries : Table) (key : Key) : Tame (Run.assignEntry id entries key v) := by
  grind [Run.assignEntry]

@[grind .]
theorem assignMember (s : Space) (name : String) : Tame (Run.assignMember id s name v) := by
  grind [Run.assignMember]

@[grind .]
theorem notReferenceable : Tame (Run.notReferenceable v : Run α) := by grind [Run.notReferenceable]

end Places

-- ---------------------------------------------------------------------------
-- Elements
-- ---------------------------------------------------------------------------

section Elements

variable (container : Value) (indices : Array Value) (v : Value)

@[grind .]
theorem elementCell : Tame (Run.elementCell container indices) := by
  refine heap.bind fun h => ?_
  split
  · split
    · exact (lift (by grind)).bind fun _ => (cellFor _).bind fun _ => (setContent rfl).bind fun _ => pure _
    · grind
    · grind
    · grind
  · grind

@[grind .]
theorem ownElement : Tame (Run.ownElement container indices) := by
  refine heap.bind fun h => ?_
  split
  · exact (lift (by grind)).bind fun _ => (unshareSlot _ _).bind fun _ => (setContent rfl).bind fun _ => pure _
  · refine (lift (by grind)).bind fun key => ?_
    split <;> grind
  · grind

@[grind .]
theorem setElement : Tame (Run.setElement container indices v) := by
  refine heap.bind fun h => ?_
  dsimp only
  split
  · split
    · exact (lift (by grind)).bind fun _ => (assign _ _).bind fun _ => setContent rfl
    · grind
    · exact (lift (by grind)).bind fun _ => setContent rfl
    · exact (lift (by grind)).bind fun _ => (lift (by grind)).bind fun _ => setContent rfl
    · grind
    · grind
  · grind
  · grind

end Elements

-- ---------------------------------------------------------------------------
-- Fields
-- ---------------------------------------------------------------------------

section Fields

variable (object : Value) (name : String)

@[grind .]
theorem field : Tame (Run.field object name) := by grind [Run.field]

@[grind .]
theorem fieldCell : Tame (Run.fieldCell object name) := by grind [Run.fieldCell]

@[grind .]
theorem ownField : Tame (Run.ownField object name) := by
  refine heap.bind fun h => ?_
  split
  · split <;> grind
  · split <;> grind
  · grind

@[grind .]
theorem setField (v : Value) : Tame (Run.setField object name v) := by grind [Run.setField]

end Fields

-- ---------------------------------------------------------------------------
-- Globals
-- ---------------------------------------------------------------------------

@[grind .]
theorem global (name : String) : Tame (Run.global name) := by grind [Run.global]

@[grind .]
theorem globalCell (name : String) : Tame (Run.globalCell name) := by grind [Run.globalCell]

@[grind .]
theorem takesReference (position : Nat) : Tame (Run.takesReference position) := by
  grind [Run.takesReference]

@[grind .]
theorem settle (use : Use) : Tame (Run.settle use) := by
  fun_cases Run.settle use <;> grind

@[grind .]
theorem texts (values : Array Value) : Tame (Run.texts values) := by grind [Run.texts]

@[grind .]
theorem sealSignature (key : RoutineKey) (name : String) (signature : List ClassId) :
    Tame (Run.sealSignature key name signature) := by
  refine get.bind fun m => ?_
  split
  · split
    · exact fail rfl
    · exact pure _
  · exact change fun _ _ => .of_objects rfl rfl rfl rfl rfl

-- ---------------------------------------------------------------------------
-- Loops
-- ---------------------------------------------------------------------------

@[grind .]
theorem takeFrom (v : Value) (byRef : Bool) : Tame (Run.takeFrom v byRef) := by
  cases byRef
  · exact heap.bind fun _ => pure _
  · cases v with
    | cell _ => exact pure _
    | _ => exact (allocateCell _).bind fun _ => pure _

@[grind .]
theorem takeElement (source : ObjectId) (position : Nat) (byRef : Bool) :
    Tame (Run.takeElement source position byRef) := by
  refine heap.bind fun h => ?_
  split
  · split <;> grind
  · split <;> grind
  all_goals exact pure _

@[grind .]
theorem prepare (v : Value) (byRef : Bool) : Tame (Run.prepare v byRef) := by grind [Run.prepare]

end Rill.Tame
