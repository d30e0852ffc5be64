-- SUMMARY: Where the code of a syntax node stands in a routine, said without the compiler.
import Rill.Compile.Program
import Rill.Proofs.Layout.Names
import Rill.Proofs.Syntax.Proper

/-!
# Placement

`Expr` and `Stmt` nodes are *placed* in a routine when the instructions from one index up to another are
code for them: jumps lead to where the node says, constants and slots are those it names, and the
functions in it are placed in the children of the routine. Nothing here emits or patches; the code is
looked at when it is complete. `Loop` gives the targets of `break` and `continue`. A placement can ask
for a property of the indices at which statements start; `anywhere` asks for nothing.
-/

namespace Rill

/-- The instruction at an index. -/
def Routine.Has (r : Routine) (i : Nat) (op : Instruction) : Prop := r.code.ops[i]? = some op

/-- Every child is made a function somewhere in the code. -/
def Routine.UsesChildren (r : Routine) : Prop :=
  ∀ k < r.children.size, ∃ i params, r.Has i (.closure k params)

end Rill

namespace Rill.Layout

open Compile (containerUse unaryInstruction logicalTest compoundInstruction)

/-- The targets of `break` and of `continue`. -/
abbrev Loop := Option (Nat × Nat)

-- ---------------------------------------------------------------------------
-- Pieces without subterms
-- ---------------------------------------------------------------------------

/-- Statements may start at every index. -/
def anywhere : Routine → Nat → Prop := fun _ _ => True

/-- A text among the constants. -/
def IsText (r : Routine) (k : Nat) (s : String) : Prop := r.strings[k]? = some s

/-- An integer is pushed: a small one is part of the instruction. -/
def PlacesInt (r : Routine) (n : Int64) (i : Nat) : Prop :=
  if -32768 ≤ n ∧ n ≤ 32767 then r.Has i (.pushSmall n.toInt16)
  else ∃ k, r.Has i (.pushInt k) ∧ r.integers[k]? = some n

/-- The values on the stack are stored into slots, the top one first. -/
def PlacesDefines (r : Routine) : List Nat → Nat → Nat → Prop
  | [], i, j => j = i
  | slot :: rest, i, j => r.Has i (.define slot) ∧ PlacesDefines r rest (i + 1) j

/-- Slots are set to null, in order. -/
def PlacesNulls (r : Routine) : List Nat → Nat → Nat → Prop
  | [], i, j => j = i
  | slot :: rest, i, j =>
    r.Has i .pushNull ∧ r.Has (i + 1) (.define slot) ∧ PlacesNulls r rest (i + 2) j

/-- The reference flags that parameters ask for. -/
def paramFlags : Nat → List Param → RefFlags → RefFlags
  | _, [], flags => flags
  | position, param :: rest, flags =>
    paramFlags (position + 1) rest (if param.byRef then flags.mark position else flags)

/-- The instruction that moves a counter on, with the step in a slot or a step of one. -/
def PlacesStep (r : Routine) (slot : Nat) (stepSlot : Option Nat) (descending : Bool) (i j : Nat) :
    Prop :=
  match stepSlot with
  | some step =>
    r.Has i (.read (.frame slot) .value) ∧ r.Has (i + 1) (.read (.frame step) .value) ∧
      r.Has (i + 2) (.binary (if descending then .sub else .add)) ∧
      r.Has (i + 3) (.write (.frame slot)) ∧ j = i + 4
  | none => r.Has i (.count slot (!descending)) ∧ j = i + 1

/-- The key of a loop, taken from the iterator in one slot and put into another one, if it is wanted. -/
def PlacesKey (r : Routine) (iterator slot : Nat) : Option String → Nat → Nat → Prop
  | some _, i, j =>
    r.Has i (.read (.frame iterator) .value) ∧ r.Has (i + 1) .nextKey ∧ r.Has (i + 2) (.define slot) ∧
      j = i + 3
  | none, i, j => j = i

-- ---------------------------------------------------------------------------
-- Expressions and statements
-- ---------------------------------------------------------------------------

-- `mark` holds where statements start, in every routine.
variable (mark : Routine → Nat → Prop) (debug : Bool)

mutual

/-- The instructions from `i` up to `j` are code for an expression that is read for `use`. -/
def Places (r : Routine) (out : Outer) (Γ : Env) (use : Use) : Expr → Nat → Nat → Prop
  | .null _, i, j => r.Has i .pushNull ∧ j = i + 1
  | .nan _, i, j => r.Has i .pushNan ∧ j = i + 1
  | .bool _ b, i, j => r.Has i (.pushBool b) ∧ j = i + 1
  | .int _ n, i, j => PlacesInt r n i ∧ j = i + 1
  | .float _ x, i, j => (∃ k, r.Has i (.pushFloat k) ∧ r.floats[k]? = some x) ∧ j = i + 1
  | .str _ s, i, j => (∃ k, r.Has i (.pushStr k) ∧ IsText r k s) ∧ j = i + 1
  | .ident _ name, i, j => (∃ slot, r.Has i (.read slot use) ∧ Denotes r out Γ name slot) ∧ j = i + 1
  | .unary _ op operand, i, j =>
    ∃ k, Places r out Γ .value operand i k ∧ r.Has k (unaryInstruction op) ∧ j = k + 1
  | .binary _ op left right, i, j =>
    ∃ k l, Places r out Γ .value left i k ∧ Places r out Γ .value right k l ∧
      r.Has l (.binary op) ∧ j = l + 1
  | .logical _ op left right, i, j =>
    ∃ k, Places r out Γ .value left i k ∧ r.Has k (.jump (logicalTest op) j) ∧
      Places r out Γ .value right (k + 1) j
  | .concat _ parts, i, j =>
    ∃ k, PlacesAll r out Γ parts i k ∧ r.Has k (.concat parts.length) ∧ j = k + 1
  | .conditional _ cond whenTrue whenFalse, i, j =>
    ∃ k l, Places r out Γ .value cond i k ∧ r.Has k (.jump .ifFalse (l + 1)) ∧
      Places r out Γ .value whenTrue (k + 1) l ∧ r.Has l (.jump .always j) ∧
      Places r out Γ .value whenFalse (l + 1) j
  | .field _ object name, i, j =>
    ∃ k n, Places r out Γ (containerUse use) object i k ∧ r.Has k (.member n use) ∧
      IsText r n name ∧ j = k + 1
  | .index _ object indices, i, j =>
    ∃ k l, Places r out Γ (containerUse use) object i k ∧ PlacesAll r out Γ indices k l ∧
      r.Has l (.element indices.length use) ∧ j = l + 1
  | .call _ callee args, i, j =>
    ∃ k l, Places r out Γ .value callee i k ∧ r.Has k .precall ∧
      PlacesArguments r out Γ 0 args (k + 1) l ∧ r.Has l (.call args.length false) ∧ j = l + 1
  | .ref _ target, i, j => PlacesReference r out Γ target i j
  | .list _ items, i, j =>
    ∃ k, PlacesAll r out Γ items i k ∧ r.Has k (.list items.length) ∧ j = k + 1
  | .array _ rows cols items, i, j =>
    ∃ k, PlacesAll r out Γ items i k ∧ r.Has k (.array rows cols) ∧ j = k + 1
  | .table _ entries, i, j =>
    ∃ k, PlacesPairs r out Γ entries i k ∧ r.Has k (.table entries.length) ∧ j = k + 1
  | .set _ items, i, j =>
    ∃ k, PlacesAll r out Γ items i k ∧ r.Has k (.set items.length) ∧ j = k + 1
  | .function _ fn, i, j => PlacesClosure r out Γ "<anonymous>" fn i j

/-- Code for the target of `ref`. -/
def PlacesReference (r : Routine) (out : Outer) (Γ : Env) : Expr → Nat → Nat → Prop
  | .ident _ name, i, j =>
    (∃ slot, r.Has i (.read slot .reference) ∧ Denotes r out Γ name slot) ∧ j = i + 1
  | .field _ object name, i, j =>
    ∃ k n, Places r out Γ .unique object i k ∧ r.Has k (.member n .reference) ∧ IsText r n name ∧
      j = k + 1
  | .index _ object indices, i, j =>
    ∃ k l, Places r out Γ .unique object i k ∧ PlacesAll r out Γ indices k l ∧
      r.Has l (.element indices.length .reference) ∧ j = l + 1
  | .call _ callee args, i, j =>
    ∃ k l, Places r out Γ .value callee i k ∧ r.Has k .precall ∧
      PlacesArguments r out Γ 0 args (k + 1) l ∧ r.Has l (.call args.length true) ∧ j = l + 1
  | _, _, _ => False

def PlacesAll (r : Routine) (out : Outer) (Γ : Env) : List Expr → Nat → Nat → Prop
  | [], i, j => j = i
  | e :: rest, i, j => ∃ k, Places r out Γ .value e i k ∧ PlacesAll r out Γ rest k j

/-- The arguments of a call, from a position on. -/
def PlacesArguments (r : Routine) (out : Outer) (Γ : Env) (position : Nat) :
    List Expr → Nat → Nat → Prop
  | [], i, j => j = i
  | e :: rest, i, j =>
    ∃ k, Places r out Γ (.argument position) e i k ∧
      PlacesArguments r out Γ (position + 1) rest k j

def PlacesPairs (r : Routine) (out : Outer) (Γ : Env) :
    List (Expr × Expr) → Nat → Nat → Prop
  | [], i, j => j = i
  | (key, value) :: rest, i, j =>
    ∃ k l, Places r out Γ .value key i k ∧ Places r out Γ .value value k l ∧
      PlacesPairs r out Γ rest l j

/-- Code that creates a function. Its routine is a child of the routine, with code for its body, and
finds every variable that it captures in the routine. -/
def PlacesClosure (r : Routine) (out : Outer) (Γ : Env) (name : String) :
    Lambda → Nat → Nat → Prop
  | ⟨_, params, ⟨_, stmts⟩⟩, i, j =>
    ∃ index child k body, r.children[index]? = some child ∧ child.name = name ∧
      child.paramCount = params.length ∧ child.refFlags = paramFlags 0 params 0 ∧
      params.length ≤ maxParams ∧
      (∀ c ∈ child.captures, if c.fromFrame then ∃ name, IsName name ∧ Γ.find? name = some c.index
        else c.index < r.captures.size) ∧
      PlacesAllStmts child ((r, Γ) :: out)
        (({ depth := Γ.depth + 1 } : Env).declareAll (params.map (·.name))) none stmts 1 body ∧
      (envAfterAll debug (({ depth := Γ.depth + 1 } : Env).declareAll (params.map (·.name)))
        stmts).taken = child.frameSize ∧
      child.Has 0 (.reserve child.frameSize) ∧ child.Has body .pushNull ∧ child.Has (body + 1) .result ∧
      child.code.size = body + 2 ∧ child.UsesChildren ∧
      PlacesClasses r out Γ params i k ∧ r.Has k (.closure index params.length) ∧ j = k + 1

/-- The classes of parameters; null where there is none. -/
def PlacesClasses (r : Routine) (out : Outer) (Γ : Env) :
    List Param → Nat → Nat → Prop
  | [], i, j => j = i
  | ⟨_, _, _, some e⟩ :: rest, i, j =>
    ∃ k, Places r out Γ .value e i k ∧ PlacesClasses r out Γ rest k j
  | ⟨_, _, _, none⟩ :: rest, i, j => r.Has i .pushNull ∧ PlacesClasses r out Γ rest (i + 1) j

/-- Code that stores the value on top of the stack into a place. -/
def PlacesStore (r : Routine) (out : Outer) (Γ : Env) : Expr → Nat → Nat → Prop
  | .ident _ name, i, j => (∃ slot, r.Has i (.write slot) ∧ Denotes r out Γ name slot) ∧ j = i + 1
  | .index _ object indices, i, j =>
    ∃ k l, Places r out Γ .unique object i k ∧ PlacesAll r out Γ indices k l ∧
      r.Has l (.setElement indices.length) ∧ j = l + 1
  | .field _ object name, i, j =>
    ∃ k n, Places r out Γ .unique object i k ∧ r.Has k (.setMember n) ∧ IsText r n name ∧ j = k + 1
  | _, _, _ => False

/-- The instructions from `i` up to `j` are code for a statement. -/
def PlacesStmt (r : Routine) (out : Outer) (Γ : Env) (loop : Loop) :
    Stmt → Nat → Nat → Prop
  | .expr _ value, i, j => ∃ k, Places r out Γ .value value i k ∧ r.Has k .pop ∧ j = k + 1
  | .assign _ none target value, i, j =>
    ∃ k, Places r out Γ .value value i k ∧ PlacesStore r out Γ target k j
  | .assign _ (some op) target value, i, j =>
    ∃ k l, Places r out Γ .value target i k ∧ Places r out Γ .value value k l ∧
      r.Has l (compoundInstruction op) ∧ PlacesStore r out Γ target (l + 1) j
  | .declare _ names values, i, j =>
    if values.isEmpty then PlacesNulls r (List.range' Γ.taken names.length) i j
    else values.length = names.length ∧ ∃ k, PlacesAll r out Γ values i k ∧
      PlacesDefines r (List.range' Γ.taken names.length).reverse k j
  | .function _ isLocal name fn, i, j =>
    if isLocal || Γ.depth > 1 then
      match Γ.inScope? name with
      | some slot =>
        ∃ k, PlacesClosure r out Γ name fn i k ∧ r.Has k (.declare (.frame slot)) ∧ j = k + 1
      | none =>
        r.Has i .pushNull ∧ r.Has (i + 1) (.define Γ.taken) ∧
          ∃ k, PlacesClosure r out (Γ.declare name) name fn (i + 2) k ∧
            r.Has k (.declare (.frame Γ.taken)) ∧ j = k + 1
    else
      ∃ k n, PlacesClosure r out Γ name fn i k ∧ r.Has k (.declare (.global n)) ∧ IsText r n name ∧
        j = k + 1
  | .print _ newline args, i, j =>
    ∃ k, PlacesAll r out Γ args i k ∧ r.Has k (.print args.length newline) ∧ j = k + 1
  | .branch _ arms otherwise, i, j =>
    ∃ k, PlacesArms r out Γ loop j arms i k ∧
      PlacesOption r out (envAfterArms debug Γ arms) loop otherwise k j
  | .whileLoop _ cond body, i, j =>
    ∃ k l, Places r out Γ .value cond i k ∧ r.Has k (.jump .ifFalse j) ∧
      PlacesBlock r out Γ (some (j, i)) body (k + 1) l ∧ r.Has l (.jump .always i) ∧ j = l + 1
  | .repeatLoop _ ⟨_, stmts⟩ cond, i, j =>
    ∃ k l, PlacesAllStmts r out Γ.enter (some (j, k)) stmts i k ∧
      Places r out (envAfterAll debug Γ.enter stmts) .value cond k l ∧
      r.Has l (.jump .ifFalse i) ∧ j = l + 1
  | .forLoop _ counter descending first last step body, i, j =>
    ∃ k l m n o, Places r out Γ.enter .value first i k ∧ r.Has k (.define Γ.taken) ∧
      Places r out (Γ.enter.declare counter) .value last (k + 1) l ∧
      r.Has l (.define (Γ.taken + 1)) ∧
      PlacesOptionExpr r out ((Γ.enter.declare counter).declare "$end") (Γ.taken + 2) step (l + 1) m ∧
      r.Has m (.read (.frame Γ.taken) .value) ∧ r.Has (m + 1) (.read (.frame (Γ.taken + 1)) .value) ∧
      r.Has (m + 2) (.binary (if descending then .lt else .gt)) ∧ r.Has (m + 3) (.jump .ifTrue j) ∧
      PlacesBlock r out (Γ.enter.declareAll (counterNames counter step)) (some (j, n)) body (m + 4) n ∧
      PlacesStep r Γ.taken (step.map fun _ => Γ.taken + 2) descending n o ∧ r.Has o (.jump .always m) ∧
      j = o + 1
  | .foreachLoop _ key value byRef collection ⟨_, stmts⟩, i, j =>
    ∃ k l m, Places r out Γ.enter (if byRef && collection.isPlace then .unique else .value)
        collection i k ∧
      r.Has k (.iterate byRef) ∧ r.Has (k + 1) (.define Γ.taken) ∧
      r.Has (k + 2) (.read (.frame Γ.taken) .value) ∧ r.Has (k + 3) .hasNext ∧
      r.Has (k + 4) (.jump .ifFalse j) ∧
      PlacesKey r Γ.taken (Γ.taken + 1) key (k + 5) l ∧
      r.Has l (.read (.frame Γ.taken) .value) ∧ r.Has (l + 1) .nextValue ∧
      r.Has (l + 2) (.define (Γ.taken + 1 + key.toList.length)) ∧
      PlacesAllStmts r out
        ((Γ.enter.declare "$iter").enter.declareAll (key.toList ++ [value])) (some (j, k + 2))
        stmts (l + 3) m ∧
      r.Has m (.jump .always (k + 2)) ∧ j = m + 1
  | .result _ (some e), i, j => ∃ k, Places r out Γ .value e i k ∧ r.Has k .result ∧ j = k + 1
  | .result _ none, i, j => r.Has i .pushNull ∧ r.Has (i + 1) .result ∧ j = i + 2
  | .leave _, i, j => (∃ targets, loop = some targets ∧ r.Has i (.jump .always targets.1)) ∧ j = i + 1
  | .next _, i, j => (∃ targets, loop = some targets ∧ r.Has i (.jump .always targets.2)) ∧ j = i + 1
  | .pass _, i, j => j = i
  | .assert _ cond (some message), i, j =>
    ∃ k l, Places r out Γ .value cond i k ∧ Places r out Γ .value message k l ∧
      r.Has l (.assert 2) ∧ j = l + 1
  | .assert _ cond none, i, j =>
    ∃ k, Places r out Γ .value cond i k ∧ r.Has k (.assert 1) ∧ j = k + 1
  | .throw _ value, i, j => ∃ k, Places r out Γ .value value i k ∧ r.Has k .throw ∧ j = k + 1
  | .debug _ body, i, j => if debug then PlacesBlock r out Γ loop body i j else j = i
  | .block _ body, i, j => PlacesBlock r out Γ loop body i j

def PlacesAllStmts (r : Routine) (out : Outer) (Γ : Env) (loop : Loop) :
    List Stmt → Nat → Nat → Prop
  | [], i, j => j = i
  | s :: rest, i, j =>
    mark r i ∧ ∃ k, PlacesStmt r out Γ loop s i k ∧ PlacesAllStmts r out (envAfter debug Γ s) loop rest k j

/-- Code for a block in a scope of its own. -/
def PlacesBlock (r : Routine) (out : Outer) (Γ : Env) (loop : Loop) :
    Block → Nat → Nat → Prop
  | ⟨_, stmts⟩, i, j => PlacesAllStmts r out Γ.enter loop stmts i j

/-- The arms of a branch; each jumps to `exit` at its end. -/
def PlacesArms (r : Routine) (out : Outer) (Γ : Env) (loop : Loop) (exit : Nat) :
    List (Expr × Block) → Nat → Nat → Prop
  | [], i, j => j = i
  | (cond, body) :: rest, i, j =>
    ∃ k l, Places r out Γ .value cond i k ∧ r.Has k (.jump .ifFalse (l + 1)) ∧
      PlacesBlock r out Γ loop body (k + 1) l ∧ r.Has l (.jump .always exit) ∧
      PlacesArms r out (envAfterBlock debug Γ body) loop exit rest (l + 1) j

def PlacesOption (r : Routine) (out : Outer) (Γ : Env) (loop : Loop) :
    Option Block → Nat → Nat → Prop
  | none, i, j => j = i
  | some body, i, j => PlacesBlock r out Γ loop body i j

/-- The step of a loop, if it is given, stored into a slot. -/
def PlacesOptionExpr (r : Routine) (out : Outer) (Γ : Env) (slot : Nat) :
    Option Expr → Nat → Nat → Prop
  | none, i, j => j = i
  | some e, i, j => ∃ k, Places r out Γ .value e i k ∧ r.Has k (.define slot) ∧ j = k + 1

end

-- ---------------------------------------------------------------------------
-- Scripts
-- ---------------------------------------------------------------------------

/-- The routine is code for the statements of a script. -/
def PlacesScript (r : Routine) (stmts : List Stmt) : Prop :=
  ∃ body, r.captures = #[] ∧ PlacesAllStmts mark debug r [] { depth := 1 } none stmts 1 body ∧
    (envAfterAll debug { depth := 1 } stmts).taken = r.frameSize ∧
    r.Has 0 (.reserve r.frameSize) ∧ r.Has body .pushNull ∧ r.Has (body + 1) .result ∧
    r.code.size = body + 2 ∧ r.UsesChildren

end Rill.Layout
