-- SUMMARY: Compilation of expressions, statements, function bodies and whole scripts.
import Rill.Compile.Builder

/-!
# Programs

Code for an expression leaves one value on the stack; code for a statement leaves the stack as it was.
A function body becomes a routine of its own, kept among the children of the routine around it, and an
instruction creates the function when the definition is reached. `compile` takes a whole script.
-/

namespace Rill.Compile

-- ---------------------------------------------------------------------------
-- Pieces without subterms
-- ---------------------------------------------------------------------------

/-- What the container of a part is read for: a plain read of the part needs its value only, any other
use needs it ready to be changed. -/
def containerUse : Use → Use
  | .value => .value
  | _ => .unique

/-- A small integer is part of the instruction. -/
def pushInteger (n : Int64) : Compiler Unit := do
  if -32768 ≤ n ∧ n ≤ 32767 then emit' (.pushSmall n.toInt16)
  else emit' (.pushInt (← integerConstant n))

def unaryInstruction : UnaryOp → Instruction
  | .neg => .negate
  | .not => .not

/-- The left operand of a logical operator is kept when it decides. -/
def logicalTest : LogicalOp → JumpTest
  | .conj => .ifFalseKeep
  | .disj => .ifTrueKeep

def compoundInstruction : CompoundOp → Instruction
  | .arith op => .binary op
  | .concat => .concat 2

/-- Declares locals without values. -/
def declareNull : List String → Compiler Unit
  | [] => return
  | name :: rest => do
    emit' .pushNull
    let _ ← defineLocal name
    declareNull rest

/-- Takes the slots of new locals, in order. -/
def addLocals (names : List String) : Compiler (List Nat) := names.mapM addLocal

/-- Stores the values on the stack, the last one on top, into slots. -/
def defineSlots (slots : List Nat) : Compiler Unit :=
  slots.reverse.forM fun slot => emit' (.define slot)

/-- Takes a slot for each parameter. -/
def addParameters : Nat → List Param → Compiler Unit
  | _, [] => return
  | position, param :: rest => do
    setLine param.line
    let _ ← addLocal param.name
    if param.byRef then modifyBuilder fun b => { b with refFlags := b.refFlags.mark position }
    addParameters (position + 1) rest

/-- Runs `body` on a new routine inside the current one and takes the finished routine out again. -/
def routine (name : String) (line : Nat) (body : Compiler Unit) : Compiler Routine := do
  let outer ← get
  set { outer with
    line := line, builder := { name := name }, enclosing := outer.builder :: outer.enclosing }
  inScope body
  let inner ← get
  match inner.enclosing with
  | [] => return inner.builder.finish inner.file
  | parent :: rest =>
    set { inner with line := outer.line, builder := parent, enclosing := rest }
    return inner.builder.finish inner.file

/-- Enters a finished routine among the children of the current one. -/
def addChild (child : Routine) : Compiler Nat := do
  let index := (← get).builder.children.size
  modifyBuilder fun b => { b with children := b.children.push child }
  return index

/-- The slot that a local function declaration uses: the one that name has in this scope already, or a
new one, so that the function can call itself. -/
def functionSlot (name : String) : Compiler Nat := do
  match (← get).localInScope name with
  | some slot => return slot
  | none =>
    emit' .pushNull
    defineLocal name

-- ---------------------------------------------------------------------------
-- Expressions and statements
-- ---------------------------------------------------------------------------

mutual

/-- Code for an expression that is read for `use`. Only places tell uses apart. -/
def expression (use : Use) : Expr → Compiler Unit
  | .null site => atLine site.line do emit' .pushNull
  | .nan site => atLine site.line do emit' .pushNan
  | .bool site b => atLine site.line do emit' (.pushBool b)
  | .int site n => atLine site.line (pushInteger n)
  | .float site x => atLine site.line do emit' (.pushFloat (← floatConstant x))
  | .str site s => atLine site.line do emit' (.pushStr (← stringConstant s))
  | .ident site name => atLine site.line do emit' (.read (← resolve name) use)
  | .unary site op operand => atLine site.line do
    expression .value operand
    emit' (unaryInstruction op)
  | .binary site op left right => atLine site.line do
    expression .value left
    expression .value right
    emit' (.binary op)
  | .logical site op left right => atLine site.line do
    expression .value left
    let decided ← emit (.jump (logicalTest op) 0)
    expression .value right
    patchHere decided
  | .concat site parts => atLine site.line do
    expressions parts
    emit' (.concat parts.length)
  | .conditional site cond whenTrue whenFalse => atLine site.line do
    expression .value cond
    let otherwise ← emit (.jump .ifFalse 0)
    expression .value whenTrue
    let exit ← emit (.jump .always 0)
    patchHere otherwise
    expression .value whenFalse
    patchHere exit
  | .field site object name => atLine site.line do
    expression (containerUse use) object
    emit' (.member (← stringConstant name) use)
  | .index site object indices => atLine site.line do
    expression (containerUse use) object
    expressions indices
    emit' (.element indices.length use)
  | .call site callee args => atLine site.line do
    expression .value callee
    emit' .precall
    arguments 0 args
    emit' (.call args.length false)
  | .ref site target => atLine site.line (reference target)
  | .list site items => atLine site.line do
    expressions items
    emit' (.list items.length)
  | .array site rows cols items => atLine site.line do
    expressions items
    emit' (.array rows cols)
  | .table site entries => atLine site.line do
    pairs entries
    emit' (.table entries.length)
  | .set site items => atLine site.line do
    expressions items
    emit' (.set items.length)
  | .function site fn => atLine site.line (closure "<anonymous>" fn)

/-- Code for the target of `ref`: an alias of a place, or a call whose result stays an alias. -/
def reference : Expr → Compiler Unit
  | .ident _ name => do emit' (.read (← resolve name) .reference)
  | .field _ object name => do
    expression .unique object
    emit' (.member (← stringConstant name) .reference)
  | .index _ object indices => do
    expression .unique object
    expressions indices
    emit' (.element indices.length .reference)
  | .call _ callee args => do
    expression .value callee
    emit' .precall
    arguments 0 args
    emit' (.call args.length true)
  | _ => fail .notReferenceable

def expressions : List Expr → Compiler Unit
  | [] => return
  | e :: rest => do
    expression .value e
    expressions rest

/-- The arguments of a call, from a position on. -/
def arguments (position : Nat) : List Expr → Compiler Unit
  | [] => return
  | e :: rest => do
    expression (.argument position) e
    arguments (position + 1) rest

def pairs : List (Expr × Expr) → Compiler Unit
  | [] => return
  | (key, value) :: rest => do
    expression .value key
    expression .value value
    pairs rest

/-- Code that creates a function. The classes of its parameters are evaluated around it. -/
def closure (name : String) : Lambda → Compiler Unit
  | ⟨line, params, ⟨bodyLine, stmts⟩⟩ => do
    if params.length > maxParams then fail .tooManyParameters
    let child ← routine name line do
      emit' (.reserve 0)
      addParameters 0 params
      modifyBuilder ({ · with paramCount := params.length })
      setLine bodyLine
      statements stmts
      emit' .pushNull
      emit' .result
    let index ← addChild child
    parameterClasses params
    emit' (.closure index params.length)

def parameterClasses : List Param → Compiler Unit
  | [] => return
  | ⟨_, _, _, type⟩ :: rest => do
    match type with
    | some e => expression .value e
    | none => emit' .pushNull
    parameterClasses rest

/-- Code that stores the value on top of the stack into a place. -/
def store : Expr → Compiler Unit
  | .ident _ name => do emit' (.write (← resolve name))
  | .index _ object indices => do
    expression .unique object
    expressions indices
    emit' (.setElement indices.length)
  | .field _ object name => do
    expression .unique object
    emit' (.setMember (← stringConstant name))
  | _ => fail .notAssignable

def statements : List Stmt → Compiler Unit
  | [] => return
  | s :: rest => do
    statement s
    statements rest

/-- A block in a scope of its own. -/
def block : Block → Compiler Unit
  | ⟨_, stmts⟩ => inScope (statements stmts)

def statement : Stmt → Compiler Unit
  | .expr site value => do
    setLine site.line
    expression .value value
    emit' .pop
  | .assign site none target value => do
    setLine site.line
    expression .value value
    store target
  | .assign site (some op) target value => do
    setLine site.line
    expression .value target
    expression .value value
    emit' (compoundInstruction op)
    store target
  | .declare site names values => do
    setLine site.line
    if values.isEmpty then declareNull names
    else if values.length ≠ names.length then fail (.unevenDeclaration names.length values.length)
    else
      expressions values
      defineSlots (← addLocals names)
  | .function site isLocal name fn => do
    setLine site.line
    if isLocal || (← get).scopes.length > 1 then
      let slot ← functionSlot name
      closure name fn
      emit' (.declare (.frame slot))
    else
      closure name fn
      emit' (.declare (.global (← stringConstant name)))
  | .print site newline args => do
    setLine site.line
    expressions args
    emit' (.print args.length newline)
  | .branch site arms otherwise => do
    setLine site.line
    let exits ← branches arms
    match otherwise with
    | some b => block b
    | none => pure ()
    exits.forM patchHere
  | .whileLoop site cond body => do
    setLine site.line
    let top ← here
    expression .value cond
    let exit ← emit (.jump .ifFalse 0)
    enterLoop
    block body
    emit' (.jump .always top)
    patchHere exit
    exitLoop top
  | .repeatLoop site ⟨_, stmts⟩ cond => do
    setLine site.line
    let top ← here
    enterLoop
    openScope
    statements stmts
    let next ← here
    expression .value cond
    closeScope
    emit' (.jump .ifFalse top)
    exitLoop next
  | .forLoop site counter descending first last step body => do
    setLine site.line
    inScope do
      expression .value first
      let slot ← defineLocal counter
      expression .value last
      let limit ← defineLocal "$end"
      let stepSlot ← match step with
        | some e => do
          expression .value e
          some <$> defineLocal "$step"
        | none => pure none
      let top ← here
      emit' (.read (.frame slot) .value)
      emit' (.read (.frame limit) .value)
      emit' (.binary (if descending then .lt else .gt))
      let exit ← emit (.jump .ifTrue 0)
      enterLoop
      block body
      setLine site.line
      let next ← here
      match stepSlot with
      | some stepSlot =>
        emit' (.read (.frame slot) .value)
        emit' (.read (.frame stepSlot) .value)
        emit' (.binary (if descending then .sub else .add))
        emit' (.write (.frame slot))
      | none => emit' (.count slot (!descending))
      emit' (.jump .always top)
      patchHere exit
      exitLoop next
  | .foreachLoop site key value byRef collection ⟨_, stmts⟩ => do
    setLine site.line
    inScope do
      expression (if byRef && collection.isPlace then .unique else .value) collection
      emit' (.iterate byRef)
      let iterator ← defineLocal "$iter"
      let top ← here
      emit' (.read (.frame iterator) .value)
      emit' .hasNext
      let exit ← emit (.jump .ifFalse 0)
      enterLoop
      inScope do
        match key with
        | some key =>
          emit' (.read (.frame iterator) .value)
          emit' .nextKey
          let _ ← defineLocal key
        | none => pure ()
        emit' (.read (.frame iterator) .value)
        emit' .nextValue
        let _ ← defineLocal value
        statements stmts
      setLine site.line
      emit' (.jump .always top)
      patchHere exit
      exitLoop top
  | .result site value => do
    setLine site.line
    match value with
    | some e => expression .value e
    | none => emit' .pushNull
    emit' .result
  | .leave site => do
    setLine site.line
    loopJump "break" fun jump jumps => { jumps with leaves := jump :: jumps.leaves }
  | .next site => do
    setLine site.line
    loopJump "continue" fun jump jumps => { jumps with nexts := jump :: jumps.nexts }
  | .pass site => setLine site.line
  | .assert site cond message => do
    setLine site.line
    expression .value cond
    match message with
    | some e => do
      expression .value e
      emit' (.assert 2)
    | none => emit' (.assert 1)
  | .throw site value => do
    setLine site.line
    expression .value value
    emit' .throw
  | .debug site body => do
    setLine site.line
    if (← get).debug then block body
  | .block site body => do
    setLine site.line
    block body

/-- The arms of a branch; the jumps that leave them are returned. -/
def branches : List (Expr × Block) → Compiler (List Nat)
  | [] => return []
  | (cond, body) :: rest => do
    setLine cond.site.line
    expression .value cond
    let otherwise ← emit (.jump .ifFalse 0)
    block body
    let exit ← emit (.jump .always 0)
    patchHere otherwise
    return exit :: (← branches rest)

end

-- ---------------------------------------------------------------------------
-- Scripts
-- ---------------------------------------------------------------------------

/-- Code for the statements of a script, between the reservation of its slots and its return. -/
def script (body : Block) : Compiler Unit := do
  openScope
  emit' (.reserve 0)
  statements body.stmts
  emit' .pushNull
  emit' .result

end Rill.Compile

namespace Rill

/-- The routine of a script. `debug` decides whether `debug` blocks are compiled, unless the script sets
it itself. -/
def compile (script : Script) (file : String) (debug : Bool) : Except Failure Routine :=
  let start : Compile.Draft :=
    { file := file
      debug := script.debug.getD debug
      line := script.body.line
      builder := { name := "<main>" } }
  match Compile.script script.body start with
  | .ok (_, draft) => .ok (draft.builder.finish file)
  | .error e => .error e

end Rill
