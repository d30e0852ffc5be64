-- SUMMARY: A routine under construction and the state of a compilation: constants, scopes and names.
import Rill.Routine
import Rill.Fault

/-!
# Builders

A `Builder` collects one routine. A `Draft` is the state of a whole compilation: the routine being built,
the routines around it, and the open scopes. Scope numbers and depths are shared by all routines of a
compilation. A local is visible while its scope is open; a name that is no local of the current routine
is searched in the enclosing ones and captured, and otherwise is a global.
-/

namespace Rill.Compile

-- ---------------------------------------------------------------------------
-- One routine
-- ---------------------------------------------------------------------------

/-- A declared local and whether its scope is still open. -/
structure Local where
  info : LocalInfo
  active : Bool
  deriving Repr, DecidableEq

/-- Jumps out of a loop that wait for their targets. -/
structure LoopJumps where
  leaves : List Nat := []
  nexts : List Nat := []
  deriving Repr, DecidableEq

/-- A routine under construction. -/
structure Builder where
  name : String
  code : Code := {}
  integers : Array Int64 := #[]
  floats : Array Float := #[]
  strings : Array String := #[]
  children : Array Routine := #[]
  locals : Array Local := #[]
  captures : Array Capture := #[]
  loops : List LoopJumps := []
  paramCount : Nat := 0
  refFlags : RefFlags := 0

/-- The greatest index below `bound` whose entry satisfies `p`. -/
def lastIndexBelow (p : α → Bool) (xs : Array α) : Nat → Option Nat
  | 0 => none
  | bound + 1 =>
    if xs[bound]?.any p then some bound else lastIndexBelow p xs bound

/-- The greatest index whose entry satisfies `p`. -/
def lastIndex (p : α → Bool) (xs : Array α) : Option Nat := lastIndexBelow p xs xs.size

/-- The slot of the innermost visible local of that name. -/
def Builder.findLocal (b : Builder) (name : String) : Option Nat :=
  lastIndex (fun l => l.active && l.info.name == name) b.locals

/-- The index of a captured variable, entered if it is new. -/
def Builder.capture (b : Builder) (c : Capture) : Nat × Builder :=
  match b.captures.findIdx? (· == c) with
  | some k => (k, b)
  | none => (b.captures.size, { b with captures := b.captures.push c })

/-- The index of a value in a constant pool, and the pool with the value in it. -/
def poolIndex (same : α → α → Bool) (pool : Array α) (value : α) : Nat × Array α :=
  match pool.findIdx? (same value) with
  | some k => (k, pool)
  | none => (pool.size, pool.push value)

/-- The finished routine: its first instruction reserves the slots of all its locals. -/
def Builder.finish (b : Builder) (file : String) : Routine :=
  { name := b.name
    file := file
    code := b.code.patch 0 (.reserve b.locals.size)
    integers := b.integers
    floats := b.floats
    strings := b.strings
    children := b.children
    locals := b.locals.map (·.info)
    captures := b.captures
    paramCount := b.paramCount
    refFlags := b.refFlags }

/-- Threads a captured variable from the innermost enclosing routine that declares it down to the
current one. Enclosing routines are given innermost first. -/
def captureThrough (name : String) : Builder → List Builder → Option (Nat × Builder × List Builder)
  | _, [] => none
  | b, parent :: rest =>
    match parent.findLocal name with
    | some slot =>
      let (k, b) := b.capture ⟨slot, true⟩
      some (k, b, parent :: rest)
    | none =>
      match captureThrough name parent rest with
      | some (j, parent, rest) =>
        let (k, b) := b.capture ⟨j, false⟩
        some (k, b, parent :: rest)
      | none => none

-- ---------------------------------------------------------------------------
-- A whole compilation
-- ---------------------------------------------------------------------------

/-- The state of a compilation. `line` is given to emitted instructions; `scopes` are the open scopes
and `enclosing` the routines around the current one, both innermost first. -/
structure Draft where
  file : String
  debug : Bool
  line : Nat
  scopes : List Nat := []
  scopeCount : Nat := 0
  builder : Builder
  enclosing : List Builder := []

abbrev Compiler := StateT Draft (Except Failure)

/-- Changes the routine being built. -/
def modifyBuilder (f : Builder → Builder) : Compiler Unit :=
  modify fun d => { d with builder := f d.builder }

/-- Fails at the current line. -/
def fail (fault : Fault) : Compiler α := fun d =>
  .error { fault := fault, line := some d.line, file := some d.file }

/-- Appends an instruction and returns its index. -/
def emit (op : Instruction) : Compiler Nat := fun d =>
  let code := d.builder.code
  .ok (code.size, { d with builder := { d.builder with code := code.emit op d.line } })

/-- Appends an instruction. -/
def emit' (op : Instruction) : Compiler Unit := do
  let _ ← emit op

/-- The index of the next instruction. -/
def here : Compiler Nat := fun d => .ok (d.builder.code.size, d)

/-- Points a jump to the next instruction. -/
def patchHere (jump : Nat) : Compiler Unit :=
  modifyBuilder fun b => { b with code := b.code.patchJump jump b.code.size }

/-- Runs `body` with another current line, which is then set back. -/
def atLine (line : Nat) (body : Compiler Unit) : Compiler Unit := do
  let saved := (← get).line
  modify ({ · with line := line })
  body
  modify ({ · with line := saved })

def setLine (line : Nat) : Compiler Unit := modify ({ · with line := line })

-- ---------------------------------------------------------------------------
-- Constants
-- ---------------------------------------------------------------------------

def integerConstant (n : Int64) : Compiler Nat := do
  let (k, pool) := poolIndex (· == ·) (← get).builder.integers n
  modifyBuilder ({ · with integers := pool })
  return k

/-- Floats are told apart by their bits. -/
def floatConstant (x : Float) : Compiler Nat := do
  let (k, pool) := poolIndex (fun a b => a.toBits == b.toBits) (← get).builder.floats x
  modifyBuilder ({ · with floats := pool })
  return k

def stringConstant (s : String) : Compiler Nat := do
  let (k, pool) := poolIndex (· == ·) (← get).builder.strings s
  modifyBuilder ({ · with strings := pool })
  return k

-- ---------------------------------------------------------------------------
-- Scopes and names
-- ---------------------------------------------------------------------------

def openScope : Compiler Unit :=
  modify fun d => { d with scopes := (d.scopeCount + 1) :: d.scopes, scopeCount := d.scopeCount + 1 }

/-- Closes the innermost scope: its locals in the current routine are no longer visible. -/
def closeScope : Compiler Unit :=
  modify fun d =>
    match d.scopes with
    | [] => d
    | scope :: rest =>
      let hide (l : Local) : Local := if l.info.scope = scope then { l with active := false } else l
      { d with scopes := rest, builder := { d.builder with locals := d.builder.locals.map hide } }

/-- Runs `body` in a scope of its own. -/
def inScope (body : Compiler Unit) : Compiler Unit := do
  openScope
  body
  closeScope

def Draft.currentScope (d : Draft) : Nat := d.scopes.head?.getD 0

/-- The slot of a visible local of that name in the innermost scope. -/
def Draft.localInScope (d : Draft) (name : String) : Option Nat :=
  lastIndex (fun l => l.active && l.info.scope = d.currentScope && l.info.name == name) d.builder.locals

/-- Declares a local in the innermost scope and returns its slot. -/
def addLocal (name : String) : Compiler Nat := do
  let d ← get
  if (d.localInScope name).isSome then fail (.alreadyDefined name)
  let info : LocalInfo := ⟨name, d.currentScope, d.scopes.length⟩
  modifyBuilder fun b => { b with locals := b.locals.push ⟨info, true⟩ }
  return d.builder.locals.size

/-- Declares a local that takes the value on top of the stack. -/
def defineLocal (name : String) : Compiler Nat := do
  let slot ← addLocal name
  emit' (.define slot)
  return slot

/-- Where a name lives. -/
def resolve (name : String) : Compiler Slot := do
  let d ← get
  match d.builder.findLocal name with
  | some slot => return .frame slot
  | none =>
    match captureThrough name d.builder d.enclosing with
    | some (k, builder, enclosing) =>
      set { d with builder := builder, enclosing := enclosing }
      return .captured k
    | none => return .global (← stringConstant name)

-- ---------------------------------------------------------------------------
-- Loops
-- ---------------------------------------------------------------------------

def enterLoop : Compiler Unit := modifyBuilder fun b => { b with loops := {} :: b.loops }

/-- Closes the innermost loop: its `continue` jumps go to `next`, its `break` jumps here. -/
def exitLoop (next : Nat) : Compiler Unit :=
  modifyBuilder fun b =>
    match b.loops with
    | [] => b
    | jumps :: rest =>
      let code := jumps.nexts.foldl (fun code jump => code.patchJump jump next) b.code
      let code := jumps.leaves.foldl (fun code jump => code.patchJump jump code.size) code
      { b with code := code, loops := rest }

/-- A jump out of the innermost loop, entered among its waiting jumps. -/
def loopJump (word : String) (enter : Nat → LoopJumps → LoopJumps) : Compiler Unit := do
  let jump ← emit (.jump .always 0)
  match (← get).builder.loops with
  | [] => fail (.jumpOutsideLoop word)
  | jumps :: rest => modifyBuilder ({ · with loops := enter jump jumps :: rest })

end Rill.Compile
