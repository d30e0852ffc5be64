-- SUMMARY: The direct evaluation of scripts without functions, by recursion over the syntax tree.
import Rill.Heap.Operators
import Rill.Heap.Text
import Rill.Proofs.Layout.Names

/-!
# Direct evaluation

The *core* of the language are scripts that make no functions, collections or references. Here they are
evaluated as the syntax tree says: an expression has a value in a store, and a statement turns a store
into another one and tells how it ended. There is no operand stack and there are no jumps. The operators
are those of the heap, and a name denotes the slot of its latest visible declaration, or a global.

Only loops need not end. `fuel` bounds the rounds of each of them; without an answer they were too few. An
answer that evaluation gives with some fuel is the one that it gives with any more, so a script has at most
one answer.
-/

namespace Rill

-- ---------------------------------------------------------------------------
-- The core
-- ---------------------------------------------------------------------------

mutual

/-- The expression is a literal, a name, or an operator applied to such expressions. -/
def Expr.isCore : Expr → Bool
  | .null _ | .nan _ | .bool _ _ | .int _ _ | .float _ _ | .str _ _ | .ident _ _ => true
  | .unary _ _ operand => operand.isCore
  | .binary _ _ left right | .logical _ _ left right => left.isCore && right.isCore
  | .concat _ parts => areCore parts
  | .conditional _ cond whenTrue whenFalse => cond.isCore && whenTrue.isCore && whenFalse.isCore
  | .field .. | .index .. | .call .. | .ref .. | .list .. | .array .. | .table .. | .set ..
  | .function .. => false

def Expr.areCore : List Expr → Bool
  | [] => true
  | e :: rest => e.isCore && areCore rest

end

/-- The expression is a name. -/
def Expr.isName : Expr → Bool
  | .ident .. => true
  | _ => false

mutual

/-- The statement makes no functions, goes through no collection and assigns to names only. -/
def Stmt.isCore : Stmt → Bool
  | .expr _ value | .throw _ value => value.isCore
  | .assign _ _ target value => target.isName && value.isCore
  | .declare _ _ values | .print _ _ values => Expr.areCore values
  | .branch _ arms none => Stmt.armsAreCore arms
  | .branch _ arms (some body) => Stmt.armsAreCore arms && body.isCore
  | .whileLoop _ cond body => cond.isCore && body.isCore
  | .repeatLoop _ body cond => body.isCore && cond.isCore
  | .forLoop _ _ _ first last step body =>
    first.isCore && last.isCore && step.all Expr.isCore && body.isCore
  | .result _ value => value.all Expr.isCore
  | .leave _ | .next _ | .pass _ => true
  | .assert _ cond message => cond.isCore && message.all Expr.isCore
  | .debug _ body | .block _ body => body.isCore
  | .function .. | .foreachLoop .. => false

def Stmt.areCore : List Stmt → Bool
  | [] => true
  | s :: rest => s.isCore && Stmt.areCore rest

def Block.isCore : Block → Bool
  | ⟨_, stmts⟩ => Stmt.areCore stmts

def Stmt.armsAreCore : List (Expr × Block) → Bool
  | [] => true
  | (cond, body) :: rest => cond.isCore && body.isCore && Stmt.armsAreCore rest

end

-- ---------------------------------------------------------------------------
-- Values
-- ---------------------------------------------------------------------------

namespace Heap

def unary (h : Heap) (op : UnaryOp) (v : Value) : Except Failure Value :=
  match op with
  | .neg => h.negate v
  | .not => .ok (.bool (!h.truth v))

/-- The texts of values, one after the other. -/
def joined (h : Heap) (vs : List Value) : Value := .text (String.join (vs.map h.text))

/-- What a compound assignment assigns. -/
def compound (h : Heap) (op : CompoundOp) (a b : Value) : Except Failure Value :=
  match op with
  | .arith op => h.binary op a b
  | .concat => .ok (h.joined [a, b])

/-- What a place holds after a value has been assigned to it, and the heap then: a plain value goes into a
cell that the place holds. -/
def assigned (h : Heap) (old v : Value) : Value × Heap :=
  match old with
  | .cell id => if v.isCell then (v, h) else (old, h.setCell id v)
  | _ => (v, h)

end Heap

/-- The truth of the left operand that decides a logical operator. -/
def LogicalOp.decider : LogicalOp → Bool
  | .conj => false
  | .disj => true

namespace Evaluation

open Layout

-- ---------------------------------------------------------------------------
-- Stores
-- ---------------------------------------------------------------------------

/-- What evaluation changes. -/
structure Store where
  heap : Heap
  globals : OrderedMap String Value
  slots : Nat → Value
  output : String

namespace Store

/-- Binds a slot to a value, whatever it held. -/
def bind (σ : Store) (slot : Nat) (v : Value) : Store :=
  { σ with slots := fun k => if k = slot then v else σ.slots k }

/-- Binds slots from the first one on. -/
def bindFrom (σ : Store) (first : Nat) : List Value → Store
  | [] => σ
  | v :: rest => (σ.bind first v).bindFrom (first + 1) rest

/-- The value of a slot. -/
def value (σ : Store) (slot : Nat) : Value := σ.heap.resolve (σ.slots slot)

def readGlobal (σ : Store) (name : String) : Except Failure Value :=
  match σ.globals.find? name with
  | some v => .ok (σ.heap.resolve v)
  | none => .error (Fault.undefinedIdentifier name)

/-- The value of a name. -/
def read (σ : Store) (Γ : Env) (name : String) : Except Failure Value :=
  match Γ.find? name with
  | some slot => .ok (σ.value slot)
  | none => σ.readGlobal name

def assignSlot (σ : Store) (slot : Nat) (v : Value) : Store :=
  let (held, heap) := σ.heap.assigned (σ.slots slot) v
  { σ with heap := heap }.bind slot held

/-- Assigns to a global, which is created if it does not exist. -/
def assignGlobal (σ : Store) (name : String) (v : Value) : Store :=
  match σ.globals.find? name with
  | some old =>
    let (held, heap) := σ.heap.assigned old v
    { σ with heap := heap, globals := σ.globals.insert name held }
  | none => { σ with globals := σ.globals.insert name v }

def assign (σ : Store) (Γ : Env) (name : String) (v : Value) : Store :=
  match Γ.find? name with
  | some slot => σ.assignSlot slot v
  | none => σ.assignGlobal name v

/-- Prints values, separated by blanks. -/
def print (σ : Store) (vs : List Value) (newline : Bool) : Store :=
  let line := " ".intercalate (vs.map σ.heap.text)
  { σ with output := σ.output ++ if newline then line ++ "\n" else line }

end Store

-- ---------------------------------------------------------------------------
-- Courses
-- ---------------------------------------------------------------------------

/-- How statements end. `leave` and `next` go out of the innermost loop and on with its next round. -/
inductive Outcome
  | normal
  | leave
  | next
  | result (v : Value)
  | failure (e : Failure)

/-- What becomes of a store, and how that ends; no answer if it takes too long. -/
abbrev Course := Store → Option (Outcome × Store)

def stop (o : Outcome) : Course := fun σ => some (o, σ)

def change (f : Store → Store) : Course := fun σ => some (.normal, f σ)

/-- Goes on with what a computation gives. -/
def withValue (x : Store → Except Failure α) (go : α → Course) : Course := fun σ =>
  match x σ with
  | .ok a => go a σ
  | .error e => some (.failure e, σ)

/-- Goes on as the truth of a value says. -/
def choose (x : Store → Except Failure Value) (yes no : Course) : Course :=
  withValue x fun v σ => if σ.heap.truth v then yes σ else no σ

/-- Binds a slot to what a computation gives. -/
def define (slot : Nat) (x : Store → Except Failure Value) : Course :=
  withValue x fun v => change (·.bind slot v)

/-- Two courses, the second one if the first one ends normally. -/
def andThen (first second : Course) : Course := fun σ =>
  match first σ with
  | some (.normal, σ) => second σ
  | ended => ended

/-- The body of a loop: `next` ends it normally. -/
def again (body : Course) : Course := fun σ =>
  match body σ with
  | some (.next, σ) => some (.normal, σ)
  | ended => ended

/-- Rounds of a loop until one ends with `leave`. -/
def rounds (round : Course) : Nat → Course
  | 0 => fun _ => none
  | fuel + 1 => fun σ =>
    match round σ with
    | some (.normal, σ) | some (.next, σ) => rounds round fuel σ
    | some (.leave, σ) => some (.normal, σ)
    | ended => ended

-- ---------------------------------------------------------------------------
-- Expressions
-- ---------------------------------------------------------------------------

/-- The answer to what is not in the core. -/
def outside : Failure := (Fault.host "not evaluated").failure

mutual

/-- The value of an expression. -/
def evaluate (Γ : Env) : Expr → Store → Except Failure Value
  | .null _, _ => .ok .null
  | .nan _, _ => .ok (.float (0.0 / 0.0))
  | .bool _ b, _ => .ok (.bool b)
  | .int _ n, _ => .ok (.int n)
  | .float _ x, _ => .ok (.float x)
  | .str _ s, _ => .ok (.text s)
  | .ident _ name, σ => σ.read Γ name
  | .unary _ op operand, σ => do σ.heap.unary op (← evaluate Γ operand σ)
  | .binary _ op left right, σ => do
    let a ← evaluate Γ left σ
    let b ← evaluate Γ right σ
    σ.heap.binary op a b
  | .logical _ op left right, σ => do
    let a ← evaluate Γ left σ
    if σ.heap.truth a = op.decider then return a else evaluate Γ right σ
  | .concat _ parts, σ => do return σ.heap.joined (← evaluateAll Γ parts σ)
  | .conditional _ cond whenTrue whenFalse, σ => do
    if σ.heap.truth (← evaluate Γ cond σ) then evaluate Γ whenTrue σ else evaluate Γ whenFalse σ
  | _, _ => .error outside

/-- The values of expressions, in order. -/
def evaluateAll (Γ : Env) : List Expr → Store → Except Failure (List Value)
  | [], _ => .ok []
  | e :: rest, σ => do
    let v ← evaluate Γ e σ
    return v :: (← evaluateAll Γ rest σ)

end

-- ---------------------------------------------------------------------------
-- Statements
-- ---------------------------------------------------------------------------

/-- Assigns a value to a name. -/
def store (Γ : Env) (target : Expr) (v : Value) : Course :=
  match target with
  | .ident _ name => change (·.assign Γ name v)
  | _ => stop (.failure outside)

/-- Moves the counter in a slot on, by the step in another slot or by one. -/
def advance (slot : Nat) (stepSlot : Option Nat) (descending : Bool) : Course :=
  match stepSlot with
  | some step =>
    withValue (fun σ => σ.heap.binary (if descending then .sub else .add) (σ.value slot) (σ.value step))
      fun v => change (·.assignSlot slot v)
  | none =>
    withValue (fun σ => σ.heap.stepCounter (σ.slots slot) (!descending)) fun v =>
      change (·.assignSlot slot v)

/-- The counter in a slot has passed the end in the next one. -/
def passed (slot : Nat) (descending : Bool) (σ : Store) : Except Failure Value :=
  σ.heap.binary (if descending then .lt else .gt) (σ.value slot) (σ.value (slot + 1))

/-- Fails with a message unless a value is true. -/
def require (v : Value) (message : Option Value) : Course := fun σ =>
  if σ.heap.truth v then some (.normal, σ)
  else some (.failure (Fault.assertion (message.elim "assertion failed" σ.heap.text)), σ)

/-- The value of an expression, if there is one. -/
def evaluateOption (Γ : Env) (e : Option Expr) (σ : Store) : Except Failure (Option Value) :=
  match e with
  | some e => some <$> evaluate Γ e σ
  | none => .ok none

/-- Binds a slot to the value of an expression, if there is one. -/
def defineOption (slot : Nat) (Γ : Env) : Option Expr → Course
  | some e => define slot (evaluate Γ e)
  | none => stop .normal

variable (debug : Bool) (fuel : Nat)

mutual

/-- What a statement does, given the names visible before it. -/
def execute (Γ : Env) : Stmt → Course
  | .expr _ value => withValue (evaluate Γ value) fun _ => stop .normal
  | .assign _ none target value => withValue (evaluate Γ value) fun v => store Γ target v
  | .assign _ (some op) target value =>
    withValue (evaluate Γ target) fun a => withValue (evaluate Γ value) fun b =>
      withValue (fun σ => σ.heap.compound op a b) fun v => store Γ target v
  | .declare _ names values =>
    if values.isEmpty then change (·.bindFrom Γ.taken (names.map fun _ => .null))
    else withValue (evaluateAll Γ values) fun vs => change (·.bindFrom Γ.taken vs)
  | .print _ newline args => withValue (evaluateAll Γ args) fun vs => change (·.print vs newline)
  | .branch _ arms otherwise =>
    executeArms Γ arms (executeOption (envAfterArms debug Γ arms) otherwise)
  | .whileLoop _ cond body =>
    rounds (choose (evaluate Γ cond) (again (executeBlock Γ body)) (stop .leave)) fuel
  | .repeatLoop _ ⟨_, stmts⟩ cond =>
    rounds
      (andThen (again (executeAll Γ.enter stmts))
        (choose (evaluate (envAfterAll debug Γ.enter stmts) cond) (stop .leave) (stop .normal)))
      fuel
  | .forLoop _ counter descending first last step body =>
    andThen (define Γ.taken (evaluate Γ.enter first)) <|
    andThen (define (Γ.taken + 1) (evaluate (Γ.enter.declare counter) last)) <|
    andThen (defineOption (Γ.taken + 2) ((Γ.enter.declare counter).declare "$end") step) <|
    rounds
      (choose (passed Γ.taken descending) (stop .leave)
        (andThen (again (executeBlock (Γ.enter.declareAll (counterNames counter step)) body))
          (advance Γ.taken (step.map fun _ => Γ.taken + 2) descending)))
      fuel
  | .result _ value => withValue (evaluateOption Γ value) fun v => stop (.result (v.getD .null))
  | .leave _ => stop .leave
  | .next _ => stop .next
  | .pass _ => stop .normal
  | .assert _ cond message =>
    withValue (evaluate Γ cond) fun v => withValue (evaluateOption Γ message) (require v)
  | .throw _ value =>
    withValue (evaluate Γ value) fun v σ => some (.failure (Fault.thrown (σ.heap.text v)), σ)
  | .debug _ body => if debug then executeBlock Γ body else stop .normal
  | .block _ body => executeBlock Γ body
  | .function .. | .foreachLoop .. => stop (.failure outside)

def executeAll (Γ : Env) : List Stmt → Course
  | [] => stop .normal
  | s :: rest => andThen (execute Γ s) (executeAll (envAfter debug Γ s) rest)

/-- A block in a scope of its own. -/
def executeBlock (Γ : Env) : Block → Course
  | ⟨_, stmts⟩ => executeAll Γ.enter stmts

/-- The first arm whose condition is true, or what follows the arms. -/
def executeArms (Γ : Env) : List (Expr × Block) → Course → Course
  | [], otherwise => otherwise
  | (cond, body) :: rest, otherwise =>
    choose (evaluate Γ cond) (executeBlock Γ body)
      (executeArms (envAfterBlock debug Γ body) rest otherwise)

def executeOption (Γ : Env) : Option Block → Course
  | none => stop .normal
  | some body => executeBlock Γ body

end

/-- The result of a script, or its failure, and the store that it leaves. -/
def executeScript (s : Script) (σ : Store) : Option (Except Failure Value × Store) :=
  match executeAll (s.debug.getD debug) fuel { depth := 1 } s.body.stmts σ with
  | some (.result v, σ) => some (.ok v, σ)
  | some (.failure e, σ) => some (.error e, σ)
  | some (_, σ) => some (.ok .null, σ)
  | none => none

end Evaluation

end Rill

namespace Rill.Evaluation

open Layout

-- ---------------------------------------------------------------------------
-- Fuel
-- ---------------------------------------------------------------------------

/-- The answers of the first course are answers of the second one. -/
def Within (c d : Course) : Prop := ∀ σ ended, c σ = some ended → d σ = some ended

namespace Within

variable {c c' d d' : Course}

theorem refl (c : Course) : Within c c := fun _ _ h => h

theorem withValue {x : Store → Except Failure α} {go go' : α → Course} (h : ∀ a, Within (go a) (go' a)) :
    Within (Evaluation.withValue x go) (Evaluation.withValue x go') := by
  intro σ ended
  unfold Evaluation.withValue
  split
  · exact h _ σ ended
  · exact id

theorem choose {x : Store → Except Failure Value} (hyes : Within c c') (hno : Within d d') :
    Within (Evaluation.choose x c d) (Evaluation.choose x c' d') := by
  refine withValue fun v σ ended => ?_
  split
  · exact hyes σ ended
  · exact hno σ ended

theorem andThen (h : Within c c') (h' : Within d d') :
    Within (Evaluation.andThen c d) (Evaluation.andThen c' d') := by
  intro σ ended
  unfold Evaluation.andThen
  cases hc : c σ with
  | none => simp
  | some first =>
    rw [h σ first hc]
    obtain ⟨o, σ'⟩ := first
    cases o with
    | normal => exact h' σ' ended
    | _ => exact id

theorem again (h : Within c c') : Within (Evaluation.again c) (Evaluation.again c') := by
  intro σ ended
  unfold Evaluation.again
  cases hc : c σ with
  | none => simp
  | some round => rw [h σ round hc]; exact id

/-- More rounds of a loop. -/
theorem rounds (h : Within c c') {fuel fuel' : Nat} (hfuel : fuel ≤ fuel') :
    Within (Evaluation.rounds c fuel) (Evaluation.rounds c' fuel') := by
  induction fuel generalizing fuel' with
  | zero => intro σ ended hnone; cases hnone
  | succ fuel ih =>
    obtain ⟨fuel', rfl⟩ : ∃ n, fuel' = n + 1 := ⟨fuel' - 1, by omega⟩
    intro σ ended
    rw [Evaluation.rounds, Evaluation.rounds]
    dsimp only
    cases hc : c σ with
    | none => simp
    | some round =>
      rw [h σ round hc]
      obtain ⟨o, σ'⟩ := round
      cases o with
      | normal | next => exact ih (by omega) σ' ended
      | _ => exact id

end Within

variable {debug : Bool} {fuel fuel' : Nat}

mutual

theorem execute_within (hfuel : fuel ≤ fuel') (Γ : Env) (s : Stmt) :
    Within (execute debug fuel Γ s) (execute debug fuel' Γ s) := by
  match s with
  | .branch _ arms otherwise =>
    rw [execute, execute]
    exact executeArms_within hfuel Γ arms (executeOption_within hfuel _ otherwise)
  | .whileLoop _ cond body =>
    rw [execute, execute]
    exact .rounds (.choose (.again (executeBlock_within hfuel Γ body)) (.refl _)) hfuel
  | .repeatLoop _ ⟨_, stmts⟩ cond =>
    rw [execute, execute]
    exact .rounds (.andThen (.again (executeAll_within hfuel _ stmts)) (.refl _)) hfuel
  | .forLoop _ counter descending first last step body =>
    rw [execute, execute]
    refine .andThen (.refl _) (.andThen (.refl _) (.andThen (.refl _) (.rounds ?_ hfuel)))
    exact .choose (.refl _) (.andThen (.again (executeBlock_within hfuel _ body)) (.refl _))
  | .debug _ body =>
    rw [execute, execute]
    split
    · exact executeBlock_within hfuel Γ body
    · exact .refl _
  | .block _ body =>
    rw [execute, execute]
    exact executeBlock_within hfuel Γ body
  | .expr .. | .assign _ none _ _ | .assign _ (some _) _ _ | .declare .. | .print .. | .function ..
  | .foreachLoop .. | .result .. | .leave _ | .next _ | .pass _ | .assert .. | .throw .. =>
    rw [execute, execute]
    exact .refl _
termination_by structural s

theorem executeAll_within (hfuel : fuel ≤ fuel') (Γ : Env) (stmts : List Stmt) :
    Within (executeAll debug fuel Γ stmts) (executeAll debug fuel' Γ stmts) := by
  match stmts with
  | [] => exact .refl _
  | s :: rest => exact .andThen (execute_within hfuel Γ s) (executeAll_within hfuel _ rest)
termination_by structural stmts

theorem executeBlock_within (hfuel : fuel ≤ fuel') (Γ : Env) (body : Block) :
    Within (executeBlock debug fuel Γ body) (executeBlock debug fuel' Γ body) := by
  match body with
  | ⟨_, stmts⟩ => exact executeAll_within hfuel Γ.enter stmts
termination_by structural body

theorem executeArms_within (hfuel : fuel ≤ fuel') (Γ : Env) (arms : List (Expr × Block)) {c c' : Course}
    (h : Within c c') :
    Within (executeArms debug fuel Γ arms c) (executeArms debug fuel' Γ arms c') := by
  match arms with
  | [] => exact h
  | (cond, body) :: rest =>
    exact .choose (executeBlock_within hfuel Γ body) (executeArms_within hfuel _ rest h)
termination_by structural arms

theorem executeOption_within (hfuel : fuel ≤ fuel') (Γ : Env) (body : Option Block) :
    Within (executeOption debug fuel Γ body) (executeOption debug fuel' Γ body) := by
  match body with
  | none => exact .refl _
  | some body => exact executeBlock_within hfuel Γ body
termination_by structural body

end

/-- The answer of a script does not depend on fuel. -/
theorem executeScript_fuel {s : Script} {σ : Store} {ended : Except Failure Value × Store}
    (hfuel : fuel ≤ fuel') (h : executeScript debug fuel s σ = some ended) :
    executeScript debug fuel' s σ = some ended := by
  unfold executeScript at h ⊢
  cases hstmts : executeAll (s.debug.getD debug) fuel { depth := 1 } s.body.stmts σ with
  | none => rw [hstmts] at h; cases h
  | some stmts => rwa [executeAll_within hfuel _ _ σ stmts hstmts, ← hstmts]

end Rill.Evaluation
