-- SUMMARY: The code of a script refers to the constants and names that the script writes, in the same order.
import Rill.Proofs.Scoping.Lexical

/-!
# Mentions

The constants, the names of globals and the names of fields are not part of the instructions; these hold
indices of the pools of their routine. `mentions` lists what a piece of the syntax tree writes of this kind,
in the order in which its parts are evaluated. `Cites` reads the same from code: the instructions are looked at one
after the other, with the routines of the functions that they create, and what their indices stand for is listed.
-/

namespace Rill.Layout

open Compile (unaryInstruction compoundInstruction)

-- ---------------------------------------------------------------------------
-- What code refers to
-- ---------------------------------------------------------------------------

/-- The instructions from one index up to another refer to the given constants, names and functions, in this order. Of
a function, the whole code does so, and each of its own functions is created in it. -/
inductive Cites : Routine → Nat → Nat → List Mention → Prop
  | nil {r : Routine} {i : Nat} : Cites r i i []
  | plain {r : Routine} {i j : Nat} {ms : List Mention} {op : Instruction} (before : Cites r i j ms)
      (has : r.Has j op) (refers : op.reference? = none) : Cites r i (j + 1) ms
  | constant {r : Routine} {i j : Nat} {ms : List Mention} {op : Instruction} {ref : Reference} {m : Mention}
      (before : Cites r i j ms) (has : r.Has j op) (refers : op.reference? = some ref)
      (holds : r.pools.mention? ref = some m) : Cites r i (j + 1) (ms ++ [m])
  | function {r child : Routine} {i j k params : Nat} {ms body : List Mention} (before : Cites r i j ms)
      (has : r.Has j (.closure k params)) (entry : r.children[k]? = some child)
      (inner : Cites child 0 child.code.size body) (uses : child.UsesChildren) :
      Cites r i (j + 1) (ms ++ [.function body])

namespace Cites

variable {r : Routine} {i j k : Nat} {ms ms' : List Mention} {op : Instruction}

theorem seq (h : Cites r i k ms) (h' : Cites r k j ms') : Cites r i j (ms ++ ms') := by
  induction h' with
  | nil => rwa [List.append_nil]
  | plain _ has refers ih => exact (ih h).plain has refers
  | constant _ has refers holds ih =>
    rw [← List.append_assoc]
    exact (ih h).constant has refers holds
  | function _ has entry inner uses ih =>
    rw [← List.append_assoc]
    exact (ih h).function has entry inner uses

/-- Code that refers to nothing may follow. -/
theorem silent (h : Cites r i k ms) (h' : Cites r k j []) : Cites r i j ms := by
  simpa using h.seq h'

/-- A single instruction that refers to nothing. -/
theorem one (has : r.Has i op) (refers : op.reference? = none) : Cites r i (i + 1) [] := nil.plain has refers

/-- A text among the constants is the name of a field. -/
theorem field {name : String} (h : Cites r i j ms) (has : r.Has j op) (refers : op.reference? = some (.field k))
    (text : IsText r k name) : Cites r i (j + 1) (ms ++ [.field name]) := by
  unfold IsText at text
  exact h.constant has refers (by simp [Pools.mention?, Routine.pools, text])

theorem global {name : String} (h : Cites r i j ms) (has : r.Has j op) (refers : op.reference? = some (.global k))
    (text : IsText r k name) : Cites r i (j + 1) (ms ++ [.global name]) := by
  unfold IsText at text
  exact h.constant has refers (by simp [Pools.mention?, Routine.pools, text])

/-- The code of a function that stands anywhere in a stretch of code is read as a whole. -/
theorem of_closure (h : Cites r i j ms) {n c params : Nat} (hlo : i ≤ n) (hhi : n < j)
    (has : r.Has n (.closure c params)) : ∃ child body, r.children[c]? = some child ∧
      Cites child 0 child.code.size body ∧ child.UsesChildren := by
  induction h with
  | nil => omega
  | plain _ hop refers ih =>
    rcases Nat.lt_succ_iff_lt_or_eq.mp hhi with hn | rfl
    · exact ih hlo hn has
    · obtain rfl := Option.some.inj (has.symm.trans hop)
      cases refers
  | constant _ hop refers holds ih =>
    rcases Nat.lt_succ_iff_lt_or_eq.mp hhi with hn | rfl
    · exact ih hlo hn has
    · obtain rfl := Option.some.inj (has.symm.trans hop)
      cases refers
      cases holds
  | function _ hop entry inner uses ih =>
    rcases Nat.lt_succ_iff_lt_or_eq.mp hhi with hn | rfl
    · exact ih hlo hn has
    · cases Option.some.inj (has.symm.trans hop)
      exact ⟨_, _, entry, inner, uses⟩

end Cites

/-- Where the code of a routine is read as a whole and creates all its functions, so is and does that of every
routine in it. -/
theorem Cites.nested {r q : Routine} {ms : List Mention} (h : Cites r 0 r.code.size ms) (huses : r.UsesChildren)
    (hq : Nested r q) : ∃ body, Cites q 0 q.code.size body ∧ q.UsesChildren := by
  induction hq with
  | self => exact ⟨ms, h, huses⟩
  | child _ hmem ih =>
    obtain ⟨body, hbody, huses⟩ := ih
    obtain ⟨c, hc, hentry⟩ := Array.mem_iff_getElem.mp hmem
    obtain ⟨n, params, has⟩ := huses c hc
    have hn : n < Code.size _ := (Array.getElem?_eq_some_iff.mp has).1
    obtain ⟨child, body', hchild, hcites, huses'⟩ := hbody.of_closure (Nat.zero_le n) hn has
    rw [Array.getElem?_eq_getElem hc, hentry] at hchild
    obtain rfl := Option.some.inj hchild
    exact ⟨body', hcites, huses'⟩

-- ---------------------------------------------------------------------------
-- What the syntax tree writes
-- ---------------------------------------------------------------------------

/-- A name is mentioned where it is that of a global; a variable needs no name at run time. -/
def nameMentions (around : List Env) (Γ : Env) (name : String) : List Mention :=
  match lookup (Γ :: around) name with
  | .global name => [.global name]
  | .variable .. => []

theorem nameMentions_global {around : List Env} {Γ : Env} {name other : String}
    (h : lookup (Γ :: around) name = .global other) : nameMentions around Γ name = [.global other] := by
  simp only [nameMentions, h]

theorem nameMentions_eq_nil {around : List Env} {Γ : Env} {name : String}
    (h : ∀ other, lookup (Γ :: around) name ≠ .global other) : nameMentions around Γ name = [] := by
  unfold nameMentions
  split
  · next other hother => exact absurd hother (h other)
  · rfl

variable (debug : Bool)

mutual

/-- The constants, globals, fields and functions that an expression writes, given the names visible there and in the
functions around it. A small integer is part of its instruction. -/
def mentions (around : List Env) (Γ : Env) : Expr → List Mention
  | .null _ | .nan _ | .bool .. => []
  | .int _ n => if -32768 ≤ n ∧ n ≤ 32767 then [] else [.integer n]
  | .float _ x => [.float x]
  | .str _ s => [.text s]
  | .ident _ name => nameMentions around Γ name
  | .unary _ _ operand => mentions around Γ operand
  | .binary _ _ left right => mentions around Γ left ++ mentions around Γ right
  | .logical _ _ left right => mentions around Γ left ++ mentions around Γ right
  | .concat _ parts => mentionsAll around Γ parts
  | .conditional _ cond whenTrue whenFalse =>
    mentions around Γ cond ++ mentions around Γ whenTrue ++ mentions around Γ whenFalse
  | .field _ object name => mentions around Γ object ++ [.field name]
  | .index _ object indices => mentions around Γ object ++ mentionsAll around Γ indices
  | .call _ callee args => mentions around Γ callee ++ mentionsAll around Γ args
  | .ref _ target => mentions around Γ target
  | .list _ items => mentionsAll around Γ items
  | .array _ _ _ items => mentionsAll around Γ items
  | .table _ entries => mentionsPairs around Γ entries
  | .set _ items => mentionsAll around Γ items
  | .function _ fn => mentionsLambda around Γ fn

def mentionsAll (around : List Env) (Γ : Env) : List Expr → List Mention
  | [] => []
  | e :: rest => mentions around Γ e ++ mentionsAll around Γ rest

def mentionsPairs (around : List Env) (Γ : Env) : List (Expr × Expr) → List Mention
  | [] => []
  | (key, value) :: rest => mentions around Γ key ++ mentions around Γ value ++ mentionsPairs around Γ rest

/-- The classes of the parameters are evaluated around the function, before it is created. -/
def mentionsLambda (around : List Env) (Γ : Env) : Lambda → List Mention
  | ⟨_, params, ⟨_, stmts⟩⟩ =>
    mentionsClasses around Γ params ++ [.function (mentionsAllStmts (Γ :: around)
      (({ depth := Γ.depth + 1 } : Env).declareAll (params.map (·.name))) stmts)]

def mentionsClasses (around : List Env) (Γ : Env) : List Param → List Mention
  | [] => []
  | ⟨_, _, _, some e⟩ :: rest => mentions around Γ e ++ mentionsClasses around Γ rest
  | ⟨_, _, _, none⟩ :: rest => mentionsClasses around Γ rest

/-- What a statement writes. A function that is declared globally is created before its name is set. -/
def mentionsStmt (around : List Env) (Γ : Env) : Stmt → List Mention
  | .expr _ value => mentions around Γ value
  | .assign _ none target value => mentions around Γ value ++ mentions around Γ target
  | .assign _ (some _) target value =>
    mentions around Γ target ++ mentions around Γ value ++ mentions around Γ target
  | .declare _ _ values => mentionsAll around Γ values
  | .function _ isLocal name fn =>
    if isLocal || Γ.depth > 1 then
      match Γ.inScope? name with
      | some _ => mentionsLambda around Γ fn
      | none => mentionsLambda around (Γ.declare name) fn
    else mentionsLambda around Γ fn ++ [.global name]
  | .print _ _ args => mentionsAll around Γ args
  | .branch _ arms otherwise =>
    mentionsArms around Γ arms ++ mentionsOption around (envAfterArms debug Γ arms) otherwise
  | .whileLoop _ cond body => mentions around Γ cond ++ mentionsBlock around Γ body
  | .repeatLoop _ ⟨_, stmts⟩ cond =>
    mentionsAllStmts around Γ.enter stmts ++ mentions around (envAfterAll debug Γ.enter stmts) cond
  | .forLoop _ counter _ first last step body =>
    mentions around Γ.enter first ++ mentions around (Γ.enter.declare counter) last ++
      mentionsOptionExpr around ((Γ.enter.declare counter).declare "$end") step ++
      mentionsBlock around (Γ.enter.declareAll (counterNames counter step)) body
  | .foreachLoop _ key value _ collection ⟨_, stmts⟩ =>
    mentions around Γ.enter collection ++
      mentionsAllStmts around ((Γ.enter.declare "$iter").enter.declareAll (key.toList ++ [value])) stmts
  | .result _ (some e) => mentions around Γ e
  | .result _ none => []
  | .leave _ | .next _ | .pass _ => []
  | .assert _ cond (some message) => mentions around Γ cond ++ mentions around Γ message
  | .assert _ cond none => mentions around Γ cond
  | .throw _ value => mentions around Γ value
  | .debug _ body => if debug then mentionsBlock around Γ body else []
  | .block _ body => mentionsBlock around Γ body

def mentionsAllStmts (around : List Env) (Γ : Env) : List Stmt → List Mention
  | [] => []
  | s :: rest => mentionsStmt around Γ s ++ mentionsAllStmts around (envAfter debug Γ s) rest

def mentionsBlock (around : List Env) (Γ : Env) : Block → List Mention
  | ⟨_, stmts⟩ => mentionsAllStmts around Γ.enter stmts

def mentionsArms (around : List Env) (Γ : Env) : List (Expr × Block) → List Mention
  | [] => []
  | (cond, body) :: rest =>
    mentions around Γ cond ++ mentionsBlock around Γ body ++
      mentionsArms around (envAfterBlock debug Γ body) rest

def mentionsOption (around : List Env) (Γ : Env) : Option Block → List Mention
  | none => []
  | some body => mentionsBlock around Γ body

def mentionsOptionExpr (around : List Env) (Γ : Env) : Option Expr → List Mention
  | none => []
  | some e => mentions around Γ e

end

-- ---------------------------------------------------------------------------
-- Pieces without subterms
-- ---------------------------------------------------------------------------

section Pieces

variable {r : Routine} {out : Outer} {Γ : Env} {i j k : Nat} {ms : List Mention}

/-- The instruction for a name refers to it exactly where it is the name of a global. -/
theorem Cites.named {op : Instruction} {name : String} {slot : Slot} (h : Cites r i j ms) (has : r.Has j op)
    (refers : op.reference? = slot.reference?) (hslot : Denotes r out Γ name slot) :
    Cites r i (j + 1) (ms ++ nameMentions (out.map (·.2)) Γ name) := by
  have htarget := denotes_iff_target.mp hslot
  cases slot with
  | frame s =>
    have hlocal (other : String) : lookup (Γ :: out.map (·.2)) name ≠ .global other := by
      rw [← Option.some.inj htarget]
      nofun
    rw [nameMentions_eq_nil hlocal, List.append_nil]
    exact h.plain has refers
  | captured c =>
    have hlocal (other : String) : lookup (Γ :: out.map (·.2)) name ≠ .global other := by
      intro hother
      rw [hother] at htarget
      obtain ⟨x, hx, hout⟩ := Option.map_eq_some_iff.mp htarget
      exact follow_ne_global (hx.trans (congrArg some (Referent.outward_eq_global.mp hout)))
    rw [nameMentions_eq_nil hlocal, List.append_nil]
    exact h.plain has refers
  | global c =>
    obtain ⟨other, htext, hother⟩ := Option.map_eq_some_iff.mp htarget
    rw [nameMentions_global hother.symm]
    exact h.global has refers htext

theorem int_cites {n : Int64} (h : PlacesInt r n i) :
    Cites r i (i + 1) (if -32768 ≤ n ∧ n ≤ 32767 then [] else [.integer n]) := by
  unfold PlacesInt at h
  split
  · next hsmall =>
    rw [if_pos hsmall] at h
    exact .one h rfl
  · next hwide =>
    rw [if_neg hwide] at h
    obtain ⟨k, has, hentry⟩ := h
    have hholds : r.pools.mention? (.integer k) = some (.integer n) := by
      simp [Pools.mention?, Routine.pools, hentry]
    exact Cites.nil.constant has rfl hholds

theorem defines_cites {slots : List Nat} (h : PlacesDefines r slots i j) : Cites r i j [] := by
  induction slots generalizing i with
  | nil =>
    obtain rfl : j = i := h
    exact .nil
  | cons slot rest ih =>
    obtain ⟨has, hrest⟩ := h
    exact (Cites.one has rfl).silent (ih hrest)

theorem nulls_cites {slots : List Nat} (h : PlacesNulls r slots i j) : Cites r i j [] := by
  induction slots generalizing i with
  | nil =>
    obtain rfl : j = i := h
    exact .nil
  | cons slot rest ih =>
    obtain ⟨hnull, hdefine, hrest⟩ := h
    exact ((Cites.one hnull rfl).plain hdefine rfl).silent (ih hrest)

theorem step_cites {slot : Nat} {stepSlot : Option Nat} {descending : Bool}
    (h : PlacesStep r slot stepSlot descending i j) : Cites r i j [] := by
  cases stepSlot with
  | none =>
    obtain ⟨has, rfl⟩ := h
    exact .one has rfl
  | some k =>
    obtain ⟨hread, hreadStep, hop, hwrite, rfl⟩ := h
    exact (((Cites.one hread rfl).plain hreadStep rfl).plain hop rfl).plain hwrite rfl

theorem key_cites {key : Option String} {iterator slot : Nat} (h : PlacesKey r iterator slot key i j) :
    Cites r i j [] := by
  cases key with
  | none =>
    obtain rfl : j = i := h
    exact .nil
  | some name =>
    obtain ⟨hread, hkey, hdefine, rfl⟩ := h
    exact ((Cites.one hread rfl).plain hkey rfl).plain hdefine rfl

end Pieces

-- ---------------------------------------------------------------------------
-- Nodes
-- ---------------------------------------------------------------------------

variable {mark : Routine → Nat → Prop} {debug : Bool}

mutual

theorem places_cites {r : Routine} {out : Outer} {Γ : Env} {use : Use} {e : Expr} {i j : Nat}
    (h : Places mark debug r out Γ use e i j) : Cites r i j (mentions debug (out.map (·.2)) Γ e) := by
  match e with
  | .null _ | .nan _ | .bool .. =>
    obtain ⟨has, rfl⟩ := h
    exact .one has rfl
  | .int _ n =>
    obtain ⟨hint, rfl⟩ := h
    exact int_cites hint
  | .float _ x =>
    obtain ⟨⟨k, has, hentry⟩, rfl⟩ := h
    exact Cites.nil.constant has rfl (by simp [Pools.mention?, Routine.pools, hentry])
  | .str _ s =>
    obtain ⟨⟨k, has, hentry⟩, rfl⟩ := h
    unfold IsText at hentry
    exact Cites.nil.constant has rfl (by simp [Pools.mention?, Routine.pools, hentry])
  | .ident _ name =>
    obtain ⟨⟨slot, has, hslot⟩, rfl⟩ := h
    exact Cites.nil.named has rfl hslot
  | .unary _ op operand =>
    obtain ⟨k, hoperand, has, rfl⟩ := h
    cases op <;> exact (places_cites hoperand).plain has rfl
  | .binary _ op left right =>
    obtain ⟨k, l, hleft, hright, has, rfl⟩ := h
    exact ((places_cites hleft).seq (places_cites hright)).plain has rfl
  | .logical _ op left right =>
    obtain ⟨k, hleft, has, hright⟩ := h
    exact ((places_cites hleft).plain has rfl).seq (places_cites hright)
  | .concat _ parts =>
    obtain ⟨k, hparts, has, rfl⟩ := h
    exact (placesAll_cites hparts).plain has rfl
  | .conditional _ cond whenTrue whenFalse =>
    obtain ⟨k, l, hcond, htest, htrue, hjump, hfalse⟩ := h
    have hfirst := ((places_cites hcond).plain htest rfl).seq (places_cites htrue)
    exact (hfirst.plain hjump rfl).seq (places_cites hfalse)
  | .field _ object name =>
    obtain ⟨k, n, hobject, has, htext, rfl⟩ := h
    exact (places_cites hobject).field has rfl htext
  | .index _ object indices =>
    obtain ⟨k, l, hobject, hindices, has, rfl⟩ := h
    exact ((places_cites hobject).seq (placesAll_cites hindices)).plain has rfl
  | .call _ callee args =>
    obtain ⟨k, l, hcallee, hpre, hargs, has, rfl⟩ := h
    exact (((places_cites hcallee).plain hpre rfl).seq (placesArguments_cites hargs)).plain has rfl
  | .ref _ target => exact placesReference_cites (e := target) h
  | .list _ items | .set _ items =>
    obtain ⟨k, hitems, has, rfl⟩ := h
    exact (placesAll_cites hitems).plain has rfl
  | .array _ rows cols items =>
    obtain ⟨k, hitems, has, rfl⟩ := h
    exact (placesAll_cites hitems).plain has rfl
  | .table _ entries =>
    obtain ⟨k, hentries, has, rfl⟩ := h
    exact (placesPairs_cites hentries).plain has rfl
  | .function _ fn => exact placesClosure_cites h

theorem placesReference_cites {r : Routine} {out : Outer} {Γ : Env} {e : Expr} {i j : Nat}
    (h : PlacesReference mark debug r out Γ e i j) : Cites r i j (mentions debug (out.map (·.2)) Γ e) := by
  match e with
  | .ident _ name =>
    obtain ⟨⟨slot, has, hslot⟩, rfl⟩ := h
    exact Cites.nil.named has rfl hslot
  | .field _ object name =>
    obtain ⟨k, n, hobject, has, htext, rfl⟩ := h
    exact (places_cites hobject).field has rfl htext
  | .index _ object indices =>
    obtain ⟨k, l, hobject, hindices, has, rfl⟩ := h
    exact ((places_cites hobject).seq (placesAll_cites hindices)).plain has rfl
  | .call _ callee args =>
    obtain ⟨k, l, hcallee, hpre, hargs, has, rfl⟩ := h
    exact (((places_cites hcallee).plain hpre rfl).seq (placesArguments_cites hargs)).plain has rfl
  | .null _ | .nan _ | .bool .. | .int .. | .float .. | .str .. | .unary .. | .binary .. | .logical ..
  | .concat .. | .conditional .. | .ref .. | .list .. | .array .. | .table .. | .set .. | .function .. =>
    exact h.elim

theorem placesAll_cites {r : Routine} {out : Outer} {Γ : Env} {es : List Expr} {i j : Nat}
    (h : PlacesAll mark debug r out Γ es i j) : Cites r i j (mentionsAll debug (out.map (·.2)) Γ es) := by
  match es with
  | [] =>
    obtain rfl : j = i := h
    exact .nil
  | e :: rest =>
    obtain ⟨k, he, hrest⟩ := h
    exact (places_cites he).seq (placesAll_cites hrest)

theorem placesArguments_cites {r : Routine} {out : Outer} {Γ : Env} {es : List Expr} {position i j : Nat}
    (h : PlacesArguments mark debug r out Γ position es i j) :
    Cites r i j (mentionsAll debug (out.map (·.2)) Γ es) := by
  match es with
  | [] =>
    obtain rfl : j = i := h
    exact .nil
  | e :: rest =>
    obtain ⟨k, he, hrest⟩ := h
    exact (places_cites he).seq (placesArguments_cites hrest)

theorem placesPairs_cites {r : Routine} {out : Outer} {Γ : Env} {es : List (Expr × Expr)} {i j : Nat}
    (h : PlacesPairs mark debug r out Γ es i j) : Cites r i j (mentionsPairs debug (out.map (·.2)) Γ es) := by
  match es with
  | [] =>
    obtain rfl : j = i := h
    exact .nil
  | (key, value) :: rest =>
    obtain ⟨k, l, hkey, hvalue, hrest⟩ := h
    exact ((places_cites hkey).seq (places_cites hvalue)).seq (placesPairs_cites hrest)

theorem placesClosure_cites {r : Routine} {out : Outer} {Γ : Env} {fn : Lambda} {name : String} {i j : Nat}
    (h : PlacesClosure mark debug r out Γ name fn i j) :
    Cites r i j (mentionsLambda debug (out.map (·.2)) Γ fn) := by
  match fn with
  | ⟨_, params, ⟨_, stmts⟩⟩ =>
    obtain ⟨index, child, k, body, hentry, -, -, -, -, -, hbody, -, hreserve, hnull, hresult, hsize, huses, hclasses,
      has, rfl⟩ := h
    have hinner := (((Cites.one hreserve rfl).seq (placesAllStmts_cites hbody)).plain hnull rfl).plain hresult rfl
    rw [← hsize] at hinner
    exact (placesClasses_cites hclasses).function has hentry hinner huses

theorem placesClasses_cites {r : Routine} {out : Outer} {Γ : Env} {params : List Param} {i j : Nat}
    (h : PlacesClasses mark debug r out Γ params i j) :
    Cites r i j (mentionsClasses debug (out.map (·.2)) Γ params) := by
  match params with
  | [] =>
    obtain rfl : j = i := h
    exact .nil
  | ⟨_, _, _, some e⟩ :: rest =>
    obtain ⟨k, he, hrest⟩ := h
    exact (places_cites he).seq (placesClasses_cites hrest)
  | ⟨_, _, _, none⟩ :: rest =>
    obtain ⟨has, hrest⟩ := h
    exact (Cites.one has rfl).seq (placesClasses_cites hrest)

/-- What is written to a place mentions what reading it mentions. -/
theorem placesStore_cites {r : Routine} {out : Outer} {Γ : Env} {e : Expr} {i j : Nat}
    (h : PlacesStore mark debug r out Γ e i j) : Cites r i j (mentions debug (out.map (·.2)) Γ e) := by
  match e with
  | .ident _ name =>
    obtain ⟨⟨slot, has, hslot⟩, rfl⟩ := h
    exact Cites.nil.named has rfl hslot
  | .index _ object indices =>
    obtain ⟨k, l, hobject, hindices, has, rfl⟩ := h
    exact ((places_cites hobject).seq (placesAll_cites hindices)).plain has rfl
  | .field _ object name =>
    obtain ⟨k, n, hobject, has, htext, rfl⟩ := h
    exact (places_cites hobject).field has rfl htext
  | .null _ | .nan _ | .bool .. | .int .. | .float .. | .str .. | .unary .. | .binary .. | .logical ..
  | .concat .. | .conditional .. | .call .. | .ref .. | .list .. | .array .. | .table .. | .set ..
  | .function .. => exact h.elim

theorem placesStmt_cites {r : Routine} {out : Outer} {Γ : Env} {s : Stmt} {loop : Loop} {i j : Nat}
    (h : PlacesStmt mark debug r out Γ loop s i j) : Cites r i j (mentionsStmt debug (out.map (·.2)) Γ s) := by
  match s with
  | .expr _ value =>
    obtain ⟨k, hvalue, has, rfl⟩ := h
    exact (places_cites hvalue).plain has rfl
  | .assign _ none target value =>
    obtain ⟨k, hvalue, hstore⟩ := h
    exact (places_cites hvalue).seq (placesStore_cites hstore)
  | .assign _ (some op) target value =>
    obtain ⟨k, l, htarget, hvalue, has, hstore⟩ := h
    have hoperands := (places_cites htarget).seq (places_cites hvalue)
    have hresult := hoperands.plain has (by cases op <;> rfl)
    exact hresult.seq (placesStore_cites hstore)
  | .declare _ names values =>
    simp only [PlacesStmt] at h
    split at h
    · next hempty =>
      obtain rfl := List.isEmpty_iff.mp hempty
      exact nulls_cites h
    · obtain ⟨-, k, hvalues, hdefines⟩ := h
      exact (placesAll_cites hvalues).silent (defines_cites hdefines)
  | .function _ isLocal name fn =>
    simp only [PlacesStmt] at h
    simp only [mentionsStmt]
    split at h
    · next hlocal =>
      rw [if_pos hlocal]
      cases hfind : Γ.inScope? name with
      | some slot =>
        simp only [hfind] at h
        obtain ⟨k, hclosure, has, rfl⟩ := h
        exact (placesClosure_cites hclosure).plain has rfl
      | none =>
        simp only [hfind] at h
        obtain ⟨hnull, hdefine, k, hclosure, has, rfl⟩ := h
        exact (((Cites.one hnull rfl).plain hdefine rfl).seq (placesClosure_cites hclosure)).plain has rfl
    · next hglobal =>
      rw [if_neg hglobal]
      obtain ⟨k, n, hclosure, has, htext, rfl⟩ := h
      exact (placesClosure_cites hclosure).global has rfl htext
  | .print _ newline args =>
    obtain ⟨k, hargs, has, rfl⟩ := h
    exact (placesAll_cites hargs).plain has rfl
  | .branch _ arms otherwise =>
    obtain ⟨k, harms, hotherwise⟩ := h
    exact (placesArms_cites harms).seq (placesOption_cites hotherwise)
  | .whileLoop _ cond body =>
    obtain ⟨k, l, hcond, htest, hbody, hback, rfl⟩ := h
    exact (((places_cites hcond).plain htest rfl).seq (placesBlock_cites hbody)).plain hback rfl
  | .repeatLoop _ ⟨_, stmts⟩ cond =>
    obtain ⟨k, l, hbody, hcond, htest, rfl⟩ := h
    exact ((placesAllStmts_cites hbody).seq (places_cites hcond)).plain htest rfl
  | .forLoop _ counter descending first last step body =>
    obtain ⟨k, l, m, n, o, hfirst, hdefine, hlast, hdefineEnd, hstep, hread, hreadEnd, hcompare, htest,
      hbody, hnext, hback, rfl⟩ := h
    have hbounds := ((places_cites hfirst).plain hdefine rfl).seq (places_cites hlast)
    have hvariables := (hbounds.plain hdefineEnd rfl).seq (placesOptionExpr_cites hstep)
    have hheader := (((hvariables.plain hread rfl).plain hreadEnd rfl).plain hcompare rfl).plain htest rfl
    exact ((hheader.seq (placesBlock_cites hbody)).silent (step_cites hnext)).plain hback rfl
  | .foreachLoop _ key value byRef collection ⟨_, stmts⟩ =>
    obtain ⟨k, l, m, hcollection, hiterate, hdefine, hread, hhasNext, htest, hkey, hread', hnext, hdefine',
      hbody, hback, rfl⟩ := h
    have hiterator := ((places_cites hcollection).plain hiterate rfl).plain hdefine rfl
    have hheader := ((hiterator.plain hread rfl).plain hhasNext rfl).plain htest rfl
    have helement := (((hheader.silent (key_cites hkey)).plain hread' rfl).plain hnext rfl).plain hdefine' rfl
    exact (helement.seq (placesAllStmts_cites hbody)).plain hback rfl
  | .result _ (some e) =>
    obtain ⟨k, he, has, rfl⟩ := h
    exact (places_cites he).plain has rfl
  | .result _ none =>
    obtain ⟨hnull, has, rfl⟩ := h
    exact (Cites.one hnull rfl).plain has rfl
  | .leave _ | .next _ =>
    obtain ⟨⟨targets, -, has⟩, rfl⟩ := h
    exact .one has rfl
  | .pass _ =>
    obtain rfl : j = i := h
    exact .nil
  | .assert _ cond (some message) =>
    obtain ⟨k, l, hcond, hmessage, has, rfl⟩ := h
    exact ((places_cites hcond).seq (places_cites hmessage)).plain has rfl
  | .assert _ cond none =>
    obtain ⟨k, hcond, has, rfl⟩ := h
    exact (places_cites hcond).plain has rfl
  | .throw _ value =>
    obtain ⟨k, hvalue, has, rfl⟩ := h
    exact (places_cites hvalue).plain has rfl
  | .debug _ body =>
    simp only [PlacesStmt] at h
    simp only [mentionsStmt]
    split at h
    · next hdebug =>
      rw [if_pos hdebug]
      exact placesBlock_cites h
    · next hdebug =>
      rw [if_neg hdebug]
      obtain rfl : j = i := h
      exact .nil
  | .block _ body => exact placesBlock_cites h

theorem placesBlock_cites {r : Routine} {out : Outer} {Γ : Env} {body : Block} {loop : Loop} {i j : Nat}
    (h : PlacesBlock mark debug r out Γ loop body i j) :
    Cites r i j (mentionsBlock debug (out.map (·.2)) Γ body) := by
  match body with
  | ⟨_, stmts⟩ => exact placesAllStmts_cites h

theorem placesArms_cites {r : Routine} {out : Outer} {Γ : Env} {arms : List (Expr × Block)} {loop : Loop}
    {exit i j : Nat} (h : PlacesArms mark debug r out Γ loop exit arms i j) :
    Cites r i j (mentionsArms debug (out.map (·.2)) Γ arms) := by
  match arms with
  | [] =>
    obtain rfl : j = i := h
    exact .nil
  | (cond, body) :: rest =>
    obtain ⟨k, l, hcond, htest, hbody, hjump, hrest⟩ := h
    have harm := ((places_cites hcond).plain htest rfl).seq (placesBlock_cites hbody)
    exact (harm.plain hjump rfl).seq (placesArms_cites hrest)

theorem placesOption_cites {r : Routine} {out : Outer} {Γ : Env} {body : Option Block} {loop : Loop} {i j : Nat}
    (h : PlacesOption mark debug r out Γ loop body i j) :
    Cites r i j (mentionsOption debug (out.map (·.2)) Γ body) := by
  match body with
  | none =>
    obtain rfl : j = i := h
    exact .nil
  | some body => exact placesBlock_cites h

theorem placesOptionExpr_cites {r : Routine} {out : Outer} {Γ : Env} {e : Option Expr} {slot i j : Nat}
    (h : PlacesOptionExpr mark debug r out Γ slot e i j) :
    Cites r i j (mentionsOptionExpr debug (out.map (·.2)) Γ e) := by
  match e with
  | none =>
    obtain rfl : j = i := h
    exact .nil
  | some e =>
    obtain ⟨k, he, has, rfl⟩ := h
    exact (places_cites he).plain has rfl

theorem placesAllStmts_cites {r : Routine} {out : Outer} {Γ : Env} {stmts : List Stmt} {loop : Loop} {i j : Nat}
    (h : PlacesAllStmts mark debug r out Γ loop stmts i j) :
    Cites r i j (mentionsAllStmts debug (out.map (·.2)) Γ stmts) := by
  match stmts with
  | [] =>
    obtain rfl : j = i := h
    exact .nil
  | s :: rest =>
    obtain ⟨-, k, hs, hrest⟩ := h
    exact (placesStmt_cites hs).seq (placesAllStmts_cites hrest)

end

/-- The code of a script refers to what its statements write. -/
theorem placesScript_cites {r : Routine} {stmts : List Stmt} (h : PlacesScript mark debug r stmts) :
    Cites r 0 r.code.size (mentionsAllStmts debug [] { depth := 1 } stmts) := by
  obtain ⟨body, -, hbody, -, hreserve, hnull, hresult, hsize, -⟩ := h
  rw [hsize]
  exact (((Cites.one hreserve rfl).seq (placesAllStmts_cites hbody)).plain hnull rfl).plain hresult rfl

end Rill.Layout

namespace Rill.Compile

open Layout (Env)

variable {debug : Bool} {d d' : Draft} {Γ : Env}

-- ---------------------------------------------------------------------------
-- Compiling what follows
-- ---------------------------------------------------------------------------

theorem expression_remembers (h : Good debug d Γ) {use : Use} {e : Expr} (hp : e.Proper)
    (hd : expression use e d = .ok ((), d')) : d.Remembers d' :=
  (expression_spans h hp hd).grows.remembers

theorem closure_remembers (h : Good debug d Γ) {name : String} {fn : Lambda} (hp : fn.Proper)
    (hd : closure name fn d = .ok ((), d')) : d.Remembers d' :=
  (closure_spans h hp hd).grows.remembers

theorem statements_remembers (h : Good debug d Γ) {stmts : List Stmt} (hp : ProperStmts stmts)
    (hd : statements stmts d = .ok ((), d')) : d.Remembers d' :=
  (statements_spans h hp hd).grows.remembers

end Rill.Compile

namespace Rill

open Compile Layout

/-- The constants of a compiled script, of its routine and of every routine in it. The instructions refer to the
integers, floats, texts, globals and fields that the script writes, in the same order, each to the entry that holds
it. No pool has an entry twice or a small integer, and every pool is the inverse of a hash table through which it
can be filled. An index stands for the constant that it was given for, and goes on to do so while whatever follows is
compiled, in the same routine and in functions inside it. -/
theorem compile_constants {text file : String} {debug : Bool} {s : Script} {r : Routine}
    (hparse : parse text = .ok s) (hcompile : compile s file debug = .ok r) :
    Cites r 0 r.code.size (mentionsAllStmts (s.debug.getD debug) [] { depth := 1 } s.body.stmts) ∧
      (∀ q, Nested r q → q.pools.Distinct ∧ q.pools.Mirrored ∧ ∃ body, Cites q 0 q.code.size body) ∧
      (∀ d d' k,
        (∀ n, integerConstant n d = .ok (k, d') →
          d'.builder.pools.mention? (.integer k) = some (.integer n) ∧ d.Remembers d') ∧
        (∀ x, floatConstant x d = .ok (k, d') →
          d'.builder.pools.mention? (.float k) = some (.float x) ∧ d.Remembers d') ∧
        ∀ name, stringConstant name d = .ok (k, d') →
          d'.builder.pools.strings[k]? = some name ∧ d.Remembers d') ∧
      ∀ debug d d' Γ, Good debug d Γ →
        (∀ use e, e.Proper → expression use e d = .ok ((), d') → d.Remembers d') ∧
        (∀ name fn, fn.Proper → closure name fn d = .ok ((), d') → d.Remembers d') ∧
        ∀ stmts, ProperStmts stmts → statements stmts d = .ok ((), d') → d.Remembers d' := by
  have hplaces := compile_places (parse_proper hparse) hcompile
  have hcites := placesScript_cites hplaces
  have huses : r.UsesChildren := by
    obtain ⟨_, _, _, _, _, _, _, _, huses⟩ := hplaces
    exact huses
  refine ⟨hcites, fun q hq => ?_, fun d d' k => ?_, fun debug d d' Γ h => ?_⟩
  · have hpools := compile_pooled hcompile q hq
    obtain ⟨body, hbody, -⟩ := hcites.nested huses hq
    exact ⟨hpools.distinct, hpools, body, hbody⟩
  · exact ⟨fun _ => integerConstant_remembers, fun _ => floatConstant_remembers, fun _ => stringConstant_remembers⟩
  · exact ⟨fun _ _ => expression_remembers h, fun _ _ => closure_remembers h, fun _ => statements_remembers h⟩

/-- A function in a script; a wide integer, a float and a name occur repeatedly, in the script and in the
function, and a text is the same as the name of a global. -/
def constantsText : String :=
  "b = 70000 + 70000 + 1.5 + 1.5 + 7\nfunction f(x as b)\n  x.size = 70000 + b\n  return \"b\"\nend\nreturn f(b).size"

theorem compile_constants_repeated :
    ∃ s r, parse constantsText = .ok s ∧ compile s "constants.rill" false = .ok r ∧
      Cites r 0 r.code.size (mentionsAllStmts (s.debug.getD false) [] { depth := 1 } s.body.stmts) ∧
      (∀ q, Nested r q → q.pools.Distinct ∧ q.pools.Mirrored ∧ ∃ body, Cites q 0 q.code.size body) ∧
      (∀ d d' k,
        (∀ n, integerConstant n d = .ok (k, d') →
          d'.builder.pools.mention? (.integer k) = some (.integer n) ∧ d.Remembers d') ∧
        (∀ x, floatConstant x d = .ok (k, d') →
          d'.builder.pools.mention? (.float k) = some (.float x) ∧ d.Remembers d') ∧
        ∀ name, stringConstant name d = .ok (k, d') →
          d'.builder.pools.strings[k]? = some name ∧ d.Remembers d') ∧
      ∀ debug d d' Γ, Good debug d Γ →
        (∀ use e, e.Proper → expression use e d = .ok ((), d') → d.Remembers d') ∧
        (∀ name fn, fn.Proper → closure name fn d = .ok ((), d') → d.Remembers d') ∧
        ∀ stmts, ProperStmts stmts → statements stmts d = .ok ((), d') → d.Remembers d' := by
  have hrun : ((parse constantsText).toOption.bind fun s =>
      (compile s "constants.rill" false).toOption).isSome = true := by
    decide +kernel
  cases hparse : parse constantsText with
  | error e => simp [hparse, Except.toOption] at hrun
  | ok s =>
    cases hcompile : compile s "constants.rill" false with
    | error e => simp [hparse, hcompile, Except.toOption] at hrun
    | ok r => exact ⟨s, r, rfl, hcompile, compile_constants hparse hcompile⟩

end Rill
