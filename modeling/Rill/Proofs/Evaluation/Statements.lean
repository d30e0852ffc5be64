-- SUMMARY: The code of an expression delivers its value, and that of a statement follows what the statement does.
import Mathlib.Data.List.Induction
import Rill.Proofs.Depth.Slots
import Rill.Proofs.Evaluation.Courses
import Rill.Proofs.Evaluation.Instructions

/-!
# Expressions and statements

The code of an expression of the core puts the value of the expression on the operands and changes
nothing else, or fails as the evaluation does. So it is for expressions in a row.

The machine follows every statement of the core through its code. The loops come first, each for any
courses in the place of their conditions and bodies; the induction over the syntax tree then puts the
statements together.
-/

namespace Rill.Evaluation

open Layout

-- ---------------------------------------------------------------------------
-- Expressions
-- ---------------------------------------------------------------------------

section Expressions

variable {S : Stage} {Γ : Env} {debug : Bool}

/-- Where the values of expressions in a row go. -/
theorem Stage.Delivers.cons {j : Nat} {σ : Store} {ops : List Value} {v : Value}
    {x : Except Failure (List Value)} {m : Machine}
    (h : S.Delivers (fun vs => S.state j σ (vs.reverse ++ v :: ops)) σ x m) :
    S.Delivers (fun vs => S.state j σ (vs.reverse ++ ops)) σ (do return v :: (← x)) m := by
  cases x with
  | error e => exact h
  | ok vs =>
    have hvalues : (v :: vs).reverse ++ ops = vs.reverse ++ v :: ops := by simp
    change S.Leads (· = S.state j σ ((v :: vs).reverse ++ ops)) 0 m
    rw [hvalues]
    exact h

theorem evaluateAll_length {es : List Expr} {σ : Store} {vs : List Value}
    (h : evaluateAll Γ es σ = .ok vs) : vs.length = es.length := by
  induction es generalizing vs with
  | nil =>
    obtain rfl : [] = vs := Except.ok.inj h
    rfl
  | cons e rest ih =>
    rw [evaluateAll] at h
    cases he : evaluate Γ e σ with
    | error _ => rw [he] at h; cases h
    | ok v =>
      cases hrest : evaluateAll Γ rest σ with
      | error _ => rw [he, hrest] at h; cases h
      | ok vs' =>
        rw [he, hrest] at h
        obtain rfl : v :: vs' = vs := Except.ok.inj h
        rw [List.length_cons, List.length_cons, ih hrest]

theorem evaluateOption_isSome {e : Option Expr} {σ : Store} {v : Option Value}
    (h : evaluateOption Γ e σ = .ok v) : v.isSome = e.isSome := by
  cases e with
  | none =>
    obtain rfl : none = v := Except.ok.inj h
    rfl
  | some e =>
    rw [evaluateOption] at h
    cases he : evaluate Γ e σ with
    | error _ => rw [he] at h; cases h
    | ok w =>
      rw [he] at h
      obtain rfl : some w = v := Except.ok.inj h
      rfl

mutual

theorem evaluate_delivers (hΓ : S.Holds Γ) {e : Expr} {i j : Nat}
    (h : Places anywhere debug S.routine [] Γ .value e i j) (hcore : e.isCore = true) (ops : List Value)
    (σ : Store) : S.Delivers (fun v => S.state j σ (v :: ops)) σ (evaluate Γ e σ) (S.state i σ ops) := by
  match e, hcore, h with
  | .null _, _, ⟨has, hj⟩ => exact hj ▸ Stage.pushNull has
  | .nan _, _, ⟨has, hj⟩ => exact hj ▸ Stage.pushNan has
  | .bool _ b, _, ⟨has, hj⟩ => exact hj ▸ Stage.pushBool has
  | .int _ n, _, ⟨has, hj⟩ => exact hj ▸ Stage.pushInteger has
  | .float _ x, _, ⟨⟨k, has, hk⟩, hj⟩ => exact hj ▸ Stage.pushFloat has hk
  | .str _ s, _, ⟨⟨k, has, hk⟩, hj⟩ => exact hj ▸ Stage.pushStr has hk
  | .ident _ name, _, ⟨⟨slot, has, hslot⟩, hj⟩ => exact hj ▸ Stage.read hΓ has hslot
  | .unary _ op operand, hcore, ⟨k, hoperand, has, hj⟩ =>
    subst hj
    exact (evaluate_delivers hΓ hoperand hcore ops σ).bind fun v _ => Stage.unary has
  | .binary _ op left right, hcore, ⟨k, l, hleft, hright, has, hj⟩ =>
    subst hj
    obtain ⟨hl, hr⟩ := Bool.and_eq_true_iff.mp hcore
    refine (evaluate_delivers hΓ hleft hl ops σ).bind fun a _ => ?_
    exact (evaluate_delivers hΓ hright hr (a :: ops) σ).bind fun b _ => Stage.binary has
  | .logical _ op left right, hcore, ⟨k, hleft, has, hright⟩ =>
    obtain ⟨hl, hr⟩ := Bool.and_eq_true_iff.mp hcore
    refine (evaluate_delivers hΓ hleft hl ops σ).bind fun a _ => ?_
    have hjump : S.Leads
        (· = if σ.heap.truth a = op.decider then S.state j σ (a :: ops) else S.state (k + 1) σ ops) 1
        (S.state k σ (a :: ops)) :=
      Stage.jumpKeeping has
    split
    · rename_i htruth
      rw [if_pos htruth] at hjump
      exact hjump.fewer (Nat.zero_le 1)
    · rename_i htruth
      rw [if_neg htruth] at hjump
      exact .before hjump (evaluate_delivers hΓ hright hr ops σ)
  | .concat _ parts, hcore, ⟨k, hparts, has, hj⟩ =>
    subst hj
    refine (evaluateAll_delivers hΓ hparts hcore ops σ).bind fun vs hvs => ?_
    rw [← evaluateAll_length hvs] at has
    exact Stage.concat has
  | .conditional _ cond whenTrue whenFalse, hcore, ⟨k, l, hcond, has, htrue, hexit, hfalse⟩ =>
    obtain ⟨hcores, hf⟩ := Bool.and_eq_true_iff.mp hcore
    obtain ⟨hc, ht⟩ := Bool.and_eq_true_iff.mp hcores
    refine (evaluate_delivers hΓ hcond hc ops σ).bind fun v _ => ?_
    have hjump : S.Leads (· = S.state (if σ.heap.truth v = false then l + 1 else k + 1) σ ops) 1
        (S.state k σ (v :: ops)) :=
      Stage.jumpTaking has rfl
    cases htruth : σ.heap.truth v with
    | true =>
      rw [htruth] at hjump
      exact .before hjump ((evaluate_delivers hΓ htrue ht ops σ).on fun v => Stage.jump hexit)
    | false =>
      rw [htruth] at hjump
      exact .before hjump (evaluate_delivers hΓ hfalse hf ops σ)
termination_by structural e

theorem evaluateAll_delivers (hΓ : S.Holds Γ) {es : List Expr} {i j : Nat}
    (h : PlacesAll anywhere debug S.routine [] Γ es i j) (hcore : Expr.areCore es = true)
    (ops : List Value) (σ : Store) :
    S.Delivers (fun vs => S.state j σ (vs.reverse ++ ops)) σ (evaluateAll Γ es σ) (S.state i σ ops) := by
  match es, hcore, h with
  | [], _, hj => exact .here (by rw [hj]; rfl)
  | e :: rest, hcore, ⟨k, he, hrest⟩ =>
    obtain ⟨hcore, hcores⟩ := Bool.and_eq_true_iff.mp hcore
    refine (evaluate_delivers hΓ he hcore ops σ).bind fun v _ => ?_
    exact (evaluateAll_delivers hΓ hrest hcores (v :: ops) σ).cons
termination_by structural es

end

end Expressions

-- ---------------------------------------------------------------------------
-- Slots in a row
-- ---------------------------------------------------------------------------

namespace Store

theorem bind_comm (σ : Store) {k n : Nat} (h : k ≠ n) (v w : Value) :
    (σ.bind k v).bind n w = (σ.bind n w).bind k v := by
  simp only [bind, Store.mk.injEq, and_true, true_and]
  funext l
  grind

/-- The last slot can be bound first. -/
theorem bindFrom_concat (σ : Store) (first : Nat) (vs : List Value) (v : Value) :
    σ.bindFrom first (vs ++ [v]) = (σ.bind (first + vs.length) v).bindFrom first vs := by
  induction vs generalizing σ first with
  | nil => rfl
  | cons w rest ih =>
    have hlast : first + (w :: rest).length = first + 1 + rest.length := by
      rw [List.length_cons]
      omega
    rw [List.cons_append, bindFrom, bindFrom, ih, bind_comm _ (by omega), hlast]

end Store

namespace Stage

variable {S : Stage} {fuel i j k l : Nat} {loop : Loop} {σ : Store}

theorem defines_slots {vs : List Value} {first : Nat}
    (h : PlacesDefines S.routine (List.range' first vs.length).reverse i j)
    (hroom : first + vs.length ≤ S.routine.frameSize) :
    S.Leads (· = S.state j (σ.bindFrom first vs) []) 0 (S.state i σ vs.reverse) := by
  induction vs using List.reverseRecOn generalizing i σ with
  | nil =>
    obtain rfl : j = i := h
    exact .here rfl
  | append_singleton vs v ih =>
    rw [List.length_append, List.length_singleton] at h hroom
    rw [List.range'_concat, List.reverse_append, Nat.one_mul] at h
    obtain ⟨hdefine, hrest⟩ := h
    rw [List.reverse_append, Store.bindFrom_concat]
    have hbind : S.Leads (· = S.state (i + 1) (σ.bind (first + vs.length) v) vs.reverse) 1
        (S.state i σ (v :: vs.reverse)) :=
      define hdefine (by omega)
    exact (hbind.onward (ih hrest (by omega))).fewer (Nat.zero_le _)

theorem defines_nulls {names : List String} {first : Nat}
    (h : PlacesNulls S.routine (List.range' first names.length) i j)
    (hroom : first + names.length ≤ S.routine.frameSize) :
    S.Leads (· = S.state j (σ.bindFrom first (names.map fun _ => .null)) []) 0 (S.state i σ []) := by
  induction names generalizing first i σ with
  | nil =>
    obtain rfl : j = i := h
    exact .here rfl
  | cons name rest ih =>
    rw [List.length_cons] at hroom
    obtain ⟨hnull, hdefine, hrest⟩ := h
    have hpush : S.Leads (· = S.state (i + 1) σ [.null]) 0 (S.state i σ []) := pushNull hnull
    have hbind : S.Leads (· = S.state (i + 1 + 1) (σ.bind first .null) []) 1 (S.state (i + 1) σ [.null]) :=
      define hdefine (by omega)
    exact ((hpush.onward hbind).onward (ih hrest (by omega))).fewer (Nat.zero_le _)

-- ---------------------------------------------------------------------------
-- Loops
-- ---------------------------------------------------------------------------

section Loops

variable {cond : Store → Except Failure Value} {body : Course}

theorem while_follows (hcond : ∀ σ, S.Delivers (fun v => S.state k σ [v]) σ (cond σ) (S.state i σ []))
    (hexit : S.routine.Has k (.jump .ifFalse j))
    (hbody : ∀ σ, S.Follows fuel (some (j, i)) 0 l (S.state (k + 1) σ []) (body σ))
    (hback : S.routine.Has l (.jump .always i)) :
    S.Follows fuel loop 0 j (S.state i σ []) (rounds (choose cond (again body) (stop .leave)) fuel σ) := by
  refine .rounds (fun σ => .choose (hcond σ) hexit rfl ?_ ?_) (Nat.le_refl fuel)
  · exact .again ((hbody σ).on fun σ => jump hback)
  · exact ⟨_, rfl, .here rfl⟩

theorem repeat_follows (hbody : ∀ σ, S.Follows fuel (some (j, k)) 0 k (S.state i σ []) (body σ))
    (hcond : ∀ σ, S.Delivers (fun v => S.state l σ [v]) σ (cond σ) (S.state k σ []))
    (hback : S.routine.Has l (.jump .ifFalse i)) (hj : j = l + 1) :
    S.Follows fuel loop 0 j (S.state i σ [])
      (rounds (andThen (again body) (choose cond (stop .leave) (stop .normal))) fuel σ) := by
  refine .rounds (fun σ => .andThen (.again (hbody σ)) fun σ => ?_) (Nat.le_refl fuel)
  refine .choose (hcond σ) hback rfl ?_ ?_
  · exact ⟨_, rfl, .here (by rw [hj]; rfl)⟩
  · exact .here rfl

/-- Two slots are read and an operator is applied. -/
theorem operates {a b : Nat} {op : BinaryOp} (ha : S.routine.Has i (.read (.frame a) .value))
    (hb : S.routine.Has (i + 1) (.read (.frame b) .value)) (hop : S.routine.Has (i + 2) (.binary op))
    (hroom : a < S.routine.frameSize ∧ b < S.routine.frameSize) :
    S.Delivers (fun v => S.state (i + 3) σ [v]) σ (σ.heap.binary op (σ.value a) (σ.value b))
      (S.state i σ []) :=
  .before (readSlot ha hroom.1) (.before (readSlot hb hroom.2) (binary hop))

theorem advance_follows {slot : Nat} {stepSlot : Option Nat} {descending : Bool}
    (h : PlacesStep S.routine slot stepSlot descending i j) (hslot : slot < S.routine.frameSize)
    (hstep : ∀ k ∈ stepSlot, k < S.routine.frameSize) :
    S.Follows fuel loop 0 j (S.state i σ []) (advance slot stepSlot descending σ) := by
  cases stepSlot with
  | none =>
    obtain ⟨has, rfl⟩ := h
    unfold advance
    exact .withValue (count has hslot) fun v _ => .change (.here rfl)
  | some step =>
    obtain ⟨ha, hb, hop, hwrite, rfl⟩ := h
    unfold advance
    refine .withValue (operates ha hb hop ⟨hslot, hstep step rfl⟩) fun v _ => ?_
    exact .change ((writeSlot hwrite hslot).fewer (Nat.zero_le 1))

theorem for_follows {slot n o : Nat} {stepSlot : Option Nat} {descending : Bool}
    (ha : S.routine.Has i (.read (.frame slot) .value))
    (hb : S.routine.Has (i + 1) (.read (.frame (slot + 1)) .value))
    (htest : S.routine.Has (i + 2) (.binary (if descending then .lt else .gt)))
    (hexit : S.routine.Has (i + 3) (.jump .ifTrue j))
    (hbody : ∀ σ, S.Follows fuel (some (j, n)) 0 n (S.state (i + 4) σ []) (body σ))
    (hadvance : PlacesStep S.routine slot stepSlot descending n o)
    (hback : S.routine.Has o (.jump .always i)) (hslot : slot + 1 < S.routine.frameSize)
    (hstep : ∀ k ∈ stepSlot, k < S.routine.frameSize) :
    S.Follows fuel loop 0 j (S.state i σ [])
      (rounds
        (choose (passed slot descending) (stop .leave)
          (andThen (again body) (advance slot stepSlot descending)))
        fuel σ) := by
  have hslot' : slot < S.routine.frameSize := by omega
  refine .rounds (fun σ => .choose (operates ha hb htest ⟨hslot', hslot⟩) hexit rfl ?_ ?_) (Nat.le_refl fuel)
  · exact ⟨_, rfl, .here rfl⟩
  · refine .andThen (.again (hbody σ)) fun σ => ?_
    exact (advance_follows hadvance hslot' hstep).on fun σ => jump hback

end Loops

-- ---------------------------------------------------------------------------
-- Statements without statements in them
-- ---------------------------------------------------------------------------

section Simple

variable {Γ : Env} {debug : Bool} {step : Option Expr}

theorem counterNames_length (counter : String) (step : Option Expr) :
    (counterNames counter step).length = 2 + step.toList.length := by
  cases step <;> rfl

/-- The slots that the visible names have are slots of the frame. -/
theorem Holds.of_hides (hΓ : Hides Γ []) (hroom : Γ.taken ≤ S.routine.frameSize) : S.Holds Γ := by
  intro name k hfind
  simp only [Env.find?, Option.map_eq_some_iff] at hfind
  obtain ⟨b, hb, rfl⟩ := hfind
  exact Nat.lt_of_lt_of_le (hΓ.names b (List.mem_of_find?_eq_some hb)).1 hroom

theorem store_follows (hΓ : S.Holds Γ) {target : Expr} (hname : target.isName = true) {v : Value}
    (h : PlacesStore anywhere debug S.routine [] Γ target i j) :
    S.Follows fuel loop 0 j (S.state i σ [v]) (store Γ target v σ) := by
  cases target with
  | ident _ name =>
    obtain ⟨⟨slot, has, hslot⟩, rfl⟩ := h
    rw [store]
    exact .change ((write hΓ has hslot).fewer (Nat.zero_le 1))
  | _ => simp [Expr.isName] at hname

theorem defineOption_follows (hΓ : S.Holds Γ) {slot : Nat} (hslot : ∀ e ∈ step, slot < S.routine.frameSize)
    (hcore : step.all Expr.isCore = true)
    (h : PlacesOptionExpr anywhere debug S.routine [] Γ slot step i j) :
    S.Follows fuel loop 0 j (S.state i σ []) (defineOption slot Γ step σ) := by
  cases step with
  | none =>
    obtain rfl : j = i := h
    exact .here rfl
  | some e =>
    obtain ⟨k, he, has, rfl⟩ := h
    rw [defineOption]
    exact .define (evaluate_delivers hΓ he hcore [] σ) has (hslot e rfl)

theorem isCore_of_isName {e : Expr} (h : e.isName = true) : e.isCore = true := by
  cases e with
  | ident _ _ => rfl
  | _ => simp [Expr.isName] at h

theorem require_follows {v : Value} {message : Option Value}
    (has : S.routine.Has i (.assert (if message.isSome then 2 else 1))) :
    S.Follows fuel loop 0 (i + 1) (S.state i σ (message.toList ++ [v])) (require v message σ) := by
  have hassert : if σ.heap.truth v then
        S.Leads (· = S.state (i + 1) σ []) 1 (S.state i σ (message.toList ++ [v]))
      else
        S.Fails (Fault.assertion (message.elim "assertion failed" σ.heap.text)).failure σ
          (S.state i σ (message.toList ++ [v])) :=
    assert has
  unfold require
  split
  · rename_i htruth
    rw [if_pos htruth] at hassert
    exact hassert.fewer (Nat.zero_le 1)
  · rename_i htruth
    rw [if_neg htruth] at hassert
    exact .here hassert

end Simple

end Stage

-- ---------------------------------------------------------------------------
-- All statements
-- ---------------------------------------------------------------------------

variable {S : Stage} {debug : Bool} {fuel : Nat}

mutual

theorem execute_follows {Γ : Env} {s : Stmt} {loop : Loop} {i j : Nat}
    (h : PlacesStmt anywhere debug S.routine [] Γ loop s i j) (hcore : s.isCore = true) (hΓ : Hides Γ [])
    (hroom : (envAfter debug Γ s).taken ≤ S.routine.frameSize) (σ : Store) :
    S.Follows fuel loop 0 j (S.state i σ []) (execute debug fuel Γ s σ) := by
  have hroom' : Γ.taken ≤ S.routine.frameSize := Nat.le_trans (envAfter_extends debug Γ s).taken hroom
  have hholds : S.Holds Γ := .of_hides hΓ hroom'
  match s with
  | .expr _ value =>
    obtain ⟨k, hvalue, hpop, rfl⟩ := h
    rw [execute]
    refine .withValue (evaluate_delivers hholds hvalue hcore [] σ) fun v _ => ?_
    exact (Stage.pop hpop).fewer (Nat.zero_le 1)
  | .assign _ none target value =>
    obtain ⟨k, hvalue, hstore⟩ := h
    obtain ⟨hname, hcore⟩ := Bool.and_eq_true_iff.mp hcore
    rw [execute]
    refine .withValue (evaluate_delivers hholds hvalue hcore [] σ) fun v _ => ?_
    exact Stage.store_follows hholds hname hstore
  | .assign _ (some op) target value =>
    obtain ⟨k, l, htarget, hvalue, hop, hstore⟩ := h
    obtain ⟨hname, hcore⟩ := Bool.and_eq_true_iff.mp hcore
    rw [execute]
    refine .withValue (evaluate_delivers hholds htarget (Stage.isCore_of_isName hname) [] σ) fun a _ => ?_
    refine .withValue (evaluate_delivers hholds hvalue hcore [a] σ) fun b _ => ?_
    refine .withValue (Stage.compound hop) fun v _ => ?_
    exact Stage.store_follows hholds hname hstore
  | .declare _ names values =>
    simp only [envAfter, Env.declareAll_taken] at hroom
    simp only [PlacesStmt] at h
    rw [execute]
    split at h
    · rename_i hempty
      rw [if_pos hempty]
      exact .change (Stage.defines_nulls h hroom)
    · rename_i hgiven
      obtain ⟨hlength, k, hvalues, hdefines⟩ := h
      rw [if_neg hgiven]
      refine .withValue (evaluateAll_delivers hholds hvalues hcore [] σ) fun vs hvs => ?_
      have hnames : names.length = vs.length := by rw [evaluateAll_length hvs, hlength]
      rw [hnames] at hdefines hroom
      rw [List.append_nil]
      exact .change (Stage.defines_slots hdefines hroom)
  | .print _ newline args =>
    obtain ⟨k, hargs, hprint, rfl⟩ := h
    rw [execute]
    refine .withValue (evaluateAll_delivers hholds hargs hcore [] σ) fun vs hvs => ?_
    rw [← evaluateAll_length hvs] at hprint
    exact .change ((Stage.print hprint).fewer (Nat.zero_le 1))
  | .branch _ arms none =>
    obtain ⟨k, harms, hend⟩ := h
    obtain rfl : j = k := hend
    rw [execute]
    exact executeArms_follows harms hcore hΓ hroom (fun _ => .nothing) σ
  | .branch _ arms (some body) =>
    obtain ⟨k, harms, hbody⟩ := h
    obtain ⟨hcore, hcoreBody⟩ := Bool.and_eq_true_iff.mp hcore
    have hroomArms := Nat.le_trans (envAfterBlock_extends debug (envAfterArms debug Γ arms) body).taken hroom
    have hinside := hΓ.mono (envAfterArms_extends debug Γ arms)
    rw [execute]
    exact executeArms_follows harms hcore hΓ hroomArms
      (fun σ => executeBlock_follows hbody hcoreBody hinside hroom σ) σ
  | .whileLoop _ cond body =>
    obtain ⟨k, l, hcond, hexit, hbody, hback, rfl⟩ := h
    obtain ⟨hcore, hcoreBody⟩ := Bool.and_eq_true_iff.mp hcore
    rw [execute]
    exact Stage.while_follows (fun σ => evaluate_delivers hholds hcond hcore [] σ) hexit
      (fun σ => executeBlock_follows hbody hcoreBody hΓ hroom σ) hback
  | .repeatLoop _ ⟨_, stmts⟩ cond =>
    obtain ⟨k, l, hbody, hcond, hback, hj⟩ := h
    obtain ⟨hcoreBody, hcore⟩ := Bool.and_eq_true_iff.mp hcore
    have hinside : Hides (envAfterAll debug Γ.enter stmts) [] :=
      (hΓ.mono (.enter Γ)).mono (envAfterAll_extends debug _ stmts)
    rw [execute]
    exact Stage.repeat_follows (fun σ => executeAll_follows hbody hcoreBody (hΓ.mono (.enter Γ)) hroom σ)
      (fun σ => evaluate_delivers (.of_hides hinside hroom) hcond hcore [] σ) hback hj
  | .forLoop _ counter descending first last step body =>
    obtain ⟨k, l, m, n, o, hfirst, hcounter, hlast, hend, hstep, ha, hb, htest, hexit, hbody, hadvance, hback,
      rfl⟩ := h
    obtain ⟨hcore, hcoreBody⟩ := Bool.and_eq_true_iff.mp hcore
    obtain ⟨hcore, hcoreStep⟩ := Bool.and_eq_true_iff.mp hcore
    obtain ⟨hcoreFirst, hcoreLast⟩ := Bool.and_eq_true_iff.mp hcore
    -- The slots of the counter, the end and the step come first among those of the loop.
    have hinside := hΓ.mono (.enter Γ)
    have hbound := hinside.mono (.declare _ counter)
    have hended := hbound.mono (.declare _ "$end")
    have htaken := Nat.le_trans
      (envAfterBlock_extends debug (Γ.enter.declareAll (counterNames counter step)) body).taken hroom
    rw [Env.declareAll_taken, Env.enter_taken, Stage.counterNames_length] at htaken
    have hslot : Γ.taken + 1 < S.routine.frameSize := by omega
    have hstepSlot (e : Expr) (he : e ∈ step) : Γ.taken + 2 < S.routine.frameSize := by
      rw [he, Option.toList_some, List.length_singleton] at htaken
      omega
    rw [execute]
    refine .andThen (.define (evaluate_delivers (.of_hides hinside hroom') hfirst hcoreFirst [] σ) hcounter
      (by omega)) fun σ => ?_
    refine .andThen (.define (evaluate_delivers (.of_hides hbound (by simp; omega)) hlast hcoreLast [] σ) hend
      hslot) fun σ => ?_
    refine .andThen (Stage.defineOption_follows (.of_hides hended (by simp; omega)) hstepSlot hcoreStep hstep)
      fun σ => ?_
    refine Stage.for_follows ha hb htest hexit (fun σ => ?_) hadvance hback hslot ?_
    · exact executeBlock_follows hbody hcoreBody (hinside.mono (.declareAll _ _)) hroom σ
    · intro n hn
      obtain ⟨e, he, rfl⟩ := Option.map_eq_some_iff.mp hn
      exact hstepSlot e he
  | .result _ none =>
    obtain ⟨hnull, hresult, -⟩ := h
    rw [execute]
    have hvalue : S.Delivers (fun v => S.state (i + 1) σ [v.getD .null]) σ (evaluateOption Γ none σ)
        (S.state i σ []) :=
      Stage.pushNull hnull
    refine .withValue hvalue fun v _ => ?_
    exact .here ⟨i + 1, hresult, rfl⟩
  | .result _ (some e) =>
    obtain ⟨k, he, hresult, -⟩ := h
    have hvalue : S.Delivers (fun v => S.state k σ [v.getD .null]) σ (evaluateOption Γ (some e) σ)
        (S.state i σ []) :=
      .map (evaluate_delivers hholds he hcore [] σ)
    rw [execute]
    refine .withValue hvalue fun v _ => ?_
    exact .here ⟨k, hresult, rfl⟩
  | .leave _ =>
    obtain ⟨⟨targets, hloop, hjump⟩, -⟩ := h
    exact ⟨targets, hloop, (Stage.jump hjump).fewer (Nat.zero_le 1)⟩
  | .next _ =>
    obtain ⟨⟨targets, hloop, hjump⟩, -⟩ := h
    exact ⟨targets, hloop, Stage.jump hjump⟩
  | .pass _ =>
    obtain rfl : j = i := h
    exact .here rfl
  | .assert _ cond none =>
    obtain ⟨k, hcond, hassert, rfl⟩ := h
    obtain ⟨hcore, -⟩ := Bool.and_eq_true_iff.mp hcore
    rw [execute]
    refine .withValue (evaluate_delivers hholds hcond hcore [] σ) fun v _ => ?_
    have hmessage : S.Delivers (fun w => S.state k σ (w.toList ++ [v])) σ (evaluateOption Γ none σ)
        (S.state k σ [v]) :=
      .here rfl
    refine .withValue hmessage fun w hw => ?_
    exact Stage.require_follows (by rw [evaluateOption_isSome hw]; exact hassert)
  | .assert _ cond (some message) =>
    obtain ⟨k, l, hcond, hmessage, hassert, rfl⟩ := h
    obtain ⟨hcore, hcoreMessage⟩ := Bool.and_eq_true_iff.mp hcore
    rw [execute]
    refine .withValue (evaluate_delivers hholds hcond hcore [] σ) fun v _ => ?_
    have hmessage : S.Delivers (fun w => S.state l σ (w.toList ++ [v])) σ (evaluateOption Γ (some message) σ)
        (S.state k σ [v]) :=
      .map (evaluate_delivers hholds hmessage hcoreMessage [v] σ)
    refine .withValue hmessage fun w hw => ?_
    exact Stage.require_follows (by rw [evaluateOption_isSome hw]; exact hassert)
  | .throw _ value =>
    obtain ⟨k, hvalue, hthrow, -⟩ := h
    rw [execute]
    refine .withValue (evaluate_delivers hholds hvalue hcore [] σ) fun v _ => ?_
    exact .here (Stage.throw hthrow)
  | .debug _ body =>
    simp only [PlacesStmt] at h
    simp only [envAfter] at hroom
    rw [execute]
    split at h
    · rename_i hdebug
      rw [if_pos hdebug] at hroom ⊢
      exact executeBlock_follows h hcore hΓ hroom σ
    · rename_i hdebug
      rw [if_neg hdebug, h]
      exact .here rfl
  | .block _ body =>
    rw [execute]
    exact executeBlock_follows h hcore hΓ hroom σ
termination_by structural s

theorem executeAll_follows {Γ : Env} {stmts : List Stmt} {loop : Loop} {i j : Nat}
    (h : PlacesAllStmts anywhere debug S.routine [] Γ loop stmts i j) (hcore : Stmt.areCore stmts = true)
    (hΓ : Hides Γ []) (hroom : (envAfterAll debug Γ stmts).taken ≤ S.routine.frameSize) (σ : Store) :
    S.Follows fuel loop 0 j (S.state i σ []) (executeAll debug fuel Γ stmts σ) := by
  match stmts with
  | [] =>
    obtain rfl : j = i := h
    exact .here rfl
  | s :: rest =>
    obtain ⟨-, k, hs, hrest⟩ := h
    obtain ⟨hcore, hcores⟩ := Bool.and_eq_true_iff.mp hcore
    have hroom' := Nat.le_trans (envAfterAll_extends debug (envAfter debug Γ s) rest).taken hroom
    rw [executeAll]
    refine .andThen (execute_follows hs hcore hΓ hroom' σ) fun σ => ?_
    exact executeAll_follows hrest hcores (hΓ.mono (envAfter_extends debug Γ s)) hroom σ
termination_by structural stmts

theorem executeBlock_follows {Γ : Env} {body : Block} {loop : Loop} {i j : Nat}
    (h : PlacesBlock anywhere debug S.routine [] Γ loop body i j) (hcore : body.isCore = true)
    (hΓ : Hides Γ []) (hroom : (envAfterBlock debug Γ body).taken ≤ S.routine.frameSize) (σ : Store) :
    S.Follows fuel loop 0 j (S.state i σ []) (executeBlock debug fuel Γ body σ) := by
  match body with
  | ⟨_, stmts⟩ =>
    rw [executeBlock]
    exact executeAll_follows h hcore (hΓ.mono (.enter Γ)) hroom σ
termination_by structural body

theorem executeArms_follows {Γ : Env} {arms : List (Expr × Block)} {otherwise : Course} {loop : Loop}
    {i j k : Nat} (h : PlacesArms anywhere debug S.routine [] Γ loop j arms i k)
    (hcore : Stmt.armsAreCore arms = true) (hΓ : Hides Γ [])
    (hroom : (envAfterArms debug Γ arms).taken ≤ S.routine.frameSize)
    (hotherwise : ∀ σ, S.Follows fuel loop 0 j (S.state k σ []) (otherwise σ)) (σ : Store) :
    S.Follows fuel loop 0 j (S.state i σ []) (executeArms debug fuel Γ arms otherwise σ) := by
  match arms with
  | [] =>
    obtain rfl : k = i := h
    exact hotherwise σ
  | (cond, body) :: rest =>
    obtain ⟨l, m, hcond, htest, hbody, hexit, hrest⟩ := h
    obtain ⟨hcore, hcores⟩ := Bool.and_eq_true_iff.mp hcore
    obtain ⟨hcoreCond, hcoreBody⟩ := Bool.and_eq_true_iff.mp hcore
    have hroomBody := Nat.le_trans (envAfterArms_extends debug (envAfterBlock debug Γ body) rest).taken hroom
    have hroom' := Nat.le_trans (envAfterBlock_extends debug Γ body).taken hroomBody
    rw [executeArms]
    refine (Stage.Follows.choose (evaluate_delivers (.of_hides hΓ hroom') hcond hcoreCond [] σ) htest rfl
      ?_ ?_).fewer (Nat.le_refl fuel) (Nat.zero_le 1)
    · exact (executeBlock_follows hbody hcoreBody hΓ hroomBody σ).on fun σ => Stage.jump hexit
    · exact executeArms_follows hrest hcores (hΓ.mono (envAfterBlock_extends debug Γ body)) hroom
        hotherwise σ
termination_by structural arms

end

end Rill.Evaluation
