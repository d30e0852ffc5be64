-- SUMMARY: Whatever a machine does, references to cells lead somewhere, and cells never get fewer.
import Rill.Machine.Execution
import Rill.Proofs.Cells.Places
import Rill.Proofs.Safety.Calling

/-!
# Steps and cells

An instruction works with the cells of its frame, with those on the operand stack, and with those behind
globals and objects. The number of cells never gets less, and a machine in which every reference to a cell
leads somewhere stays one.
-/

namespace Rill

open Bounded (below)

/-- The slots that are missing are made. -/
theorem Run.performReserve_run (f : Frame) (slots : Nat) (m : Machine) :
    Run.performReserve f slots m =
      if f.base + slots > m.config.stackLimit then .error Fault.stackOverflow.failure m
      else .ok ⟨⟩ { m with
        stack := m.stack ++ Array.replicate (f.base + slots - m.stack.size) Value.null } := by
  change (if f.base + slots > m.config.stackLimit then (Run.fail .stackOverflow : Run PUnit) >>= fun _ => set _
    else set _) m = _
  split <;> rfl

/-- What a frame goes on with. -/
instance : Bounded Flow where
  below
    | n, .leave v => below n v
    | _, _ => True
  mono {n n' flow} hle h := by
    cases flow with
    | leave v => exact Bounded.mono (a := v) hle h
    | _ => trivial

/-- A call that is being entered. -/
instance : Bounded NativeCall where
  below n w := below n w.args ∧ below n w.fn
  mono hle h := ⟨Bounded.mono hle h.1, Bounded.mono hle h.2⟩

namespace Still

variable {n : Nat}

-- ---------------------------------------------------------------------------
-- Operands
-- ---------------------------------------------------------------------------

/-- Only the operand stack changes. -/
theorem restack {f : Machine → Array Value} (hf : ∀ m : Machine, m.Below n → below n (f m)) :
    Still n (modify fun m => { m with stack := f m } : Run PUnit) :=
  change fun m hm => ⟨⟨hm.heap, hf m hm, hm.globals, hm.control, hm.held⟩, rfl⟩

theorem below_push {vs : Array Value} (hvs : below n vs) {v : Value} (hv : below n v) : below n (vs.push v) := by
  intro w hw
  rcases Array.mem_push.mp hw with hold | rfl
  · exact hvs w hold
  · exact hv

theorem put {v : Value} (hv : below n v) : Still n (Run.put v) := restack fun _ hm => below_push hm.stack hv

theorem push {v : Value} (hv : below n v) : Still n (Run.push v) := by
  refine get.bind fun m _ => ?_
  split
  · exact (fail _).bind fun _ _ => put hv
  · exact put hv

theorem pop : Still n Run.pop := by
  refine get.bind fun m hm => ?_
  split
  · next v hv =>
    refine (restack fun m hm w hw => ?_).bind fun _ _ => pure (hm.stack v (Array.mem_of_back? hv))
    obtain ⟨k, hk, rfl⟩ := Array.getElem_of_mem hw
    rw [Array.getElem_pop]
    exact hm.stack _ (Array.getElem_mem _)
  · exact fail _

theorem peek (depth : Nat) : Still n (Run.peek depth) := by
  refine get.bind fun m hm => ?_
  dsimp only
  split
  · next v hv =>
    split at hv
    · exact pure (hm.stack v (Array.mem_of_getElem? hv))
    · cases hv
  · exact fail _

theorem cut (height : Nat) : Still n (Run.cut height) :=
  restack fun _ hm => by
    rw [Array.shrink_eq_take]
    exact Library.below_extract hm.stack _ _

theorem popMany (count : Nat) : Still n (Run.popMany count) := by
  refine get.bind fun m hm => ?_
  have htaken : Still n (do
      modify fun m : Machine => { m with stack := m.stack.shrink (m.stack.size - count) }
      return m.stack.extract (m.stack.size - count) m.stack.size) := by
    refine (restack fun m hm => ?_).bind fun _ _ => pure (Library.below_extract hm.stack _ _)
    rw [Array.shrink_eq_take]
    exact Library.below_extract hm.stack _ _
  dsimp only
  split
  · exact (fail _).bind fun _ _ => htaken
  · exact htaken

-- ---------------------------------------------------------------------------
-- Variables
-- ---------------------------------------------------------------------------

section Variables

variable {f : Frame}

theorem local? (index : Nat) : Still n (Run.local? f index) := by
  refine get.bind fun m hm => ?_
  split
  · next v hv => exact pure (hm.stack v (Array.mem_of_getElem? hv))
  · exact fail _

theorem setLocal (index : Nat) {v : Value} (hv : below n v) : Still n (Run.setLocal f index v) :=
  restack fun _ hm => Bounded.below_set hm.stack _ hv

theorem constant (index : Nat) : Still n (Run.constant f index) := by
  unfold Run.constant
  split
  · exact pure trivial
  · exact fail _

theorem global (name : String) : Still n (Run.global name) := by
  refine get.bind fun m hm => ?_
  split
  · next v hv => exact pure (Bounded.below_found hm.globals hv)
  · exact fail _

theorem takesReference (position : Nat) : Still n (Run.takesReference position) :=
  get.bind fun _ _ => pure trivial

theorem settle (use : Use) : Still n (Run.settle use) := by
  cases use with
  | argument position => exact (takesReference position).bind fun _ _ => pure trivial
  | _ => exact pure trivial

variable (hf : below n f.closure)
include hf

theorem capturedCell (index : Nat) : Still n (Run.capturedCell f index) := by
  unfold Run.capturedCell
  split
  · next cell hcell => exact pure (hf.1 cell (Array.mem_of_getElem? hcell))
  · exact fail _

theorem writeSlot (slot : Slot) {v : Value} (hv : below n v) : Still n (Run.writeSlot f slot v) := by
  cases slot with
  | frame i =>
    exact (local? i).bind fun old hold => (assign hold hv).bind fun held hheld => setLocal i hheld
  | captured i => exact (capturedCell hf i).bind fun cell _ => setCell cell hv
  | global k =>
    refine (constant k).bind fun name _ => get.bind fun m hm => ?_
    split
    · next old hold =>
      exact (assign (Bounded.below_found hm.globals hold) hv).bind fun held hheld => setGlobal name hheld
    · exact setGlobal name hv

theorem declaredBefore (slot : Slot) : Still n (Run.declaredBefore f slot) := by
  cases slot with
  | frame i => exact local? i
  | captured i => exact (capturedCell hf i).bind fun cell hcell => pure hcell
  | global k =>
    exact get.bind fun m hm => (constant k).bind fun name _ =>
      pure (Bounded.below_getNull (Bounded.below_find? hm.globals name))

theorem declare (slot : Slot) {v : Value} (hv : below n v) : Still n (Run.declare f slot v) := by
  refine (declaredBefore hf slot).bind fun before _ => ?_
  cases v with
  | object id => exact (merge before id).bind fun _ _ => writeSlot hf slot trivial
  | _ => exact writeSlot hf slot hv

end Variables

-- ---------------------------------------------------------------------------
-- Literals
-- ---------------------------------------------------------------------------

theorem texts (values : Array Value) : Still n (Run.texts values) := heap.bind fun _ _ => pure (Cellfree.below n _)

theorem below_pairs {h : Heap} (hh : h.Below n) {values : List Value} (hvalues : below n values) :
    below n (Run.pairs h values) := by
  fun_induction Run.pairs h values with
  | case1 key v rest ih =>
    refine Bounded.below_except_bind fun key _ => Bounded.below_except_bind fun entries hentries => ?_
    have hrest : below n rest := fun w hw => hvalues w (List.mem_cons_of_mem _ (List.mem_cons_of_mem _ hw))
    have hv : below n v := hvalues v (by simp)
    exact Bounded.ok (List.forall_mem_cons.mpr ⟨⟨trivial, hh.resolve hv⟩, ih hrest entries hentries⟩)
  | case2 => exact Bounded.ok (by simp)

theorem sealSignature (key : RoutineKey) (name : String) (signature : List ClassId) :
    Still n (Run.sealSignature key name signature) := by
  refine get.bind fun m _ => ?_
  split
  · split
    · exact fail _
    · exact pure trivial
  · exact adjust (fun _ => rfl) (fun _ => rfl) (fun _ => rfl) (fun _ => rfl) fun _ => rfl

theorem performAssert (operands : Nat) : Still n (Run.performAssert operands) := by
  have hcheck (message : Option Value) : Still n (do
      let condition ← Run.pop
      let h ← Run.heap
      if !h.truth condition then Run.fail (.assertion (message.elim "assertion failed" h.text))) := by
    refine pop.bind fun condition _ => heap.bind fun h _ => ?_
    split
    · exact fail _
    · exact pure trivial
  unfold Run.performAssert
  split
  · rw [bind_map_left]
    exact pop.bind fun message _ => hcheck (some message)
  · exact hcheck none

theorem performReserve (f : Frame) (slots : Nat) : Still n (Run.performReserve f slots) := by
  intro m hm
  rw [Run.performReserve_run]
  by_cases hlimit : f.base + slots > m.config.stackLimit
  · rw [if_pos hlimit]
    exact ⟨hm, rfl⟩
  · rw [if_neg hlimit]
    refine ⟨⟨hm.heap, fun v hv => ?_, hm.globals, hm.control, hm.held⟩, rfl, trivial⟩
    rcases Array.mem_append.mp hv with hold | hnew
    · exact hm.stack v hold
    · exact Array.eq_of_mem_replicate hnew ▸ trivial

theorem pushConstant {α : Type} (constants : Array α) (index : Nat) {wrap : α → Value}
    (hwrap : ∀ a, below n (wrap a)) : Still n (Run.pushConstant constants index wrap) := by
  unfold Run.pushConstant
  split
  · exact push (hwrap _)
  · exact fail _

-- ---------------------------------------------------------------------------
-- Activations
-- ---------------------------------------------------------------------------

theorem become {a : Activation} (ha : below n a) : Still n (Run.become a) :=
  change fun m hm => by
    refine ⟨⟨hm.heap, hm.stack, hm.globals, ?_, hm.held⟩, rfl⟩
    intro b hb
    rcases List.mem_cons.mp hb with rfl | hb
    · exact ha
    · exact hm.control b (List.mem_of_mem_drop hb)

theorem goTo (next : Nat → Nat) : Still n (Run.goTo next) :=
  change fun m hm => by
    refine ⟨⟨hm.heap, hm.stack, hm.globals, ?_, hm.held⟩, rfl⟩
    dsimp only
    split
    · next f rest hcontrol =>
      have hcontrol' : below n (.script f :: rest) := hcontrol ▸ hm.control
      intro b hb
      rcases List.mem_cons.mp hb with rfl | hb
      · exact hcontrol' (.script f) List.mem_cons_self
      · exact hcontrol' b (List.mem_cons_of_mem _ hb)
    · exact hm.control

theorem complete (slot : Nat) (keepRef : Bool) {v : Value} (hv : below n v) :
    Still n (Run.complete slot keepRef v) := by
  refine heap.bind fun h hh => (cut slot).bind fun _ _ => (put ?_).bind fun _ _ => ?_
  · split
    · exact hv
    · exact hh.resolve hv
  · refine bind (change fun m hm => ⟨⟨hm.heap, hm.stack, hm.globals, ?_, hm.held⟩, rfl⟩) fun _ _ => goTo _
    exact fun a ha => hm.control a (List.mem_of_mem_drop ha)

theorem enters (args : Nat) (keepRef : Bool) :
    Still n (modify fun m => { m with control := .entering args keepRef :: m.control } : Run PUnit) :=
  change fun _ hm =>
    ⟨⟨hm.heap, hm.stack, hm.globals, List.forall_mem_cons.mpr ⟨trivial, hm.control⟩, hm.held⟩, rfl⟩

theorem forM {α : Type} {f : α → Run PUnit} {as : List α} (hf : ∀ a ∈ as, Still n (f a)) :
    Still n (as.forM f) := by
  induction as with
  | nil => exact pure trivial
  | cons a rest ih =>
    exact (hf a List.mem_cons_self).bind fun _ _ => ih fun b hb => hf b (List.mem_cons_of_mem a hb)

theorem continueNative {w : NativeCall} (hw : below n w.args) {reply : Reply} (hreply : below n reply) :
    Still n (Run.continueNative w reply) := by
  cases reply with
  | value v => exact complete w.slot w.keepRef hreply
  | call callee args guarded =>
    obtain ⟨items⟩ := args
    obtain ⟨hcallee, hargs⟩ := hreply
    refine get.bind fun m _ => (push hcallee).bind fun _ _ => ?_
    rw [List.forM_toArray' _ _ rfl]
    refine (forM fun v hv => push (hargs v (by simpa using hv))).bind fun _ _ => ?_
    refine bind (become ?_) fun _ _ => enters _ _
    exact hw

theorem resumeNative (w : NativeCall) : Still n (Run.resumeNative w) := by
  refine pop.bind fun v hv => ?_
  split
  · refine (newList fun u hu => ?_).bind fun pair hpair => complete _ _ hpair
    obtain rfl | rfl : u = .bool w.succeeded ∨ u = v := by simpa using hu
    · trivial
    · exact hv
  · exact complete _ _ hv

end Still

-- ---------------------------------------------------------------------------
-- References to variables
-- ---------------------------------------------------------------------------

namespace Ages

variable {n : Nat}

section Variables

variable {f : Frame} (hf : below n f.closure)

theorem localCell (index : Nat) : Ages n (Run.localCell f index) := by
  refine (of_still fun _ _ => .local? index).bind fun _ v _ hv => (cellFor hv).bind fun _ cell _ hcell => ?_
  exact (of_still fun _ hle => .setLocal index (Bounded.mono hle hcell)).bind fun _ _ hle _ =>
    pure (Bounded.mono hle hcell)

theorem globalCell (name : String) : Ages n (Run.globalCell name) := by
  refine (of_still fun _ _ => .global name).bind fun _ v _ hv => (cellFor hv).bind fun _ cell _ hcell => ?_
  exact (of_still fun _ hle => .setGlobal name (Bounded.mono hle hcell)).bind fun _ _ hle _ =>
    pure (Bounded.mono hle hcell)

include hf

theorem capturedCell (index : Nat) : Ages n (Run.capturedCell f index) :=
  of_still fun _ hle => .capturedCell (Bounded.mono hle hf) index

theorem readSlot (slot : Slot) (use : Use) : Ages n (Run.readSlot f slot use) := by
  refine (of_still fun _ _ => .settle use).bind fun n outcome hle _ => ?_
  have hf : below n f.closure := Bounded.mono hle hf
  cases slot with
  | frame i =>
    cases outcome with
    | reference => exact (localCell i).bind fun _ _ _ hcell => pure hcell
    | unique =>
      exact of_still fun _ _ => (Still.local? i).bind fun v hv => (Still.unshareSlot hv _).bind fun (held, own) h =>
        (Still.setLocal i h.1).bind fun _ _ => .pure h.2
    | _ => exact of_still fun _ _ => (Still.local? i).bind fun v hv => Still.heap.bind fun h hh => .pure (hh.resolve hv)
  | captured i =>
    cases outcome with
    | reference => exact (capturedCell hf i).bind fun _ _ _ hcell => pure hcell
    | unique =>
      exact of_still fun _ hle => (Still.capturedCell (Bounded.mono hle hf) i).bind fun cell hcell =>
        (Still.unshareSlot hcell _).bind fun _ h => .pure h.2
    | _ =>
      exact of_still fun _ hle => (Still.capturedCell (Bounded.mono hle hf) i).bind fun cell _ =>
        Still.heap.bind fun h hh => .pure (hh.cellValue cell)
  | global k =>
    cases outcome with
    | reference =>
      exact (of_still fun _ _ => .constant k).bind fun _ name _ _ =>
        (globalCell name).bind fun _ _ _ hcell => pure hcell
    | unique =>
      exact of_still fun _ _ => (Still.constant k).bind fun name _ => (Still.global name).bind fun v hv =>
        (Still.unshareSlot hv _).bind fun (held, own) h => (Still.setGlobal name h.1).bind fun _ _ => .pure h.2
    | _ =>
      exact of_still fun _ _ => (Still.constant k).bind fun name _ => (Still.global name).bind fun v hv =>
        Still.heap.bind fun h hh => .pure (hh.resolve hv)

theorem capture (c : Capture) : Ages n (Run.capture f c) := by
  unfold Run.capture
  split
  · exact localCell c.index
  · exact capturedCell hf c.index

/-- Cells that have been taken stay on the heap while others are. -/
theorem captures (cs : List Capture) : Ages n (cs.mapM (Run.capture f)) := by
  induction cs generalizing n with
  | nil => exact pure nofun
  | cons c rest ih =>
    rw [List.mapM_cons]
    refine (capture hf c).bind fun n₁ cell hle hcell => (ih (Bounded.mono hle hf)).bind fun n₂ cells hle' hcells => ?_
    exact pure (List.forall_mem_cons.mpr ⟨Bounded.mono hle' hcell, hcells⟩)

theorem newClosure (child : Nat) (classes : Array Value) : Ages n (Run.newClosure f child classes) := by
  unfold Run.newClosure
  split
  · exact fail _
  · next routine _ =>
    refine heap.bind fun _ h hle _ => (lift (Cellfree.below _ _)).bind fun _ signature hle' _ => ?_
    refine (of_still fun _ _ => .sealSignature _ _ _).bind fun n _ hle'' _ => ?_
    have hf : below n f.closure := Bounded.mono (by omega) hf
    rw [Array.mapM_eq_mapM_toList, bind_map_left]
    refine (captures hf routine.captures.toList).bind fun n' captured _ hcaptured => ?_
    refine of_still fun n' hle => (Still.bind (.adjust (fun _ => rfl) (fun _ => rfl) (fun _ => rfl) (fun _ => rfl)
      fun _ => rfl) fun _ _ => Still.get.bind fun m _ => .newFunction fun c hc => ?_)
    obtain rfl := List.mem_singleton.mp hc
    exact ⟨fun cell hcell => Bounded.mono hle (hcaptured cell (by simpa using hcell)), trivial⟩

end Variables

-- ---------------------------------------------------------------------------
-- Instructions
-- ---------------------------------------------------------------------------

theorem push {v : Value} (hv : below n v) : Ages n (Run.push v) :=
  of_still fun _ hle => .push (Bounded.mono hle hv)

theorem pop : Ages n Run.pop := of_still fun _ _ => .pop

theorem performElement (indices : Nat) (use : Use) : Ages n (Run.performElement indices use) := by
  refine (of_still fun _ _ => .popMany indices).bind fun _ indices _ _ => pop.bind fun _ container _ _ => ?_
  refine (of_still fun _ _ => .settle use).bind fun n outcome _ _ => ?_
  cases outcome with
  | reference => exact (elementCell container indices).bind fun _ _ _ hcell => push hcell
  | unique => exact (of_still fun _ _ => .ownElement container indices).bind fun _ _ _ hv => push hv
  | _ => exact heap.bind fun _ h _ hh => (lift (hh.element container indices)).bind fun _ _ _ hv => push hv

theorem performMember (f : Frame) (name : Nat) (use : Use) : Ages n (Run.performMember f name use) := by
  refine pop.bind fun _ object _ hobject => (of_still fun _ _ => .constant name).bind fun _ name hle _ => ?_
  have hobject := Bounded.mono hle hobject
  refine (of_still fun _ _ => .settle use).bind fun n outcome hle _ => ?_
  have hobject := Bounded.mono hle hobject
  cases outcome with
  | reference => exact (fieldCell object name).bind fun _ _ _ hcell => push hcell
  | unique =>
    exact (of_still fun _ hle => .ownField (Bounded.mono hle hobject) name).bind fun _ _ _ hv => push hv
  | _ => exact (of_still fun _ hle => .field (Bounded.mono hle hobject) name).bind fun _ _ _ hv => push hv

theorem below_nextKey (h : Heap) (it : Iterator) : below n (h.nextKey it) := by
  unfold Heap.nextKey
  dsimp only
  split
  · next entries _ =>
    cases entries.entries[it.position]? with
    | none => trivial
    | some e => exact Bounded.below_key e.1 ▸ trivial
  · trivial

theorem performPlain {f : Frame} (hf : below n f.closure) (op : Instruction) :
    Ages n (Run.performPlain f op) := by
  cases op with
  | pushNull | pushBool | pushSmall | pushNan => exact push trivial
  | pushInt k | pushFloat k | pushStr k => exact of_still fun _ _ => .pushConstant _ _ fun _ => trivial
  | pop => exact pop.bind fun _ _ _ _ => pure trivial
  | reserve slots => exact of_still fun _ _ => .performReserve f slots
  | read slot use => exact (readSlot hf slot use).bind fun _ _ _ hv => push hv
  | write slot =>
    exact of_still fun _ hle => Still.pop.bind fun v hv => .writeSlot (Bounded.mono hle hf) slot hv
  | define i =>
    exact of_still fun _ _ => Still.pop.bind fun v hv => (Still.local? i).bind fun _ _ => .setLocal i hv
  | declare slot =>
    exact of_still fun _ hle => Still.pop.bind fun v hv => .declare (Bounded.mono hle hf) slot hv
  | count i up =>
    exact of_still fun _ _ => (Still.local? i).bind fun old hold => Still.heap.bind fun h _ =>
      (Still.lift (h.stepCounter_plain old up).below).bind fun v hv => (Still.assign hold hv).bind fun held hheld =>
        .setLocal i hheld
  | element indices use => exact performElement indices use
  | setElement indices =>
    exact of_still fun _ _ => (Still.popMany indices).bind fun indices _ => Still.pop.bind fun container _ =>
      Still.pop.bind fun v hv => .setElement container indices hv
  | member name use => exact performMember f name use
  | setMember name =>
    exact of_still fun _ _ => Still.pop.bind fun object hobject => Still.pop.bind fun v hv =>
      (Still.constant name).bind fun name _ => .setField hobject name hv
  | binary op =>
    exact of_still fun _ _ => Still.pop.bind fun right _ => Still.pop.bind fun left _ => Still.heap.bind fun h _ =>
      (Still.lift (h.binary_plain op left right).below).bind fun v hv => .push hv
  | negate =>
    exact of_still fun _ _ => Still.pop.bind fun v _ => Still.heap.bind fun h _ =>
      (Still.lift (h.negate_plain v).below).bind fun v hv => .push hv
  | not => exact of_still fun _ _ => Still.pop.bind fun v _ => Still.heap.bind fun h _ => .push trivial
  | concat parts =>
    exact of_still fun _ _ => (Still.popMany parts).bind fun vs _ => (Still.texts vs).bind fun _ _ => .push trivial
  | precall =>
    exact of_still fun _ _ => (Still.peek 0).bind fun callee _ =>
      .adjust (fun _ => rfl) (fun _ => rfl) (fun _ => rfl) (fun _ => rfl) fun _ => rfl
  | closure child params =>
    exact (of_still fun _ _ => .popMany params).bind fun _ classes hle _ =>
      (newClosure (Bounded.mono hle hf) child classes).bind fun _ _ _ hv => push hv
  | list k =>
    refine of_still fun _ _ => (Still.popMany k).bind fun items hitems => Still.heap.bind fun h hh =>
      (Still.newList fun v hv => ?_).bind fun _ hv => .push hv
    obtain ⟨w, hw, rfl⟩ := Array.mem_map.mp hv
    exact hh.resolve (hitems w hw)
  | table k =>
    refine of_still fun _ _ => (Still.popMany (2 * k)).bind fun values hvalues => Still.heap.bind fun h hh => ?_
    have hvalues : below _ values.toList := fun v hv => hvalues v (Array.mem_toList_iff.mp hv)
    exact (Still.lift (Still.below_pairs hh hvalues)).bind fun entries hentries =>
      (Still.newTable (Bounded.below_ofList fun e he => (hentries e he).2)).bind fun _ hv => .push hv
  | set k =>
    exact of_still fun _ _ => (Still.popMany k).bind fun values _ => Still.heap.bind fun h _ =>
      (Still.lift (Cellfree.below _ _)).bind fun keys _ => (Still.newSet _).bind fun _ hv => .push hv
  | array rows cols =>
    exact of_still fun _ _ => (Still.popMany (rows * cols)).bind fun values _ => Still.heap.bind fun h _ =>
      (Still.lift (Cellfree.below _ _)).bind fun numbers _ => (Still.lift (Cellfree.below _ _)).bind fun m _ =>
        (Still.newArray m).bind fun _ hv => .push hv
  | iterate byRef =>
    exact of_still fun _ _ => Still.pop.bind fun v _ => Still.heap.bind fun h _ =>
      (Still.lift (Cellfree.below _ _)).bind fun it _ =>
        (Still.newObject _ (c := .iterator it) trivial).bind fun _ hv => .push hv
  | hasNext =>
    exact pop.bind fun _ v _ _ => (iteratorOf v).bind fun _ (id, it) _ _ => heap.bind fun _ h _ _ => push trivial
  | nextKey =>
    exact pop.bind fun _ v _ _ => (iteratorOf v).bind fun _ (id, it) _ _ => heap.bind fun _ h _ _ =>
      push (below_nextKey h it)
  | nextValue => exact pop.bind fun _ v _ _ => (nextValue v).bind fun _ v _ hv => push hv
  | print k newline =>
    exact of_still fun _ _ => (Still.popMany k).bind fun values _ => (Still.texts values).bind fun _ _ => .write _
  | assert operands => exact of_still fun _ _ => .performAssert operands
  | throw => exact of_still fun _ _ => Still.pop.bind fun v _ => Still.heap.bind fun h _ => .fail _
  | jump | call | result => exact pure trivial

theorem performJump (test : JumpTest) (target : Nat) : Ages n (Run.performJump test target) := by
  have htaking (jumpIf : Bool) : Ages n (Run.jumpTaking target jumpIf) := by
    refine of_still fun _ _ => Still.pop.bind fun v _ => Still.heap.bind fun h _ => ?_
    split <;> exact .pure trivial
  have hkeeping (jumpIf : Bool) : Ages n (Run.jumpKeeping target jumpIf) := by
    refine of_still fun _ _ => (Still.peek 0).bind fun v _ => Still.heap.bind fun h _ => ?_
    split
    · exact .pure trivial
    · exact Still.pop.bind fun _ _ => .pure trivial
  cases test with
  | always => exact pure trivial
  | ifFalse | ifTrue => exact htaking _
  | ifFalseKeep | ifTrueKeep => exact hkeeping _

theorem perform {f : Frame} (hf : below n f.closure) (op : Instruction) : Ages n (Run.perform f op) := by
  cases op with
  | jump test target => exact performJump test target
  | call args keepRef =>
    exact of_still fun _ _ => Still.bind (.adjust (fun _ => rfl) (fun _ => rfl) (fun _ => rfl) (fun _ => rfl)
      fun _ => rfl) fun _ _ => .pure trivial
  | result => exact pop.bind fun _ v _ hv => pure hv
  | _ => exact (performPlain hf _).bind fun _ _ _ _ => pure trivial

-- ---------------------------------------------------------------------------
-- Calls
-- ---------------------------------------------------------------------------

theorem prepareAll (base : Nat) (flags : RefFlags) (count : Nat) : Ages n (Run.prepareAll base flags count) := by
  unfold Run.prepareAll
  induction List.range count generalizing n with
  | nil => exact pure trivial
  | cons k rest ih =>
    have hone : Ages n (do
        let v := (← MonadState.get).stack.getD (base + k) .null
        let v ← Run.prepare v (flags.isRef k)
        modify fun m => { m with stack := m.stack.setIfInBounds (base + k) v } : Run PUnit) :=
      get.bind fun _ m _ hm => (prepare (Bounded.below_getD hm.stack _) _).bind fun _ v _ hv =>
        of_still fun _ hle => .restack fun _ hm => Bounded.below_set hm.stack _ (Bounded.mono hle hv)
    exact hone.bind fun _ _ _ _ => ih

/-- A function that is called is on the heap. -/
theorem below_dispatch {h : Heap} (hh : h.Below n) (callee : Value) (args : Array Value) :
    below n (h.dispatch callee args) := by
  have hcalled {f : Function} (hf : h.calledFunction callee = .ok f) : below n f.closures := by
    obtain ⟨v, hv⟩ := Heap.contentOf_calledFunction hf
    exact hh.contentOf hv
  exact Bounded.below_except_bind fun f hf closure hclosure => hcalled hf closure (f.choose_mem hclosure).1

theorem begin (count : Nat) (keepRef : Bool) : Ages n (Run.begin count keepRef) := by
  refine get.bind fun n m _ hm => failUnless fun _ => ?_
  refine (lift (below_dispatch hm.heap _ _)).bind fun n closure _ hclosure => ?_
  refine (prepareAll _ _ count).bind fun n _ hle _ => ?_
  have hclosure := Bounded.mono hle hclosure
  split
  · next fn flags hcallable =>
    refine of_still fun n' hle => (Still.popMany count).bind fun args hargs => ?_
    have hfn : below n' fn := by
      have hcallable' : below n closure.callable := hclosure.2
      rw [hcallable] at hcallable'
      exact Bounded.mono (a := fn) hle hcallable'
    refine (Still.become ?_).bind fun _ _ => .pure fun w hw => ?_
    · exact hargs
    · cases hw
      exact ⟨hargs, hfn⟩
  · refine failUnless fun _ => of_still fun n' hle => (Still.become ?_).bind fun _ _ => .pure fun w hw => ?_
    · exact Bounded.mono hle hclosure
    · cases hw

theorem enter (count : Nat) (keepRef : Bool) : Ages n (Run.enter count keepRef) := by
  refine (begin count keepRef).bind fun n begun hle hbegun => ?_
  cases begun with
  | none => exact of_still fun _ _ => .collectIfDue
  | some w =>
    obtain ⟨hargs, hfn⟩ := hbegun w rfl
    exact of_still fun _ hle =>
      (w.fn.run_still (Bounded.mono hle hfn) (Bounded.mono hle hargs)).bind fun reply hreply =>
      .continueNative (Bounded.mono hle hargs) hreply

theorem stepFrame {f : Frame} (hf : below n f.closure) : Ages n (Run.stepFrame f) := by
  unfold Run.stepFrame
  split
  · exact fail _
  · refine (perform hf _).bind fun n flow _ hflow => ?_
    cases flow with
    | next => exact of_still fun _ _ => .goTo _
    | jump target => exact of_still fun _ _ => .goTo _
    | enter args keepRef => exact of_still fun _ _ => .enters args keepRef
    | leave v => exact of_still fun _ hle => .complete _ _ (Bounded.mono (a := v) hle hflow)

theorem step : Ages n Run.step := by
  refine get.bind fun n m _ hm => ?_
  split
  · exact pure trivial
  · next f rest hcontrol =>
    have hcontrol' : below n (Activation.script f :: rest) := hcontrol ▸ hm.control
    exact stepFrame (hcontrol' _ List.mem_cons_self)
  · next w rest hcontrol => exact of_still fun _ _ => .resumeNative w
  · exact enter _ _

end Ages

-- ---------------------------------------------------------------------------
-- Steps
-- ---------------------------------------------------------------------------

/-- A guarded call takes a failure without making cells. -/
theorem Machine.Below.recover {n : Nat} {m m' : Machine} (hm : m.Below n) {outer : Nat} {e : Failure}
    (hm' : m.recover outer e = some m') : m'.Below n ∧ m'.heap = m.heap := by
  unfold Machine.recover at hm'
  split at hm'
  · next w rest hguarded =>
    split at hm'
    · cases hm'
    · cases hm'
      have hsub : ∀ a ∈ Activation.native w :: rest, below n a := fun a ha =>
        hm.control a ((List.dropWhile_suffix _).subset (hguarded ▸ ha))
      have hcut : below n (m.stack.shrink w.inner) := by
        rw [Array.shrink_eq_take]
        exact Library.below_extract hm.stack _ _
      refine ⟨⟨hm.heap, Still.below_push hcut trivial, hm.globals, ?_, hm.held⟩, rfl⟩
      exact List.forall_mem_cons.mpr ⟨hsub (.native w) List.mem_cons_self, fun a ha => hsub a (List.mem_cons_of_mem _ ha)⟩
  · cases hm'

/-- A step makes cells only at the end of the heap, and leaves no reference to nowhere. -/
theorem Machine.IsWhole.attempt {m m' : Machine} {outer : Nat} (hm : m.IsWhole)
    (hm' : Run.attempt outer m = .ok () m') : m'.IsWhole ∧ m.heap.cells.size ≤ m'.heap.cells.size := by
  have hstep := Ages.step m hm (Nat.zero_le _)
  unfold Run.attempt at hm'
  split at hm'
  · next stepped hstepped =>
    cases hm'
    rw [hstepped] at hstep
    exact ⟨hstep.1, hstep.2.1⟩
  · next e failed hfailed =>
    rw [hfailed] at hstep
    dsimp only at hm'
    split at hm'
    · next recovered hrecovered =>
      cases hm'
      obtain ⟨hbelow, hheap⟩ := hstep.1.recover hrecovered
      rw [← hheap] at hbelow
      exact ⟨hbelow, by rw [hheap]; exact hstep.2⟩
    · cases hm'

end Rill
