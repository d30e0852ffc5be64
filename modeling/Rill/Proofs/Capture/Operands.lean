-- SUMMARY: Computations on the operands of a frame, which leave the stack below them alone.
import Rill.Proofs.Capture.Waiting
import Rill.Proofs.Runs.Outcomes

/-!
# Operands

Most of what an instruction does happens on the operands above the slots of its frame. A computation alters at most
some places below a height if it takes its operands from above the height, leaves its results there, and sets no
other place. The instructions that name no slot of the frame alter none.
-/

namespace Rill

-- ---------------------------------------------------------------------------
-- Computations above a height
-- ---------------------------------------------------------------------------

theorem Ends.tame {x : Run α} {m : Machine} {Q : α → Machine → Prop} {E : Machine → Prop} (hx : Tame x)
    (hm : m.heap.IsSound) (hQ : ∀ a m', x m = .ok a m' → m.Spares m' → Q a m') (hE : ∀ m', m.Spares m' → E m') :
    Ends x m Q E := by
  have hspares := hx m hm
  refine of_outcome (fun a m' h => ?_) fun e m' h => ?_
  · rw [h] at hspares
    exact hQ a m' h hspares
  · rw [h] at hspares
    exact hE m' hspares.1

/-- The activations stay, and below a height the stack is as it was, but for some places. -/
structure Machine.KeepsBut (m : Machine) (changed : Nat → Prop) (height : Nat) (m' : Machine) : Prop where
  control : m'.control = m.control
  stack : ∀ k < height, ¬changed k → m'.stack[k]? = m.stack[k]?

theorem Machine.KeepsBut.trans {m m' m'' : Machine} {changed : Nat → Prop} {height : Nat}
    (h : m.KeepsBut changed height m') (h' : m'.KeepsBut changed height m'') : m.KeepsBut changed height m'' where
  control := h'.control.trans h.control
  stack k hk hfree := (h'.stack k hk hfree).trans (h.stack k hk hfree)

/-- Below a height at most some places have changed, and so many operands are left above it. -/
structure Machine.Alters (m : Machine) (changed : Nat → Prop) (height operands : Nat) (m' : Machine) : Prop where
  sound : m'.heap.IsSound
  room : height + operands ≤ m'.stack.size
  kept : m.KeepsBut changed height m'

/-- With `n` operands above a height, a computation leaves `k` of them, and below the height it changes at
most some places. Whatever happens, the activations stay. -/
def Alters (changed : Nat → Prop) (height n k : Nat) (x : Run α) : Prop :=
  ∀ m, m.heap.IsSound → height + n ≤ m.stack.size →
    Ends x m (fun _ => m.Alters changed height k) (·.control = m.control)

namespace Alters

variable {changed : Nat → Prop} {height n k l : Nat} {x : Run α}

theorem bind {g : α → Run β} (hx : Alters changed height n k x) (hg : ∀ a, Alters changed height k l (g a)) :
    Alters changed height n l (x >>= g) := by
  intro m hm hroom
  have hxm := hx m hm hroom
  refine .bind (.of_outcome (fun a m' h => ?_) fun e m' h => hxm.of_error h)
  have hm' := hxm.of_ok h
  have hgm := hg a m' hm'.sound hm'.room
  refine .of_outcome (fun b m'' h' => ?_) fun e m'' h' => (hgm.of_error h').trans hm'.kept.control
  have hm'' := hgm.of_ok h'
  exact ⟨hm''.sound, hm''.room, hm'.kept.trans hm''.kept⟩

theorem weaken (hx : Alters changed height n k x) (hl : l ≤ k) : Alters changed height n l x := by
  intro m hm hroom
  refine (hx m hm hroom).after fun _ m' h => ⟨h.sound, ?_, h.kept⟩
  have := h.room
  omega

theorem tame (hx : Tame x) : Alters changed height n n x := by
  intro m hm hroom
  refine .tame hx hm (fun a m' _ hspares => ?_) fun m' hspares => hspares.control
  exact ⟨hspares.sound hm, hspares.stack ▸ hroom, hspares.control, fun _ _ _ => by rw [hspares.stack]⟩

/-- The machine stays the same. -/
theorem still (hx : ∀ m, Ends x m (fun _ m' => m' = m) (· = m)) : Alters changed height n n x := by
  intro m hm hroom
  refine .of_outcome (fun a m' h => ?_) fun e m' h => ?_
  · obtain rfl := (hx m).of_ok h
    exact ⟨hm, hroom, rfl, fun _ _ _ => rfl⟩
  · rw [(hx m).of_error h]

/-- The computation does not come to an end. -/
theorem fail {fault : Fault} : Alters changed height n k (Run.fail fault : Run α) := fun _ _ _ => rfl

theorem pure (a : α) : Alters changed height n n (Pure.pure a : Run α) := tame (.pure a)

theorem heap : Alters changed height n n Run.heap := tame .heap

theorem lift (y : Except Failure α) : Alters changed height n n (monadLift y : Run α) :=
  still fun _ => .lift (fun _ _ => rfl) rfl

theorem constant (f : Frame) (index : Nat) : Alters changed height n n (Run.constant f index) :=
  still fun _ => .constant rfl fun _ => rfl

theorem capturedCell (f : Frame) (index : Nat) : Alters changed height n n (Run.capturedCell f index) :=
  still fun _ => .capturedCell rfl fun _ => rfl

theorem local? (f : Frame) (index : Nat) : Alters changed height n n (Run.local? f index) :=
  still fun _ => .local? rfl fun _ _ => rfl

theorem declaredBefore (f : Frame) (slot : Slot) : Alters changed height n n (Run.declaredBefore f slot) := by
  cases slot with
  | frame i => exact local? f i
  | captured k => exact (capturedCell f k).bind fun c => pure _
  | global k => exact (tame .get).bind fun m => (constant f k).bind fun name => pure _

theorem peek (depth : Nat) : Alters changed height n n (Run.peek depth) := still fun _ => .peek rfl fun _ => rfl

theorem push (v : Value) : Alters changed height n (n + 1) (Run.push v) := by
  intro m hm hroom
  refine .push rfl ⟨hm, ?_, rfl, fun j hj _ => ?_⟩
  · simp only [Array.size_push]
    omega
  · rw [Array.getElem?_push_lt (by omega), Array.getElem?_eq_getElem (by omega)]

theorem pop : Alters changed height (n + 1) n Run.pop := by
  intro m hm hroom
  refine .pop rfl fun v _ => ⟨hm, ?_, rfl, fun j hj _ => ?_⟩
  · simp only [Array.size_pop]
    omega
  · rw [Array.getElem?_pop, if_pos (by omega)]

theorem popMany (count : Nat) : Alters changed height (n + count) n (Run.popMany count) := by
  intro m hm hroom
  refine .popMany rfl fun vs _ => ⟨hm, ?_, rfl, fun j hj _ => ?_⟩
  · simp
    omega
  · simp [Array.getElem?_extract]
    omega

/-- A slot is set that may change. -/
theorem setLocal {f : Frame} {i : Nat} (h : changed (f.base + i)) (v : Value) :
    Alters changed height n n (Run.setLocal f i v) := by
  intro m hm hroom
  refine .modify ⟨hm, by simpa using hroom, rfl, fun j hj hfree => ?_⟩
  refine Array.getElem?_setIfInBounds_ne fun heq => hfree ?_
  exact heq ▸ h

-- ---------------------------------------------------------------------------
-- Elements, fields and loops
-- ---------------------------------------------------------------------------

theorem performElement (indices : Nat) (use : Use) :
    Alters changed height (n + 1 + indices) (n + 1) (Run.performElement indices use) := by
  refine (popMany (n := n + 1) indices).bind fun indices => pop.bind fun container =>
    (tame (.settle use)).bind fun use => ?_
  split
  · exact (tame (.elementCell _ _)).bind fun _ => push _
  · exact (tame (.ownElement _ _)).bind fun _ => push _
  · exact heap.bind fun h => (lift _).bind fun _ => push _

theorem performMember (f : Frame) (name : Nat) (use : Use) :
    Alters changed height (n + 1) (n + 1) (Run.performMember f name use) := by
  refine pop.bind fun object => (constant f name).bind fun name => (tame (.settle use)).bind fun use => ?_
  split
  · exact (tame (.fieldCell _ _)).bind fun _ => push _
  · exact (tame (.ownField _ _)).bind fun _ => push _
  · exact (tame (.field _ _)).bind fun _ => push _

theorem iteratorOf (v : Value) : Alters changed height n n (Run.iteratorOf v) := by
  cases v with
  | object id =>
    refine heap.bind fun h => ?_
    split
    · exact pure _
    · exact fail
  | _ => exact fail

theorem nextValue (v : Value) : Alters changed height n n (Run.nextValue v) := by
  refine (iteratorOf v).bind fun (id, it) => tame ?_
  have hadvance (source : Sequence) (position : Nat) : Tame (Run.setContent id
      (.iterator { it with source := source, position := position, count := it.count + 1 })) :=
    .setContent rfl
  dsimp only
  split
  · exact (hadvance _ _).bind fun _ => .pure _
  · exact (hadvance _ _).bind fun _ => .pure _
  · exact (hadvance _ _).bind fun _ => .takeElement _ _ _

theorem pushConstant (constants : Array α) (index : Nat) (wrap : α → Value) :
    Alters changed height n (n + 1) (Run.pushConstant constants index wrap) := by
  unfold Run.pushConstant
  split
  · exact push _
  · exact fail

theorem performAssert (operands : Nat) :
    Alters changed height ((Instruction.assert operands).pops) 0 (Run.performAssert operands) := by
  have hcheck (message : Option Value) : Alters changed height 1 0 (do
      let condition ← Run.pop
      let h ← Run.heap
      if !h.truth condition then Run.fail (.assertion (message.elim "assertion failed" h.text))) := by
    refine pop.bind fun v => heap.bind fun h => ?_
    split
    · exact fail
    · exact pure _
  unfold Run.performAssert
  simp only [Instruction.pops]
  split
  · rw [bind_map_left]
    exact pop.bind fun message => hcheck (some message)
  · exact hcheck none

theorem performJump (test : JumpTest) (target : Nat) :
    Alters changed height ((Instruction.jump test target).pops) 0 (Run.performJump test target) := by
  have htaking (jumpIf : Bool) : Alters changed height 1 0 (Run.jumpTaking target jumpIf) := by
    refine pop.bind fun v => heap.bind fun h => ?_
    split <;> exact pure _
  have hkeeping (jumpIf : Bool) : Alters changed height 1 0 (Run.jumpKeeping target jumpIf) := by
    refine (peek 0).bind fun v => heap.bind fun h => ?_
    split
    · exact (pure _).weaken (Nat.zero_le _)
    · exact pop.bind fun _ => pure _
  cases test with
  | always => exact pure _
  | ifFalse | ifTrue => exact htaking _
  | ifFalseKeep | ifTrueKeep => exact hkeeping _

-- ---------------------------------------------------------------------------
-- Variables
-- ---------------------------------------------------------------------------

section Variables

variable {f : Frame} {slot : Slot} (hslot : ∀ i, slot = .frame i → changed (f.base + i))
include hslot

theorem readSlot (use : Use) : Alters changed height n n (Run.readSlot f slot use) := by
  refine (tame (.settle use)).bind fun outcome => ?_
  cases slot with
  | frame i =>
    have hi := hslot i rfl
    cases outcome with
    | reference =>
      refine Alters.bind ((local? f i).bind fun v => (tame (.cellFor v)).bind fun c => ?_) fun _ => pure _
      exact (setLocal hi _).bind fun _ => pure c
    | unique =>
      exact (local? f i).bind fun v => (tame (.unshareSlot _ _)).bind fun _ => (setLocal hi _).bind fun _ => pure _
    | _ => exact (local? f i).bind fun v => heap.bind fun _ => pure _
  | captured k =>
    cases outcome with
    | unique => exact (capturedCell f k).bind fun c => (tame (.unshareSlot _ _)).bind fun _ => pure _
    | reference => exact (capturedCell f k).bind fun c => pure _
    | _ => exact (capturedCell f k).bind fun c => heap.bind fun _ => pure _
  | global k =>
    cases outcome with
    | reference => exact (constant f k).bind fun name => (tame (.globalCell name)).bind fun _ => pure _
    | unique =>
      exact (constant f k).bind fun name => (tame (.global name)).bind fun v => (tame (.unshareSlot _ _)).bind fun _ =>
        (tame (.setGlobal _ _)).bind fun _ => pure _
    | _ => exact (constant f k).bind fun name => (tame (.global name)).bind fun v => heap.bind fun _ => pure _

theorem writeSlot (v : Value) : Alters changed height n n (Run.writeSlot f slot v) := by
  cases slot with
  | frame i => exact (local? f i).bind fun old => (tame (.assign _ _)).bind fun held => setLocal (hslot i rfl) held
  | captured k => exact (capturedCell f k).bind fun c => tame (.setCell _ _)
  | global k =>
    refine (constant f k).bind fun name => (tame .get).bind fun m => ?_
    split
    · exact (tame (.assign _ _)).bind fun _ => tame (.setGlobal _ _)
    · exact tame (.setGlobal _ _)

theorem declare (v : Value) : Alters changed height n n (Run.declare f slot v) := by
  refine (declaredBefore f slot).bind fun before => ?_
  cases v with
  | object id => exact (tame (.merge before id)).bind fun _ => writeSlot hslot _
  | _ => exact writeSlot hslot _

end Variables

section Closures

variable {f : Frame}

theorem capture {c : Capture} (hc : c.fromFrame = true → changed (f.base + c.index)) :
    Alters changed height n n (Run.capture f c) := by
  unfold Run.capture
  split
  · next hframe =>
    refine (local? f c.index).bind fun v => (tame (.cellFor v)).bind fun cell => ?_
    exact (setLocal (hc hframe) _).bind fun _ => pure cell
  · exact capturedCell f c.index

theorem captures {cs : List Capture} (hcs : ∀ c ∈ cs, c.fromFrame = true → changed (f.base + c.index)) :
    Alters changed height n n (cs.mapM (Run.capture f)) := by
  induction cs with
  | nil => exact pure _
  | cons c rest ih =>
    rw [List.mapM_cons]
    refine (capture (hcs c List.mem_cons_self)).bind fun cell => ?_
    exact (ih fun c' hc' => hcs c' (List.mem_cons_of_mem c hc')).bind fun cells => pure _

end Closures

end Alters

-- ---------------------------------------------------------------------------
-- Instructions
-- ---------------------------------------------------------------------------

/-- The instruction names slots: of variables, of variables that a function captures, or all of the frame. -/
def Instruction.namesSlots : Instruction → Bool
  | .read .. | .write _ | .declare _ | .define _ | .count .. | .closure .. | .reserve _ => true
  | _ => false

/-- An instruction that names no slots, and neither jumps nor calls nor returns, works on operands. -/
theorem performPlain_alters {f : Frame} {op : Instruction} {changed : Nat → Prop} {height : Nat}
    (hop : op.isStraight = true) (hslots : op.namesSlots = false) :
    ∃ k, Alters changed height (0 + op.pops) k (Run.performPlain f op) := by
  cases op with
  | pushNull | pushBool | pushSmall | pushNan => exact ⟨_, .push _⟩
  | pushInt k | pushFloat k | pushStr k => exact ⟨_, .pushConstant _ _ _⟩
  | pop => exact ⟨_, Alters.pop.bind fun _ => .pure _⟩
  | element indices use =>
    have hpops : 0 + (Instruction.element indices use).pops = 0 + 1 + indices := by
      simp [Instruction.pops, Nat.add_comm]
    exact ⟨0 + 1, by rw [hpops]; exact .performElement indices use⟩
  | setElement indices =>
    have hpops : 0 + (Instruction.setElement indices).pops = 2 + indices := by simp [Instruction.pops, Nat.add_comm]
    refine ⟨0, ?_⟩
    rw [hpops]
    exact (Alters.popMany (n := 2) indices).bind fun _ => Alters.pop.bind fun _ => Alters.pop.bind fun _ =>
      .tame (.setElement _ _ _)
  | member name use => exact ⟨_, .performMember f name use⟩
  | setMember name =>
    exact ⟨_, Alters.pop.bind fun _ => Alters.pop.bind fun _ =>
      (Alters.constant f name).bind fun _ => .tame (.setField _ _ _)⟩
  | binary op =>
    exact ⟨_, Alters.pop.bind fun _ => Alters.pop.bind fun _ =>
      Alters.heap.bind fun _ => (Alters.lift _).bind fun _ => .push _⟩
  | negate => exact ⟨_, Alters.pop.bind fun _ => Alters.heap.bind fun _ => (Alters.lift _).bind fun _ => .push _⟩
  | not => exact ⟨_, Alters.pop.bind fun _ => Alters.heap.bind fun _ => .push _⟩
  | concat parts => exact ⟨_, (Alters.popMany parts).bind fun _ => (Alters.tame (.texts _)).bind fun _ => .push _⟩
  | precall =>
    exact ⟨_, (Alters.peek 0).bind fun _ => fun m hm hroom => .modify ⟨hm, hroom, rfl, fun _ _ _ => rfl⟩⟩
  | list n =>
    exact ⟨_, (Alters.popMany n).bind fun _ =>
      Alters.heap.bind fun _ => (Alters.tame (.newList _)).bind fun _ => .push _⟩
  | table n =>
    exact ⟨_, (Alters.popMany (2 * n)).bind fun _ => Alters.heap.bind fun _ => (Alters.lift _).bind fun _ =>
      (Alters.tame (.newTable _)).bind fun _ => .push _⟩
  | set n =>
    exact ⟨_, (Alters.popMany n).bind fun _ => Alters.heap.bind fun _ => (Alters.lift _).bind fun _ =>
      (Alters.tame (.newSet _)).bind fun _ => .push _⟩
  | array rows cols =>
    exact ⟨_, (Alters.popMany (rows * cols)).bind fun _ => Alters.heap.bind fun _ => (Alters.lift _).bind fun _ =>
      (Alters.lift _).bind fun _ => (Alters.tame (.newArray _)).bind fun _ => .push _⟩
  | iterate byRef =>
    exact ⟨_, Alters.pop.bind fun _ => Alters.heap.bind fun _ => (Alters.lift _).bind fun _ =>
      (Alters.tame (.newObject_plain rfl)).bind fun _ => .push _⟩
  | hasNext =>
    exact ⟨_, Alters.pop.bind fun v => (Alters.iteratorOf v).bind fun _ => Alters.heap.bind fun _ => .push _⟩
  | nextKey =>
    exact ⟨_, Alters.pop.bind fun v => (Alters.iteratorOf v).bind fun _ => Alters.heap.bind fun _ => .push _⟩
  | nextValue => exact ⟨_, Alters.pop.bind fun v => (Alters.nextValue v).bind fun _ => .push _⟩
  | print n newline =>
    exact ⟨_, (Alters.popMany n).bind fun _ => (Alters.tame (.texts _)).bind fun _ => .tame (.write _)⟩
  | assert n => exact ⟨_, by rw [Nat.zero_add]; exact .performAssert n⟩
  | throw => exact ⟨0, Alters.pop.bind fun _ => Alters.heap.bind fun _ => .fail⟩
  | read | write | declare | define | count | closure | reserve => cases hslots
  | jump | call | result => cases hop

end Rill
