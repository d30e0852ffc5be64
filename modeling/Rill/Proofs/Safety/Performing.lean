-- SUMMARY: Every instruction leads from the shape before it to the shapes behind it.
import Rill.Proofs.Safety.Executing

/-!
# Performing instructions

An instruction that a shape admits finds its operands, slots and constants. It goes on along one of the
edges that the shape has for it.
-/

namespace Rill

-- ---------------------------------------------------------------------------
-- Instructions that go on
-- ---------------------------------------------------------------------------

/-- The instruction neither jumps nor calls nor returns. -/
def Instruction.isStraight : Instruction → Bool
  | .jump .. | .call .. | .result => false
  | _ => true

theorem Shape.Admits.pops_le {s : Shape} {op : Instruction} (h : s.Admits op) (hop : op.isStraight = true) :
    op.pops ≤ s.operands := by
  cases op <;> first | exact Nat.zero_le _ | exact Nat.le_of_add_left_le h.1 | cases hop

-- ---------------------------------------------------------------------------
-- Uses
-- ---------------------------------------------------------------------------

/-- The uses that are left when the choice of an argument is made. -/
def Use.outcomes : Use → List Use
  | .argument _ => [.value, .reference]
  | use => [use]

namespace FrameSite

variable {σ : FrameSite} {s t : Shape}

theorem settle (use : Use) :
    σ.Steps (σ.At s) (Run.settle use) fun outcome m => σ.At s m ∧ outcome ∈ use.outcomes := by
  cases use with
  | argument position =>
    refine (tame (.takesReference position)).bind fun byRef => ?_
    cases byRef <;> exact .pure fun _ h => ⟨h, by simp [Use.outcomes]⟩
  | _ => exact .pure fun _ h => ⟨h, List.mem_singleton_self _⟩

-- ---------------------------------------------------------------------------
-- Variables
-- ---------------------------------------------------------------------------

/-- What is known of iterators when a place has been read for a use. -/
def Read (σ : FrameSite) (s : Shape) (slot : Slot) (use : Use) (v : Value) (m : Machine) : Prop :=
  σ.At { s with
    iterators := s.iteratorsAfter σ.frame.routine (.read slot use), onTop := false } m ∧
  (s.leavesIterator (.read slot use) = true → m.heap.Iterates v)

theorem Read.of_outcome {slot : Slot} {use outcome : Use} {v : Value} {m : Machine}
    (h : σ.Read s slot outcome v m) (hmem : outcome ∈ use.outcomes) : σ.Read s slot use v m := by
  cases use with
  | argument position =>
    obtain rfl | rfl : outcome = .value ∨ outcome = .reference := by simpa [Use.outcomes] using hmem
    · refine ⟨h.1.weaken ⟨rfl, rfl, ?_, id⟩, ?_⟩
      · cases slot <;> simp [Shape.iteratorsAfter]
      · cases slot <;> simp [Shape.leavesIterator]
    · refine ⟨h.1.weaken ⟨rfl, rfl, ?_, id⟩, ?_⟩
      · cases slot <;> simp [Shape.iteratorsAfter]
      · cases slot <;> simp [Shape.leavesIterator]
  | _ => obtain rfl := List.mem_singleton.mp hmem; exact h

/-- A read that changes no slot. -/
theorem Read.of_at {slot : Slot} {use : Use} {v : Value} {m : Machine} (h : σ.At s m)
    (hkeep : s.iteratorsAfter σ.frame.routine (.read slot use) = s.iterators)
    (hleave : s.leavesIterator (.read slot use) = true → m.heap.Iterates v) : σ.Read s slot use v m :=
  ⟨h.weaken ⟨rfl, rfl, hkeep ▸ List.Subset.refl _, by simp⟩, hleave⟩

/-- A read that leaves no iterator on top. -/
theorem Read.of_idle {slot : Slot} {use : Use} {v : Value} {m : Machine}
    (h : σ.At { s with iterators := s.iteratorsAfter σ.frame.routine (.read slot use), onTop := false } m)
    (hidle : s.leavesIterator (.read slot use) = false) : σ.Read s slot use v m :=
  ⟨h, fun hleaves => absurd (hidle.symm.trans hleaves) Bool.false_ne_true⟩

theorem Read.plain {slot : Slot} {use : Use} {v : Value} {m : Machine} (h : σ.At s m)
    (hkeep : s.iteratorsAfter σ.frame.routine (.read slot use) = s.iterators)
    (hidle : s.leavesIterator (.read slot use) = false) : σ.Read s slot use v m :=
  .of_at h hkeep fun hleaves => absurd (hidle.symm.trans hleaves) Bool.false_ne_true

/-- A place that can be read as it is is read for a use. -/
theorem readSlot {slot : Slot} (hslot : slot.InRange σ.frame.routine)
    (hcaptured : σ.frame.closure.captured.size = σ.frame.routine.captures.size) (use : Use) :
    σ.Steps (σ.At s) (Run.readSlot σ.frame slot use) (σ.Read s slot use) := by
  refine (settle use).bind fun outcome => .given fun hmem => ?_
  refine Triple.after (Q := σ.Read s slot outcome) ?_ fun v m h => h.of_outcome hmem
  cases outcome with
  | value =>
    cases slot with
    | frame i =>
      refine (readLocal (fun _ => id) hslot).bind fun v m h => ?_
      obtain ⟨hm, hiter⟩ := h
      refine .of_at hm rfl fun hleave => ?_
      obtain ⟨id, rfl, hid⟩ := hiter (by simpa [Shape.leavesIterator] using hleave)
      exact ⟨id, rfl, hid⟩
    | captured i =>
      exact (capturedCell (hcaptured ▸ hslot)).bind fun cell =>
        (tame .heap).bind fun _ => .pure fun _ h => .plain h rfl rfl
    | global k =>
      exact (constant hslot).bind fun name => (tame (.global name)).bind fun _ =>
        (tame .heap).bind fun _ => .pure fun _ h => .plain h rfl rfl
  | reference =>
    cases slot with
    | frame i => exact (localCell hslot).bind fun _ => .pure fun _ h => .of_idle h rfl
    | captured i =>
      exact (capturedCell (hcaptured ▸ hslot)).bind fun _ => .pure fun _ h => .plain h rfl rfl
    | global k =>
      exact (constant hslot).bind fun name => (tame (.globalCell name)).bind fun _ =>
        .pure fun _ h => .plain h rfl rfl
  | unique =>
    cases slot with
    | frame i =>
      refine (readLocal (fun _ => id) hslot).bind fun v => ?_
      refine ((tame (.unshareSlot v [])).before fun _ => And.left).bind fun both => ?_
      obtain ⟨held, own⟩ := both
      exact (setLocal i held).bind fun _ => .pure fun _ h => .of_idle h rfl
    | captured i =>
      exact (capturedCell (hcaptured ▸ hslot)).bind fun cell =>
        (tame (.unshareSlot (.cell cell) [])).bind fun _ => .pure fun _ h => .plain h rfl rfl
    | global k =>
      refine (constant hslot).bind fun name => (tame (.global name)).bind fun v => ?_
      refine (tame (.unshareSlot v [])).bind fun both => ?_
      obtain ⟨held, own⟩ := both
      exact (tame (.setGlobal name held)).bind fun _ => .pure fun _ h => .plain h rfl rfl
  | argument position => cases use <;> simp [Use.outcomes] at hmem

/-- What is known when a variable has been assigned. -/
def Written (σ : FrameSite) (s : Shape) (slot : Slot) : Machine → Prop :=
  σ.At { s with iterators := s.iteratorsAfter σ.frame.routine (.write slot), onTop := false }

theorem writeSlot {slot : Slot} (hslot : slot.InRange σ.frame.routine)
    (hcaptured : σ.frame.closure.captured.size = σ.frame.routine.captures.size) (v : Value) :
    σ.Steps (σ.At s) (Run.writeSlot σ.frame slot v) fun _ => σ.Written s slot := by
  have htop (m : Machine) (h : σ.At s m) : σ.At { s with onTop := false } m :=
    h.weaken ⟨rfl, rfl, List.Subset.refl _, by simp⟩
  cases slot with
  | frame i =>
    exact (readLocal (fun _ => id) hslot).bind fun old => ((tame (.assign v old)).before fun _ => And.left).bind fun held =>
      setLocal i held
  | captured i =>
    exact (capturedCell (hcaptured ▸ hslot)).bind fun cell => (tame (.setCell cell v)).after fun _ => htop
  | global k =>
    refine (constant hslot).bind fun name => (tame .get).bind fun m => ?_
    split
    · exact (tame (.assign v _)).bind fun held => (tame (.setGlobal name held)).after fun _ => htop
    · exact (tame (.setGlobal name v)).after fun _ => htop

theorem declaredBefore {slot : Slot} (hslot : slot.InRange σ.frame.routine)
    (hcaptured : σ.frame.closure.captured.size = σ.frame.routine.captures.size) :
    σ.Steps (σ.At s) (Run.declaredBefore σ.frame slot) fun _ => σ.At s := by
  cases slot with
  | frame i => exact (readLocal (fun _ => id) hslot).after fun _ _ => And.left
  | captured i => exact (capturedCell (hcaptured ▸ hslot)).bind fun _ => .pure fun _ => id
  | global k =>
    exact (tame .get).bind fun _ => (constant hslot).bind fun _ => .pure fun _ => id

theorem declare {slot : Slot} (hslot : slot.InRange σ.frame.routine)
    (hcaptured : σ.frame.closure.captured.size = σ.frame.routine.captures.size) (v : Value) :
    σ.Steps (σ.At s) (Run.declare σ.frame slot v) fun _ => σ.Written s slot := by
  refine (declaredBefore hslot hcaptured).bind fun before => ?_
  cases v with
  | object id => exact (tame (.merge before id)).bind fun _ => writeSlot hslot hcaptured _
  | _ => exact writeSlot hslot hcaptured _

-- ---------------------------------------------------------------------------
-- Closures
-- ---------------------------------------------------------------------------

/-- A variable is captured whose slot holds no iterator. -/
theorem capture {c : Capture} (hc : c.InRange σ.frame.routine)
    (hcaptured : σ.frame.closure.captured.size = σ.frame.routine.captures.size)
    (hiter : c.fromFrame = true → c.index ∉ s.iterators) (htop : s.onTop = false) :
    σ.Steps (σ.At s) (Run.capture σ.frame c) fun _ => σ.At s := by
  unfold Run.capture
  unfold Capture.InRange at hc
  split <;> rename_i hframe
  · rw [if_pos hframe] at hc
    exact (localCell hc).after fun _ _ h => h.weaken ⟨rfl, rfl, subset_filter_ne (hiter hframe), by simp [htop]⟩
  · rw [if_neg hframe] at hc
    exact capturedCell (hcaptured ▸ hc)

theorem length_of_mapM {f : α → Except Failure β} {as : List α} {bs : List β} (h : as.mapM f = .ok bs) :
    bs.length = as.length := by
  induction as generalizing bs with
  | nil =>
    cases h
    rfl
  | cons a rest ih =>
    rw [List.mapM_cons] at h
    cases hb : f a with
    | error e => simp [hb, bind, Except.bind] at h
    | ok b =>
      cases hbs : rest.mapM f with
      | error e => simp [hb, hbs, bind, Except.bind] at h
      | ok bs =>
        simp only [hb, hbs, bind, Except.bind, pure, Except.pure, Except.ok.injEq] at h
        rw [← h, List.length_cons, ih hbs, List.length_cons]

/-- A new function has the code of a nested routine and its captured variables. -/
theorem newClosure {k params : Nat} (hr : Sound σ.frame.routine)
    (hk : (Instruction.closure k params).InRange σ.frame.routine)
    (hcaptured : σ.frame.closure.captured.size = σ.frame.routine.captures.size) {classes : Array Value}
    (hclasses : classes.size = params) :
    σ.Steps (σ.At s) (Run.newClosure σ.frame k classes) fun _ =>
      σ.At { s with
        iterators := s.iteratorsAfter σ.frame.routine (.closure k params), onTop := false } := by
  obtain ⟨child, hchild, hparams⟩ := hk
  have hmem : child ∈ σ.frame.routine.children := Array.mem_of_getElem? hchild
  simp only [Run.newClosure, hchild]
  refine (tame .heap).bind fun h => ?_
  refine (lift (.mapM (h.parameterClass_harmless ·) _)).bind fun signature => .given fun hsig => ?_
  have hlength : signature.length ≤ child.frameSize := by
    rw [length_of_mapM hsig, Array.length_toList, hclasses]
    exact hparams
  let t : Shape := { s with
    iterators := s.iteratorsAfter σ.frame.routine (.closure k params), onTop := false }
  have hle : s ≤ t := ⟨rfl, rfl, List.filter_subset_self _, by simp [t]⟩
  have hcapture : ∀ c ∈ child.captures.toList,
      σ.Steps (σ.At t) (Run.capture σ.frame c) fun _ => σ.At t := by
    intro c hc
    refine capture ((hr _ .self).captures child hmem c (Array.mem_toList_iff.mp hc)) hcaptured ?_ rfl
    intro hframe hin
    simp [t, Shape.iteratorsAfter, hchild] at hin
    exact hin.2 (by obtain ⟨index, fromFrame⟩ := c; subst hframe; exact Array.mem_toList_iff.mp hc)
  refine (tame (.sealSignature _ _ _)).bind fun _ => ?_
  rw [Array.mapM_eq_mapM_toList, bind_map_left]
  refine ((Triple.mapM hcapture).before fun m hm => hm.weaken hle).bind fun captured => .given fun hsize => ?_
  have hcount : Tame (modify fun m : Machine => { m with closures := m.closures + 1 }) :=
    .change fun _ _ => .of_objects rfl rfl rfl rfl rfl
  refine (tame hcount).bind fun _ => ?_
  refine (tame .get).bind fun m => tame (.newFunction ?_)
  intro c hc
  obtain rfl := List.mem_singleton.mp hc
  exact ⟨hr.of_mem_children hmem, by simpa using hsize, hlength⟩

-- ---------------------------------------------------------------------------
-- Elements, fields and constants
-- ---------------------------------------------------------------------------

/-- What has been computed is pushed. -/
theorem pushResult {x : Run α} (hx : Tame x) (f : α → Value) :
    σ.Steps (σ.At s) (x >>= fun a => Run.push (f a)) fun _ => σ.At (s.grow 1) :=
  (tame hx).bind fun a => push (f a)

theorem pushConstant {constants : Array α} {k : Nat} (hk : k < constants.size) (wrap : α → Value) :
    σ.Steps (σ.At s) (Run.pushConstant constants k wrap) fun _ => σ.At (s.grow 1) := by
  rw [Run.pushConstant, Array.getElem?_eq_getElem hk]
  exact push _

theorem performElement {n : Nat} (h : n + 1 ≤ s.operands) (use : Use) :
    σ.Steps (σ.At s) (Run.performElement n use) fun _ => σ.At ((s.drop (n + 1)).grow 1) := by
  refine (takeMany (n := n) (by omega)).bind fun indices => (take (by simp; omega)).bind fun container => ?_
  refine (tame (.settle use)).bind fun use => ?_
  split
  · exact pushResult (.elementCell container indices) .cell
  · exact pushResult (.ownElement container indices) id
  · exact (tame .heap).bind fun h => pushResult (.lift (h.element_harmless container indices)) id

theorem performMember {k : Nat} (hk : k < σ.frame.routine.strings.size) (h : 1 ≤ s.operands) (use : Use) :
    σ.Steps (σ.At s) (Run.performMember σ.frame k use) fun _ => σ.At ((s.drop 1).grow 1) := by
  refine (take h).bind fun object => (constant hk).bind fun name => (tame (.settle use)).bind fun use => ?_
  split
  · exact pushResult (.fieldCell object name) .cell
  · exact pushResult (.ownField object name) id
  · exact pushResult (.field object name) id

theorem performAssert {n : Nat} (h : (Instruction.assert n).pops ≤ s.operands) :
    σ.Steps (σ.At s) (Run.performAssert n) fun _ => σ.At (s.drop (Instruction.assert n).pops) := by
  have hcheck (message : Option Value) {t : Shape} (ht : 0 < t.operands) :
      σ.Steps (σ.At t) (do
        let condition ← Run.pop
        let h ← Run.heap
        if !h.truth condition then Run.fail (.assertion (message.elim "assertion failed" h.text)))
        fun _ => σ.At (t.drop 1) := by
    refine (take ht).bind fun v => (tame .heap).bind fun h => ?_
    split
    · exact fail rfl
    · exact .pure fun _ => id
  unfold Run.performAssert
  simp only [Instruction.pops] at h ⊢
  split at h <;> rename_i hn
  · simp only [if_pos hn, bind_map_left]
    exact (take (by omega)).bind fun message => (hcheck (some message) (t := s.drop 1) (by simp; omega))
  · simp only [if_neg hn]
    exact hcheck none h

/-- The slots of a frame are there already. -/
theorem performReserve : σ.Steps (σ.At s) (Run.performReserve σ.frame σ.frame.routine.frameSize) fun _ =>
    σ.At { s with onTop := false } := by
  refine .look fun m hm => ?_
  have hsize := hm.size
  have hroom := hm.within.room
  have hlimit : ¬σ.frame.base + σ.frame.routine.frameSize > m.config.stackLimit := by
    rw [hm.within.config]
    omega
  dsimp only
  rw [if_neg hlimit]
  refine Triple.modify (f := fun _ => _) fun _ _ => ?_
  rw [Nat.sub_eq_zero_of_le (by omega), Array.replicate_zero, Array.append_empty]
  exact hm.weaken ⟨rfl, rfl, List.Subset.refl _, by simp⟩

-- ---------------------------------------------------------------------------
-- Loops
-- ---------------------------------------------------------------------------

theorem newIterator (it : Iterator) :
    σ.Steps (σ.At s) (Run.newObject .iterator (.iterator it)) fun v m => σ.At s m ∧ m.heap.Iterates v := by
  intro m hm
  refine ⟨?_, _, rfl, it, ?_⟩
  · exact hm.spared ((Tame.newObject_plain rfl : Tame (Run.newObject .iterator (.iterator it))) m hm.within.sound)
  · exact (Heap.content?_allocate _ _ _ _).trans (if_pos rfl)

theorem iteratorOf (v : Value) :
    σ.Steps (fun m => σ.At s m ∧ m.heap.Iterates v) (Run.iteratorOf v) fun _ => σ.At s := by
  cases v with
  | object id =>
    refine .lookHeap fun m ⟨hm, id', heq, it, hit⟩ => ?_
    cases heq
    rw [hit]
    exact .pure fun _ h => h ▸ hm
  | _ => exact fun _ ⟨_, _, heq, _⟩ => nomatch heq

theorem nextValue (v : Value) :
    σ.Steps (fun m => σ.At s m ∧ m.heap.Iterates v) (Run.nextValue v) fun _ => σ.At s := by
  refine (iteratorOf v).bind fun (id, it) => tame ?_
  have hadvance (source : Sequence) (position : Nat) : Tame (Run.setContent id
      (.iterator { it with source := source, position := position, count := it.count + 1 })) :=
    .setContent rfl
  dsimp only
  split
  · exact (hadvance _ _).bind fun _ => .pure _
  · exact (hadvance _ _).bind fun _ => .pure _
  · exact (hadvance _ _).bind fun _ => .takeElement _ _ _

-- ---------------------------------------------------------------------------
-- Instructions
-- ---------------------------------------------------------------------------

theorem performPlain {op : Instruction} {shape : Nat → Shape} (hfits : σ.frame.Fits shape)
    (hrange : op.InRange σ.frame.routine) (hadmits : s.Admits op) (hplain : op.isStraight = true) :
    σ.Steps (σ.At s) (Run.performPlain σ.frame op) fun _ => σ.At (s.after σ.frame.routine op) := by
  have hcaptured := hfits.captured
  have hpops := hadmits.pops_le hplain
  cases op with
  | pushNull => exact push _
  | pushBool b => exact push _
  | pushSmall n => exact push _
  | pushInt k => exact pushConstant hrange _
  | pushFloat k => exact pushConstant hrange _
  | pushNan => exact push _
  | pushStr k => exact pushConstant hrange _
  | pop => exact (take hpops).bind fun _ => .pure fun _ => id
  | reserve slots => 
    cases hrange
    exact performReserve
  | read slot use =>
    refine (readSlot hrange hcaptured use).bind fun v => ?_
    let t : Shape := { s with
      iterators := s.iteratorsAfter σ.frame.routine (.read slot use), onTop := false }
    have hafter : s.after σ.frame.routine (.read slot use) =
        { t.grow 1 with onTop := s.leavesIterator (.read slot use) } := rfl
    rw [hafter]
    cases hleaves : s.leavesIterator (.read slot use) with
    | true => exact pushIterator fun m h => ⟨h.1, h.2 hleaves⟩
    | false => exact (push v).before fun m h => h.1
  | write slot =>
    refine (take hpops).bind fun v => (writeSlot hrange hcaptured v).after fun _ m h => ?_
    cases slot <;> exact h
  | define i =>
    refine (pop hpops).bind fun v => ?_
    refine (readLocal (fun _ => And.left) hrange).bind fun _ => ?_
    have hafter : s.after σ.frame.routine (.define i) = { s.drop 1 with
        iterators := if s.onTop then i :: s.iterators else s.iterators.filter (· ≠ i) } := rfl
    rw [hafter]
    split
    · rename_i htop
      exact (setIterator hrange v).before fun m h => ⟨h.1.1, h.1.2 htop⟩
    · exact (setLocal i v).before fun m h => h.1.1
  | declare slot =>
    refine (take hpops).bind fun v => (declare hrange hcaptured v).after fun _ m h => ?_
    cases slot <;> exact h
  | count i up =>
    exact (readLocal (fun _ => id) hrange).bind fun old => ((tame .heap).before fun _ => And.left).bind fun h =>
      (tame (.lift (h.stepCounter_harmless old up))).bind fun v => (tame (.assign v old)).bind fun held =>
      setLocal i held
  | element n use => exact performElement hpops use
  | setElement n =>
    exact (takeMany (n := n) (by simp [Instruction.pops] at hpops; omega)).bind fun indices =>
      (take (by simp [Instruction.pops] at hpops ⊢; omega)).bind fun container =>
      (take (by simp [Instruction.pops] at hpops ⊢; omega)).bind fun v => tame (.setElement container indices v)
  | member k use => exact performMember hrange hpops use
  | setMember k =>
    exact (take (by simp [Instruction.pops] at hpops; omega)).bind fun object =>
      (take (by simp [Instruction.pops] at hpops ⊢; omega)).bind fun v =>
      (constant hrange).bind fun name => tame (.setField object name v)
  | binary op =>
    exact (take (by simp [Instruction.pops] at hpops; omega)).bind fun right =>
      (take (by simp [Instruction.pops] at hpops ⊢; omega)).bind fun left =>
      (tame .heap).bind fun h => pushResult (.lift (h.binary_harmless op left right)) id
  | negate => exact (take hpops).bind fun v => (tame .heap).bind fun h => pushResult (.lift (h.negate_harmless v)) id
  | not => exact (take hpops).bind fun v => (tame .heap).bind fun h => push _
  | concat n => exact (takeMany hpops).bind fun vs => pushResult (.texts vs) _
  | precall =>
    have hcallee : 0 < s.operands := Nat.lt_of_lt_of_le (Nat.succ_pos _) hadmits
    refine (peek hcallee).bind fun callee => .modify fun m h => ?_
    obtain ⟨own, hown, hlength⟩ := h.precall
    refine h.moved ⟨rfl, rfl, h.within.sound, h.within.room, .of_stack rfl fun _ _ => rfl⟩ ?_ h.size
      ⟨h.meets.iterators, fun height hheight => ?_⟩ fun hleaves => absurd hleaves Bool.false_ne_true
    · exact ⟨_ :: own, by rw [hown, List.cons_append], congrArg (· + 1) hlength⟩
    · rcases List.mem_cons.mp hheight with rfl | hheight
      · exact hcallee
      · exact h.meets.pending height hheight
  | closure k params =>
    exact (popMany hpops).bind fun vs => .given fun hsize =>
      (newClosure hfits.sound hrange hcaptured hsize).bind fun v => push v
  | list n =>
    exact (takeMany hpops).bind fun items => (tame .heap).bind fun h => pushResult (.newList _) id
  | table n =>
    exact (takeMany hpops).bind fun vs => (tame .heap).bind fun h => (tame (.lift (h.pairs_harmless _))).bind fun _ =>
      pushResult (.newTable _) id
  | set n =>
    exact (takeMany hpops).bind fun vs => (tame .heap).bind fun h => (tame (.lift (.mapM h.key_harmless _))).bind fun _ =>
      pushResult (.newSet _) id
  | array rows cols =>
    exact (takeMany hpops).bind fun vs => (tame .heap).bind fun h =>
      (tame (.lift (.mapM h.numberOf_harmless _))).bind fun _ =>
      (tame (.lift (Matrix.ofShape_harmless _ _ _))).bind fun _ => pushResult (.newArray _) id
  | iterate byRef =>
    exact (take hpops).bind fun v => (tame .heap).bind fun h => (tame (.lift (h.iterator_harmless v byRef))).bind fun it =>
      (newIterator it).bind fun v => pushIterator fun _ => id
  | hasNext | nextKey =>
    refine (takeIterator hpops (hadmits.2.1 rfl)).bind fun v => (iteratorOf v).bind fun found => ?_
    obtain ⟨_, it⟩ := found
    exact (tame .heap).bind fun h => push _
  | nextValue => exact (takeIterator hpops (hadmits.2.1 rfl)).bind fun v => (nextValue v).bind fun v => push _
  | print n newline =>
    exact (takeMany hpops).bind fun vs => (tame (.texts vs)).bind fun _ => tame (.write _)
  | assert n => exact performAssert hpops
  | throw =>
    exact (take hpops).bind fun v => (tame .heap).bind fun h => fail rfl
  | jump | call | result => cases hplain

-- ---------------------------------------------------------------------------
-- Control flow
-- ---------------------------------------------------------------------------

/-- What is known of the machine when an instruction has told how its frame goes on. Callee and arguments
of a call are the top operands, and the flags recorded for it are gone. -/
def Goes (σ : FrameSite) (s : Shape) (op : Instruction) : Flow → Machine → Prop
  | .next, m => ∃ t, (σ.frame.ip + 1, t) ∈ s.edges σ.frame.routine σ.frame.ip op ∧ σ.At t m
  | .jump target, m => ∃ t, (target, t) ∈ s.edges σ.frame.routine σ.frame.ip op ∧ σ.At t m
  | .enter count keepRef, m =>
    op = .call count keepRef ∧ σ.At { s with pending := s.pending.tail, onTop := false } m
  | .leave _, m => op = .result ∧ σ.At (s.drop 1) m

theorem jumpTaking {target : Nat} {test : JumpTest} (htest : test = .ifFalse ∨ test = .ifTrue)
    (h : 0 < s.operands) (jumpIf : Bool) :
    σ.Steps (σ.At s) (Run.jumpTaking target jumpIf) (σ.Goes s (.jump test target)) := by
  have hedges : s.edges σ.frame.routine σ.frame.ip (.jump test target) =
      [(target, s.drop 1), (σ.frame.ip + 1, s.drop 1)] := by
    rcases htest with rfl | rfl <;> rfl
  refine (take h).bind fun v => (tame .heap).bind fun h => ?_
  split
  · exact .pure fun m hm => ⟨s.drop 1, by simp [hedges], hm⟩
  · exact .pure fun m hm => ⟨s.drop 1, by simp [hedges], hm⟩

theorem jumpKeeping {target : Nat} {test : JumpTest} (htest : test = .ifFalseKeep ∨ test = .ifTrueKeep)
    (h : 0 < s.operands) (jumpIf : Bool) :
    σ.Steps (σ.At s) (Run.jumpKeeping target jumpIf) (σ.Goes s (.jump test target)) := by
  have hedges : s.edges σ.frame.routine σ.frame.ip (.jump test target) =
      [(target, s), (σ.frame.ip + 1, s.drop 1)] := by
    rcases htest with rfl | rfl <;> rfl
  refine (peek h).bind fun v => (tame .heap).bind fun heap => ?_
  split
  · exact .pure fun m hm => ⟨s, by simp [hedges], hm⟩
  · exact (take h).bind fun _ => .pure fun m hm => ⟨s.drop 1, by simp [hedges], hm⟩

theorem performJump (test : JumpTest) (target : Nat) (hadmits : s.Admits (.jump test target)) :
    σ.Steps (σ.At s) (Run.performJump test target) (σ.Goes s (.jump test target)) := by
  cases test with
  | always =>
    exact .pure fun m hm =>
      ⟨_, List.mem_singleton_self _, hm.weaken ⟨rfl, rfl, List.Subset.refl _, nofun⟩⟩
  | ifFalse => exact jumpTaking (.inl rfl) (Nat.lt_of_lt_of_le (Nat.succ_pos _) hadmits.1) false
  | ifTrue => exact jumpTaking (.inr rfl) (Nat.lt_of_lt_of_le (Nat.succ_pos _) hadmits.1) true
  | ifFalseKeep => exact jumpKeeping (.inl rfl) (Nat.lt_of_lt_of_le (Nat.succ_pos _) hadmits) false
  | ifTrueKeep => exact jumpKeeping (.inr rfl) (Nat.lt_of_lt_of_le (Nat.succ_pos _) hadmits) true

theorem performCall (count : Nat) (keepRef : Bool) (hadmits : s.Admits (.call count keepRef)) :
    σ.Steps (σ.At s) (Run.perform σ.frame (.call count keepRef)) (σ.Goes s (.call count keepRef)) := by
  refine (Triple.modify fun m h => ?_).bind
    (Q := fun _ => σ.At { s with pending := s.pending.tail, onTop := false })
    fun _ => .pure fun m hm => ⟨rfl, hm⟩
  obtain ⟨own, hown, hlength⟩ := h.precall
  refine h.moved ⟨rfl, rfl, h.within.sound, h.within.room, .of_stack rfl fun _ _ => rfl⟩ ?_ h.size
    ⟨h.meets.iterators, fun height hheight => h.meets.pending height (List.mem_of_mem_tail hheight)⟩ nofun
  cases own with
  | nil => simp [List.length_eq_zero_iff.mp hlength.symm, Shape.Admits] at hadmits
  | cons flags own => exact ⟨own, by rw [hown]; rfl, by simp [← hlength]⟩

/-- An instruction goes on along an edge, makes the call it stands for, or returns. -/
theorem perform {op : Instruction} {shape : Nat → Shape} (hfits : σ.frame.Fits shape)
    (hrange : op.InRange σ.frame.routine) (hadmits : s.Admits op) :
    σ.Steps (σ.At s) (Run.perform σ.frame op) (σ.Goes s op) := by
  cases op with
  | jump test target => exact performJump test target hadmits
  | call count keepRef => exact performCall count keepRef hadmits
  | result =>
    exact (take (by rw [hadmits.1]; exact Nat.one_pos)).bind fun v => .pure fun m hm => ⟨rfl, hm⟩
  | throw =>
    have hthrow : σ.Steps (σ.At s) (Run.performPlain σ.frame .throw) fun _ _ => False :=
      (take (hadmits.pops_le rfl)).bind fun v => (tame .heap).bind fun h => fail rfl
    exact hthrow.bind fun _ _ h => h.elim
  | _ =>
    exact (performPlain hfits hrange hadmits rfl).bind fun _ =>
      .pure fun m hm => ⟨_, List.mem_singleton_self _, hm⟩

end FrameSite

end Rill
