-- SUMMARY: Frames that execute: what operations on operand stack, slots and captured variables do.
import Rill.Machine.Step
import Rill.Proofs.Depth.Steps
import Rill.Proofs.Safety.Variables
import Rill.Proofs.Safety.Waiting

/-!
# Executing frames

While a frame executes an instruction, the operands above its slots are those that a shape promises. Each
operation leads from one shape to another, and a failure leaves a machine in which the activations below
the frame can still go on.
-/

namespace Rill

-- ---------------------------------------------------------------------------
-- Triples
-- ---------------------------------------------------------------------------

/-- Started where `P` holds, the computation ends where `Q` holds of its result, or fails with no defect
of the code where `E` holds. -/
def Triple (P : Machine → Prop) (x : Run α) (Q : α → Machine → Prop) (E : Machine → Prop) : Prop :=
  ∀ m, P m → match x m with
    | .ok a m' => Q a m'
    | .error e m' => E m' ∧ e.fault.isDefect = false

namespace Triple

variable {P P' : Machine → Prop} {x : Run α} {Q Q' : α → Machine → Prop} {E : Machine → Prop}

theorem pure {a : α} {Q : α → Machine → Prop} (h : ∀ m, P m → Q a m) : Triple P (Pure.pure a) Q E := h

theorem bind {f : α → Run β} {R : β → Machine → Prop} (hx : Triple P x Q E)
    (hf : ∀ a, Triple (Q a) (f a) R E) : Triple P (x >>= f) R E := by
  intro m hm
  have hxm := hx m hm
  change match EStateM.bind x f m with
    | .ok b m' => R b m'
    | .error e m' => E m' ∧ e.fault.isDefect = false
  cases h : x m with
  | error e m' =>
    simp only [h] at hxm
    simpa only [EStateM.bind, h] using hxm
  | ok a m' =>
    simp only [h] at hxm
    simpa only [EStateM.bind, h] using hf a m' hxm

theorem before (h : Triple P x Q E) (hP : ∀ m, P' m → P m) : Triple P' x Q E := fun m hm => h m (hP m hm)

theorem after (h : Triple P x Q E) (hQ : ∀ a m, Q a m → Q' a m) : Triple P x Q' E := by
  intro m hm
  have := h m hm
  cases hx : x m with
  | ok a m' =>
    simp only [hx] at this
    exact hQ a m' this
  | error e m' => simpa only [hx] using this

/-- A fact that has nothing to do with the machine. -/
theorem given {p : Prop} (h : p → Triple P x Q E) : Triple (fun m => P m ∧ p) x Q E :=
  fun m hm => h hm.2 m hm.1

theorem fail {fault : Fault} (h : fault.isDefect = false) (hE : ∀ m, P m → E m) :
    Triple P (Run.fail fault : Run α) Q E :=
  fun m hm => ⟨hE m hm, h⟩

/-- A computation without effects, of which the result is known. -/
theorem lift {x : Except Failure α} (hx : Harmless x) (hE : ∀ m, P m → E m) :
    Triple P (monadLift x : Run α) (fun a m => P m ∧ x = .ok a) E := by
  cases x with
  | ok a => exact pure fun _ hm => ⟨hm, rfl⟩
  | error e => exact fun m hm => ⟨hE m hm, hx e rfl⟩

/-- Every element of a list is treated in turn. -/
theorem forM {f : α → Run PUnit} {as : List α} (h : ∀ a ∈ as, Triple P (f a) (fun _ => P) E) :
    Triple P (as.forM f) (fun _ => P) E := by
  induction as with
  | nil => exact pure fun _ hm => hm
  | cons a rest ih =>
    exact (h a List.mem_cons_self).bind fun _ => ih fun a' ha' => h a' (List.mem_cons_of_mem a ha')

theorem ite {c : Prop} [Decidable c] {y : Run α} (hx : c → Triple P x Q E) (hy : ¬c → Triple P y Q E) :
    Triple P (if c then x else y) Q E := by
  split
  · exact hx ‹_›
  · exact hy ‹_›

/-- The computation looks at the machine first. -/
theorem look {f : Machine → Run α} (h : ∀ m, P m → Triple (· = m) (f m) Q E) :
    Triple P (MonadState.get >>= f) Q E :=
  fun m hm => h m hm m rfl

/-- The computation looks at the heap first. -/
theorem lookHeap {f : Heap → Run α} (h : ∀ m, P m → Triple (· = m) (f m.heap) Q E) :
    Triple P (Run.heap >>= f) Q E :=
  fun m hm => h m hm m rfl

theorem modify {f : Machine → Machine} {Q : PUnit → Machine → Prop} (h : ∀ m, P m → Q ⟨⟩ (f m)) :
    Triple P (modify f : Run PUnit) Q E := h

theorem mapM {f : α → Run β} {as : List α} (h : ∀ a ∈ as, Triple P (f a) (fun _ => P) E) :
    Triple P (as.mapM f) (fun bs m => P m ∧ bs.length = as.length) E := by
  induction as with
  | nil => exact pure fun _ hm => ⟨hm, rfl⟩
  | cons a rest ih =>
    rw [List.mapM_cons]
    refine (h a List.mem_cons_self).bind fun b => ?_
    refine (ih fun a' ha' => h a' (List.mem_cons_of_mem a ha')).bind fun bs => ?_
    exact pure fun _ hm => ⟨hm.1, by simp [hm.2]⟩

end Triple

/-- A tame computation keeps what sparing keeps. -/
theorem Tame.triple {x : Run α} (hx : Tame x) {P E : Machine → Prop}
    (hP : ∀ m m', P m → m.Spares m' → P m') (hsound : ∀ m, P m → m.heap.IsSound)
    (hE : ∀ m, P m → E m) : Triple P x (fun _ => P) E := by
  intro m hm
  have := hx m (hsound m hm)
  cases h : x m with
  | ok a m' =>
    simp only [h] at this
    exact hP m m' hm this
  | error e m' =>
    simp only [h] at this
    exact ⟨hE m' (hP m m' hm this.1), this.2⟩

/-- The value is an iterator. -/
def Heap.Iterates (h : Heap) (v : Value) : Prop := ∃ id, v = .object id ∧ h.IsIterator id

-- ---------------------------------------------------------------------------
-- Shapes
-- ---------------------------------------------------------------------------

namespace Shape

/-- The shape with fewer operands. -/
def drop (s : Shape) (n : Nat) : Shape := { s with operands := s.operands - n, onTop := false }

/-- The shape in which a slot may hold something else than an iterator. -/
def forget (s : Shape) (i : Nat) : Shape :=
  { s with iterators := s.iterators.filter (· ≠ i), onTop := false }

@[simp] theorem drop_operands (s : Shape) (n : Nat) : (s.drop n).operands = s.operands - n := rfl
@[simp] theorem drop_onTop (s : Shape) (n : Nat) : (s.drop n).onTop = false := rfl
@[simp] theorem forget_operands (s : Shape) (i : Nat) : (s.forget i).operands = s.operands := rfl
@[simp] theorem forget_onTop (s : Shape) (i : Nat) : (s.forget i).onTop = false := rfl

end Shape

-- ---------------------------------------------------------------------------
-- Sites
-- ---------------------------------------------------------------------------

/-- A frame that is the innermost activation of a call that a host made with its callee in the slot
`callee`. The activations below it wait for a result in the slot before those of the frame; when it was
entered, the flags in `precall` were recorded. -/
structure FrameSite where
  host : Machine
  callee : Nat
  frame : Frame
  rest : List Activation
  slot : Nat
  precall : List RefFlags

namespace FrameSite

/-- The frame executes with a shape. -/
structure At (σ : FrameSite) (s : Shape) (m : Machine) : Prop where
  within : Within σ.host σ.callee m
  control : m.control = .script σ.frame :: σ.rest
  base : σ.frame.base = σ.slot + 1
  waits : Waits σ.host σ.callee m σ.rest σ.slot σ.precall
  precall : ∃ own, m.precall = own ++ σ.precall ∧ own.length = s.pending.length
  size : m.stack.size = σ.frame.base + σ.frame.routine.frameSize + s.operands
  meets : σ.frame.Meets s m
  onTop : s.onTop = true → m.HoldsIterator (m.stack.size - 1)

/-- The computation keeps the site, whatever happens. -/
abbrev Steps (σ : FrameSite) (P : Machine → Prop) (x : Run α) (Q : α → Machine → Prop) : Prop :=
  Triple P x Q (Interrupted σ.host σ.callee)

variable {σ : FrameSite} {s t : Shape} {m m' : Machine}

theorem At.weaken (h : σ.At s m) (hle : s ≤ t) : σ.At t m :=
  { h with
    precall := hle.pending ▸ h.precall
    size := hle.operands ▸ h.size
    meets := h.meets.weaken hle
    onTop := fun ht => h.onTop (hle.onTop ht) }

theorem At.interrupted (h : σ.At s m) : Interrupted σ.host σ.callee m := by
  obtain ⟨own, hown, -⟩ := h.precall
  have hcontrol : m.control = [.script σ.frame] ++ σ.rest := h.control
  refine .intro h.within hcontrol ?_ h.waits ?_ (hown ▸ List.suffix_append _ _)
  · intro a ha
    obtain rfl := List.mem_singleton.mp ha
    rfl
  · have := h.base
    have := h.size
    omega

/-- The machine has changed above the slots of the waiting activations. -/
structure Moves (σ : FrameSite) (m m' : Machine) : Prop where
  config : m'.config = m.config
  control : m'.control = m.control
  sound : m'.heap.IsSound
  room : m'.stack.size ≤ σ.host.config.stackLimit
  below : m.SparesBelow m' σ.frame.base

theorem At.frames_eq (hm : σ.Moves m m') : m'.frames = m.frames := by
  rw [Machine.frames, hm.control, Machine.frames]

/-- What the site keeps when the frame works on its slots and operands. -/
theorem At.moved (h : σ.At s m) (hm : σ.Moves m m')
    (precall : ∃ own, m'.precall = own ++ σ.precall ∧ own.length = t.pending.length)
    (size : m'.stack.size = σ.frame.base + σ.frame.routine.frameSize + t.operands)
    (meets : σ.frame.Meets t m') (onTop : t.onTop = true → m'.HoldsIterator (m'.stack.size - 1)) :
    σ.At t m' := by
  have hbase := h.base
  have hcallee := h.waits.callee_le
  exact {
    within := h.within.spared (hm.below.mono (by omega)) hm.config hm.room hm.sound
      (Nat.le_of_eq (by rw [At.frames_eq hm]))
    control := hm.control.trans h.control
    base := hbase
    waits := h.waits.spared (hm.below.mono (by omega))
    precall, size, meets, onTop }

/-- Only slots and operands have changed. -/
theorem At.restacked (h : σ.At s m) {stack : Array Value} (hroom : stack.size ≤ σ.host.config.stackLimit)
    (hbelow : ∀ k < σ.frame.base + σ.frame.routine.frameSize, stack[k]? = m.stack[k]?) {n : Nat}
    {onTop : Bool} (hsize : stack.size = σ.frame.base + σ.frame.routine.frameSize + n)
    (htop : onTop = true → Machine.HoldsIterator { m with stack := stack } (stack.size - 1)) :
    σ.At { s with operands := n, onTop := onTop } { m with stack := stack } := by
  have hspares : m.SparesBelow { m with stack := stack } (σ.frame.base + σ.frame.routine.frameSize) :=
    .of_stack rfl hbelow
  exact h.moved ⟨rfl, rfl, h.within.sound, hroom, hspares.mono (Nat.le_add_right _ _)⟩ h.precall hsize
    ⟨(h.meets.spared hspares).iterators, h.meets.pending⟩ htop

theorem At.spared (h : σ.At s m) (hm : m.Spares m') : σ.At s m' := by
  have hroom : m'.stack.size ≤ σ.host.config.stackLimit := hm.stack ▸ h.within.room
  refine h.moved ⟨hm.config, hm.control, hm.sound h.within.sound, hroom, hm.below _⟩ ?_ ?_
    (h.meets.spared (hm.below _)) fun ht => ?_
  · rw [hm.precall]
    exact h.precall
  · rw [hm.stack]
    exact h.size
  · rw [hm.stack]
    exact hm.holdsIterator (h.onTop ht)

-- ---------------------------------------------------------------------------
-- Operands
-- ---------------------------------------------------------------------------

/-- A computation on values leaves slots and operands as they are. -/
theorem tame {x : Run α} (hx : Tame x) : σ.Steps (σ.At s) x fun _ => σ.At s :=
  hx.triple (fun _ _ h hm => h.spared hm) (fun _ h => h.within.sound) fun _ h => h.interrupted

theorem lift {x : Except Failure α} (hx : Harmless x) :
    σ.Steps (σ.At s) (monadLift x) fun a m => σ.At s m ∧ x = .ok a :=
  .lift hx fun _ h => h.interrupted

theorem fail {fault : Fault} (h : fault.isDefect = false) {Q : α → Machine → Prop} :
    σ.Steps (σ.At s) (Run.fail fault) Q :=
  .fail h fun _ hm => hm.interrupted

theorem push (v : Value) : σ.Steps (σ.At s) (Run.push v) fun _ => σ.At (s.grow 1) := by
  refine .look fun m hm => ?_
  have hsize := hm.size
  split
  · exact .fail rfl fun _ h => h ▸ hm.interrupted
  · rename_i hroom
    rw [hm.within.config] at hroom
    refine .modify fun _ h => ?_
    subst h
    exact hm.restacked (by simp; omega) (fun k hk => by rw [Array.getElem?_push_lt (by omega)]; simp)
      (by simp; omega) (by simp)

theorem pushIterator {P : Machine → Prop} (hP : ∀ m, P m → σ.At s m ∧ m.heap.Iterates v) :
    σ.Steps P (Run.push v) fun _ => σ.At s.growIterator := by
  refine .look fun m hm => ?_
  obtain ⟨hm, id, rfl, hid⟩ := hP m hm
  have hsize := hm.size
  split
  · exact .fail rfl fun _ h => h ▸ hm.interrupted
  · rename_i hroom
    rw [hm.within.config] at hroom
    refine .modify fun _ h => ?_
    subst h
    refine hm.restacked (by simp; omega) (fun k hk => by rw [Array.getElem?_push_lt (by omega)]; simp)
      (by simp; omega) fun _ => ⟨id, by simp, hid⟩

/-- The top operand is an iterator if the shape says so. -/
theorem pop (h : 0 < s.operands) :
    σ.Steps (σ.At s) Run.pop fun v m => σ.At (s.drop 1) m ∧ (s.onTop = true → m.heap.Iterates v) := by
  refine .look fun m hm => ?_
  have hsize := hm.size
  have hroom := hm.within.room
  split
  · rename_i v hv
    refine (Triple.modify fun _ h => ?_).bind (Q := fun _ m => σ.At (s.drop 1) m ∧ (s.onTop = true → m.heap.Iterates v)) fun _ => .pure fun _ => id
    subst h
    refine ⟨hm.restacked (by simp; omega) (fun k hk => ?_) (by simp; omega) (by simp), fun ht => ?_⟩
    · simp [Array.getElem?_pop]; omega
    · obtain ⟨id, hid, hiter⟩ := hm.onTop ht
      rw [Array.back?_eq_getElem?, hid] at hv
      exact ⟨id, (Option.some.inj hv).symm, hiter⟩
  · rename_i hv
    rw [Array.back?_eq_none_iff] at hv
    simp [hv] at hsize
    omega

theorem popMany {n : Nat} (h : n ≤ s.operands) :
    σ.Steps (σ.At s) (Run.popMany n) fun vs m => σ.At (s.drop n) m ∧ vs.size = n := by
  refine .look fun m hm => ?_
  have hsize := hm.size
  have hroom := hm.within.room
  dsimp only
  rw [if_neg (by omega)]
  refine (Triple.modify fun _ h => ?_).bind
    (Q := fun _ m' => σ.At (s.drop n) m') fun _ => .pure fun _ h => ⟨h, ?_⟩
  · subst h
    exact hm.restacked (by simp; omega) (fun k hk => by simp [Array.getElem?_extract]; omega) (by simp; omega) (by simp)
  · simp
    omega

theorem take (h : 0 < s.operands) : σ.Steps (σ.At s) Run.pop fun _ => σ.At (s.drop 1) :=
  (pop h).after fun _ _ => And.left

theorem takeIterator (h : 0 < s.operands) (ht : s.onTop = true) :
    σ.Steps (σ.At s) Run.pop fun v m => σ.At (s.drop 1) m ∧ m.heap.Iterates v :=
  (pop h).after fun _ _ h => ⟨h.1, h.2 ht⟩

theorem takeMany {n : Nat} (h : n ≤ s.operands) :
    σ.Steps (σ.At s) (Run.popMany n) fun _ => σ.At (s.drop n) :=
  (popMany h).after fun _ _ => And.left

theorem peek (h : 0 < s.operands) : σ.Steps (σ.At s) (Run.peek 0) fun _ => σ.At s := by
  refine .look fun m hm => ?_
  have hsize := hm.size
  dsimp only
  rw [if_pos (by omega), Nat.sub_zero, Array.getElem?_eq_getElem (by omega)]
  exact .pure fun _ h => h ▸ hm

-- ---------------------------------------------------------------------------
-- Slots
-- ---------------------------------------------------------------------------

/-- A slot that exists can be read; what it holds is an iterator if the shape says so. -/
theorem readLocal {P : Machine → Prop} (hP : ∀ m, P m → σ.At s m) {i : Nat}
    (hi : i < σ.frame.routine.frameSize) :
    σ.Steps P (Run.local? σ.frame i) fun v m => P m ∧ (i ∈ s.iterators → m.heap.Iterates v) := by
  refine .look fun m hPm => ?_
  have hm := hP m hPm
  have hsize := hm.size
  rw [Array.getElem?_eq_getElem (by omega)]
  refine .pure fun _ h => ?_
  subst h
  refine ⟨hPm, fun hmem => ?_⟩
  obtain ⟨id, hid, hiter⟩ := (hm.meets.iterators i hmem).2
  rw [Array.getElem?_eq_getElem (by omega)] at hid
  exact ⟨id, Option.some.inj hid, hiter⟩

theorem At.setLocal (h : σ.At s m) (i : Nat) (v : Value) :
    σ.At (s.forget i) { m with stack := m.stack.setIfInBounds (σ.frame.base + i) v } := by
  have hspares : m.SparesBelow { m with stack := m.stack.setIfInBounds (σ.frame.base + i) v }
      σ.frame.base :=
    .of_stack rfl fun k hk => Array.getElem?_setIfInBounds_ne (by omega)
  refine h.moved ⟨rfl, rfl, h.within.sound, by simpa using h.within.room, hspares⟩ h.precall
    (by simpa using h.size) ⟨fun j hj => ?_, h.meets.pending⟩ (by simp)
  obtain ⟨hj, hne⟩ := List.mem_filter.mp hj
  obtain ⟨hlt, id, hid, hiter⟩ := h.meets.iterators j hj
  refine ⟨hlt, id, ?_, hiter⟩
  have hij : j ≠ i := by simpa using hne
  rw [← hid]
  exact Array.getElem?_setIfInBounds_ne (by omega)

theorem setLocal (i : Nat) (v : Value) :
    σ.Steps (σ.At s) (Run.setLocal σ.frame i v) fun _ => σ.At (s.forget i) :=
  .modify fun _ h => h.setLocal i v

/-- The slot of a loop is given its iterator. -/
theorem setIterator {i : Nat} (hi : i < σ.frame.routine.frameSize) (v : Value) :
    σ.Steps (fun m => σ.At s m ∧ m.heap.Iterates v) (Run.setLocal σ.frame i v) fun _ =>
      σ.At { s with iterators := i :: s.iterators, onTop := false } := by
  refine .modify fun m ⟨h, id, hid, hiter⟩ => ?_
  have hset := h.setLocal i v
  have hsize := h.size
  refine { hset with meets := ⟨fun j hj => ?_, h.meets.pending⟩, onTop := by simp }
  by_cases hij : j = i
  · subst hij
    refine ⟨hi, id, ?_, hiter⟩
    rw [Array.getElem?_setIfInBounds_self_of_lt (by omega), hid]
  · exact hset.meets.iterators j
      (List.mem_filter.mpr ⟨(List.mem_cons.mp hj).resolve_left hij, by simpa using hij⟩)

theorem localCell {i : Nat} (hi : i < σ.frame.routine.frameSize) :
    σ.Steps (σ.At s) (Run.localCell σ.frame i) fun _ => σ.At (s.forget i) :=
  (readLocal (fun _ => id) hi).bind fun v => (((tame (.cellFor v)).before fun _ => And.left).bind fun _ =>
    (setLocal i _).bind fun _ => .pure fun _ => id)

-- ---------------------------------------------------------------------------
-- Captured variables and constants
-- ---------------------------------------------------------------------------

theorem capturedCell {i : Nat} (hi : i < σ.frame.closure.captured.size) :
    σ.Steps (σ.At s) (Run.capturedCell σ.frame i) fun _ => σ.At s := by
  rw [Run.capturedCell, Array.getElem?_eq_getElem hi]
  exact .pure fun _ => id

theorem constant {k : Nat} (hk : k < σ.frame.routine.strings.size) :
    σ.Steps (σ.At s) (Run.constant σ.frame k) fun _ => σ.At s := by
  rw [Run.constant, Array.getElem?_eq_getElem hk]
  exact .pure fun _ => id

end FrameSite

end Rill
