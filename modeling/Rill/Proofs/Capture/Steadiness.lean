-- SUMMARY: Computations that leave the slots of a frame steady.
import Rill.Proofs.Capture.Operands
import Rill.Proofs.Cells.Places

/-!
# Steady slots

A slot is *bare* or holds a cell. It is steady if what is bare stays bare and a cell stays where it is. Most
computations of a frame leave its slots so: they work on the operands above them, and what they assign to a
variable goes to the cell in its slot if there is one.
-/

namespace Rill

-- ---------------------------------------------------------------------------
-- Bare slots
-- ---------------------------------------------------------------------------

/-- The slot does not exist or holds a plain value. -/
def Bare (v : Option Value) : Prop := ∀ c, v ≠ some (.cell c)

theorem bare_of_isCell {v : Value} (h : v.isCell = false) : Bare (some v) := by
  rintro c ⟨⟩
  cases h

/-- A slot that is not bound anew: what it holds now follows what it held. -/
def Steady (old new : Option Value) : Prop := new = old ∨ Bare old ∧ Bare new

theorem Steady.refl (v : Option Value) : Steady v v := .inl rfl

theorem Steady.trans {u v w : Option Value} (h : Steady u v) (h' : Steady v w) : Steady u w := by
  rcases h with rfl | ⟨hu, hv⟩
  · exact h'
  · rcases h' with rfl | ⟨-, hw⟩
    · exact .inr ⟨hu, hv⟩
    · exact .inr ⟨hu, hw⟩

/-- After a change of a slot the others are as they were. -/
theorem getElem?_setSlot {stack : Array Value} {base i : Nat} (hi : base + i < stack.size) (v : Value) (j : Nat) :
    (stack.setIfInBounds (base + i) v)[base + j]? = if j = i then some v else stack[base + j]? := by
  split
  · next h => rw [h, Array.getElem?_setIfInBounds_self_of_lt hi]
  · next h => exact Array.getElem?_setIfInBounds_ne (by omega)

-- ---------------------------------------------------------------------------
-- Work of a frame
-- ---------------------------------------------------------------------------

/-- The frame goes on with so many operands at least, and its slots are steady. -/
structure Frame.Steadies (f : Frame) (operands : Nat) (m m' : Machine) : Prop where
  sound : m'.heap.IsSound
  control : m'.control = m.control
  room : f.base + f.routine.frameSize + operands ≤ m'.stack.size
  slots : ∀ i < f.routine.frameSize, Steady m.stack[f.base + i]? m'.stack[f.base + i]?

theorem Frame.Steadies.trans {f : Frame} {n k : Nat} {m m' m'' : Machine} (h : f.Steadies n m m')
    (h' : f.Steadies k m' m'') : f.Steadies k m m'' where
  sound := h'.sound
  control := h'.control.trans h.control
  room := h'.room
  slots i hi := (h.slots i hi).trans (h'.slots i hi)

/-- Only operands have changed, or what slots and operands are not part of. -/
theorem Frame.Steadies.of_stack {f : Frame} {n : Nat} {m m' : Machine} (hsound : m'.heap.IsSound)
    (hcontrol : m'.control = m.control) (hroom : f.base + f.routine.frameSize + n ≤ m'.stack.size)
    (hstack : ∀ k < f.base + f.routine.frameSize, m'.stack[k]? = m.stack[k]?) : f.Steadies n m m' :=
  ⟨hsound, hcontrol, hroom, fun i hi => .inl (hstack _ (by omega))⟩

/-- With so many operands above the slots of the frame, the computation leaves its slots steady, and so many
operands. Whatever happens, the activations stay. -/
def Works (f : Frame) (n k : Nat) (x : Run α) : Prop :=
  ∀ m, m.heap.IsSound → f.base + f.routine.frameSize + n ≤ m.stack.size →
    Ends x m (fun _ => f.Steadies k m) (·.control = m.control)

namespace Works

variable {f : Frame} {n k l : Nat} {x : Run α}

theorem bind {g : α → Run β} (hx : Works f n k x) (hg : ∀ a, Works f k l (g a)) : Works f n l (x >>= g) := by
  intro m hm hroom
  have hxm := hx m hm hroom
  refine .bind (.of_outcome (fun a m' h => ?_) fun e m' h => hxm.of_error h)
  have hm' := hxm.of_ok h
  have hgm := hg a m' hm'.sound hm'.room
  exact .of_outcome (fun b m'' h' => hm'.trans (hgm.of_ok h')) fun e m'' h' => (hgm.of_error h').trans hm'.control

end Works

/-- Work on operands keeps slots steady. -/
theorem Alters.works {f : Frame} {n k : Nat} {x : Run α}
    (h : Alters (fun _ => False) (f.base + f.routine.frameSize) n k x) : Works f n k x :=
  fun m hm hroom => (h m hm hroom).after fun _ _ hm' =>
    .of_stack hm'.sound hm'.kept.control hm'.room fun k hk => hm'.kept.stack k hk id

-- ---------------------------------------------------------------------------
-- Variables in slots
-- ---------------------------------------------------------------------------

/-- What a slot holds that is assigned a plain value. -/
theorem steady_assign (old : Value) {v : Value} (hv : v.isCell = false) (m : Machine) :
    Ends (Run.assign old v) m (fun held _ => Steady (some old) (some held)) fun _ => True := by
  cases old with
  | cell c =>
    simp only [Run.assign, hv]
    exact .bind (.modify (.pure (.refl _)))
  | _ => exact .pure (.inr ⟨nofun, bare_of_isCell hv⟩)

/-- A value that is made ready to be changed is no cell. -/
theorem unshare_isCell {v : Value} (hv : v.isCell = false) (extra : List Value) (m : Machine) :
    Ends (Run.unshare v extra) m (fun own _ => own.isCell = false) fun _ => True := by
  cases v with
  | object id =>
    refine .bind (.modify (.bind (.get ?_)))
    split
    · split
      · exact .bind (.of_outcome (fun _ _ _ => .pure rfl) fun _ _ _ => trivial)
      · exact .pure rfl
    · exact .pure rfl
  | _ => exact .pure hv

/-- What a slot holds whose value has been made ready to be changed. -/
theorem steady_unshareSlot (old : Value) (extra : List Value) (m : Machine) :
    Ends (Run.unshareSlot old extra) m (fun r _ => Steady (some old) (some r.1)) fun _ => True := by
  have hbare {v : Value} (hv : v.isCell = false) :
      Ends (Run.unshare v extra >>= fun own => Pure.pure (own, own)) m (fun r _ => Steady (some v) (some r.1))
        fun _ => True :=
    .bind ((unshare_isCell hv extra m).after fun own _ hown =>
      .pure (.inr ⟨bare_of_isCell hv, bare_of_isCell hown⟩))
  cases old with
  | cell c =>
    refine .bind (.heap (.bind (.of_outcome (fun own m' _ => ?_) fun _ _ _ => trivial)))
    exact .bind (.modify (.pure (.refl _)))
  | _ => exact hbare rfl

/-- As `Works`, when a slot of the frame holds a value. -/
def WorksOn (f : Frame) (i : Nat) (old : Value) (n k : Nat) (x : Run α) : Prop :=
  ∀ m, m.heap.IsSound → f.base + f.routine.frameSize + n ≤ m.stack.size → m.stack[f.base + i]? = some old →
    Ends x m (fun _ => f.Steadies k m) (·.control = m.control)

theorem Works.on {f : Frame} {i : Nat} {n k : Nat} {x : Run α} (h : Works f n k x) (old : Value) :
    WorksOn f i old n k x :=
  fun m hm hroom _ => h m hm hroom

theorem Works.readLocal {f : Frame} {i n k : Nat} {g : Value → Run α} (hg : ∀ old, WorksOn f i old n k (g old)) :
    Works f n k (Run.local? f i >>= g) :=
  fun m hm hroom => .bind (.local? rfl fun old hold => hg old m hm hroom hold)

namespace WorksOn

variable {f : Frame} {i : Nat} {old : Value} {n k l : Nat} {x : Run α}

theorem bind {g : α → Run β} {P : α → Prop} (hx : Tame x) (hP : ∀ m, Ends x m (fun a _ => P a) fun _ => True)
    (hg : ∀ a, P a → WorksOn f i old n k (g a)) : WorksOn f i old n k (x >>= g) := by
  intro m hm hroom hold
  refine .bind (.tame hx hm (fun a m' h hspares => ?_) fun m' hspares => hspares.control)
  have hm' : f.Steadies n m m' :=
    .of_stack (hspares.sound hm) hspares.control (hspares.stack ▸ hroom) fun _ _ => by rw [hspares.stack]
  have hgm := hg a ((hP m).of_ok h) m' hm'.sound hm'.room (hspares.stack ▸ hold)
  exact .of_outcome (fun b m'' h' => hm'.trans (hgm.of_ok h')) fun e m'' h' => (hgm.of_error h').trans hm'.control

theorem tame {g : α → Run β} (hx : Tame x) (hg : ∀ a, WorksOn f i old n k (g a)) : WorksOn f i old n k (x >>= g) :=
  bind (P := fun _ => True) hx (fun _ => .of_outcome (fun _ _ _ => trivial) fun _ _ _ => trivial) fun a _ => hg a

theorem setLocal {v : Value} (h : Steady (some old) (some v)) : WorksOn f i old n n (Run.setLocal f i v) := by
  intro m hm hroom hold
  obtain ⟨hi, hold⟩ := Array.getElem?_eq_some_iff.mp hold
  refine .modify ⟨hm, rfl, by simpa using hroom, fun j _ => ?_⟩
  rw [getElem?_setSlot hi]
  split
  · next hj =>
    subst hj
    rw [Array.getElem?_eq_getElem hi, hold]
    exact h
  · exact .refl _

/-- The slot is set, and the computation goes on. -/
theorem setLocal_bind {v : Value} {g : PUnit → Run α} (h : Steady (some old) (some v)) (hg : Works f n k (g ⟨⟩)) :
    WorksOn f i old n k (Run.setLocal f i v >>= g) := by
  intro m hm hroom hold
  have hset := setLocal h m hm hroom hold
  refine .bind (.of_outcome (fun _ m' h' => ?_) fun e m' h' => hset.of_error h')
  have hm' := hset.of_ok h'
  have hgm := hg m' hm'.sound hm'.room
  exact .of_outcome (fun b m'' h' => hm'.trans (hgm.of_ok h')) fun e m'' h' => (hgm.of_error h').trans hm'.control

end WorksOn

-- ---------------------------------------------------------------------------
-- Instructions that keep slots steady
-- ---------------------------------------------------------------------------

namespace Works

variable {f : Frame} {n : Nat}

/-- A variable in a slot is read, or made ready to be changed. -/
theorem readFrame (i : Nat) {use : Use} (h : use = .value ∨ use = .unique) :
    Works f n n (Run.readSlot f (.frame i) use) := by
  rcases h with rfl | rfl
  · exact readLocal fun _ => (Alters.heap.bind fun _ => .pure _).works.on _
  · refine readLocal fun old => .bind (.unshareSlot _ _) (steady_unshareSlot old []) fun (held, own) hheld => ?_
    exact .setLocal_bind hheld (Alters.pure _).works

theorem writeSlot (slot : Slot) {v : Value} (hv : v.isCell = false) : Works f n n (Run.writeSlot f slot v) := by
  cases slot with
  | frame i =>
    exact readLocal fun old => .bind (.assign v old) (steady_assign old hv) fun held hheld => .setLocal hheld
  | captured k => exact (Alters.writeSlot (by simp) v).works
  | global k => exact (Alters.writeSlot (by simp) v).works

theorem declare (slot : Slot) {v : Value} (hv : v.isCell = false) : Works f n n (Run.declare f slot v) := by
  refine (Alters.declaredBefore f slot).works.bind fun before => ?_
  cases v with
  | object id => exact (Alters.tame (.merge before id)).works.bind fun _ => writeSlot slot rfl
  | _ => exact writeSlot slot hv

theorem count (i : Nat) (up : Bool) : Works f n n (Run.performPlain f (.count i up)) := by
  refine readLocal fun old => .tame .heap fun h => ?_
  refine .bind (P := fun v => v.isCell = false) (.lift (h.stepCounter_harmless old up)) (fun m => ?_) fun v hv => ?_
  · exact .lift (fun v hv => h.stepCounter_plain old up v hv) trivial
  · exact .bind (.assign v old) (steady_assign old hv) fun held hheld => .setLocal hheld

end Works

end Rill
