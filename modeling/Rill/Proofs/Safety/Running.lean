-- SUMMARY: Every step of a running machine goes on or fails cleanly, and so does every number of steps.
import Rill.Proofs.Safety.Calling

/-!
# Steps of a running machine

A step of a machine that runs a call of its host leads to such a machine again, or fails with no defect of
the code. After a failure the innermost guarded call goes on, and without one everything that the host had
is still there. So it is for any number of steps.
-/

namespace Rill

namespace Running

variable {host m m' : Machine} {callee : Nat}

theorem spared (h : Running host callee m) (hm : m.Spares m') : Running host callee m' := by
  cases h with
  | done within control precall size =>
    have hroom : m'.stack.size ≤ host.config.stackLimit := hm.stack ▸ within.room
    refine .done (within.spared (hm.below _) hm.config hroom (hm.sound within.sound) ?_)
      (hm.control.trans control) (hm.precall.trans precall) (by rw [hm.stack, size])
    rw [Machine.frames, hm.control, Machine.frames]
  | entering atop => exact .entering (atop.spared hm)
  | answered resuming above => exact .answered (resuming.spared hm) above
  | entered atop base fits start arguments room =>
    exact .entered (atop.spared hm) base fits start arguments room
  | executing fits inside site => exact .executing fits inside (site.spared hm)

theorem interrupted (h : Running host callee m) : Interrupted host callee m := by
  cases h with
  | done within control precall size =>
    have hcontrol : m.control = [] ++ host.control := control
    exact .intro within hcontrol (by simp) .host (by omega) (precall ▸ List.suffix_refl _)
  | entering atop => exact atop.interrupted rfl
  | answered resuming above => exact resuming.interrupted (Nat.le_succ _)
  | entered atop => exact atop.interrupted rfl
  | executing fits inside site => exact site.interrupted

end Running

-- ---------------------------------------------------------------------------
-- Steps
-- ---------------------------------------------------------------------------

section Steps

variable {host : Machine} {callee slot : Nat} {rest : List Activation} {precall : List RefFlags}

theorem enter_running (hidle : host.IsIdle) {count : Nat} {keepRef : Bool} :
    Triple (Atop host callee (.entering count keepRef) rest slot precall (slot + 1 + count))
      (Run.enter count keepRef) (fun _ => Running host callee) (Interrupted host callee) := by
  refine begin_running.bind fun begun => ?_
  cases begun with
  | some w =>
    intro m ⟨hw, hatop⟩
    exact (((Atop.tame hw (w.fn.run_tame w.args)).bind fun reply => continueNative_running hidle hw reply) m hatop)
  | none =>
    exact Tame.collectIfDue.triple (fun _ _ h hm => h.spared hm) (fun _ h => h.interrupted.within.sound) fun _ h => h.interrupted

/-- A frame goes on at another instruction. -/
theorem FrameSite.At.goes {f : Frame} {s : Shape} {m : Machine}
    (h : FrameSite.At ⟨host, callee, f, rest, slot, precall⟩ s m) (n : Nat) :
    FrameSite.At ⟨host, callee, { f with ip := n }, rest, slot, precall⟩ s
      { m with control := .script { f with ip := n } :: rest } := by
  have hspares : m.SparesBelow { m with control := .script { f with ip := n } :: rest } slot :=
    .of_stack rfl fun _ _ => rfl
  have hframes : ({ m with control := .script { f with ip := n } :: rest } : Machine).frames.length =
      m.frames.length := by
    rw [Machine.frames, Machine.frames, h.control]
    rfl
  exact ⟨h.within.spared (hspares.mono h.waits.callee_le) rfl h.within.room h.within.sound
    (Nat.le_of_eq hframes), rfl, h.base, h.waits.spared hspares, h.precall, h.size,
    ⟨h.meets.iterators, h.meets.pending⟩, h.onTop⟩

/-- Along an edge a frame comes to an instruction that exists, with its shape. -/
theorem FrameSite.At.running {f : Frame} {shape : Nat → Shape} (fits : f.Fits shape) {op : Instruction}
    (has : f.routine.Has f.ip op) {target : Nat} {t : Shape}
    (edge : (target, t) ∈ (shape f.ip).edges f.routine f.ip op) {m : Machine}
    (h : FrameSite.At ⟨host, callee, f, rest, slot, precall⟩ t m) :
    Running host callee { m with control := .script { f with ip := target } :: rest } := by
  obtain ⟨inside, hle⟩ := fits.assigned.edges _ _ has _ edge
  exact .executing (f := { f with ip := target }) ⟨fits.sound, fits.assigned, fits.captured, fits.arity⟩ inside
    ((h.goes target).weaken hle)

theorem goTo_running {f : Frame} {shape : Nat → Shape} (fits : f.Fits shape) {op : Instruction}
    (has : f.routine.Has f.ip op) (next : Nat → Nat) {E : Machine → Prop} :
    Triple (fun m => ∃ t, (next f.ip, t) ∈ (shape f.ip).edges f.routine f.ip op ∧
        FrameSite.At ⟨host, callee, f, rest, slot, precall⟩ t m)
      (Run.goTo next) (fun _ => Running host callee) E := by
  refine .modify fun m ⟨t, edge, h⟩ => ?_
  rw [h.control]
  exact h.running fits has edge

/-- A frame makes a call. -/
theorem FrameSite.At.calling {f : Frame} {shape : Nat → Shape} (fits : f.Fits shape) {count : Nat}
    {keepRef : Bool} (has : f.routine.Has f.ip (.call count keepRef)) {m : Machine}
    (h : FrameSite.At ⟨host, callee, f, rest, slot, precall⟩
      { shape f.ip with pending := (shape f.ip).pending.tail, onTop := false } m)
    (hpending : ∀ height ∈ (shape f.ip).pending, 0 < height) :
    Running host callee { m with control := .entering count keepRef :: m.control } := by
  obtain ⟨hle, hhead⟩ := fits.assigned.admits _ _ has
  obtain ⟨top, below, hlist⟩ := List.exists_cons_of_ne_nil (l := (shape f.ip).pending) (by
    intro hnil
    simp [hnil] at hhead)
  obtain ⟨own, hown, hlength⟩ := h.precall
  have htop : 0 < top := hpending top (by simp [hlist])
  have hoperands : top = (shape f.ip).operands - count := by simpa [hlist] using hhead
  have hspares : m.SparesBelow { m with control := .entering count keepRef :: m.control } m.stack.size :=
    .of_stack rfl fun _ _ => rfl
  have hsize : m.stack.size = f.base + f.routine.frameSize + (shape f.ip).operands := h.size
  have hbase : f.base = slot + 1 := h.base
  have hcallee : callee ≤ slot := h.waits.callee_le
  have hslot : slot ≤ m.stack.size := by omega
  have hwaits : Waits host callee { m with control := .entering count keepRef :: m.control }
      (.script f :: rest) (f.base + f.routine.frameSize + (top - 1)) (own ++ precall) :=
    .script (h.waits.spared (hspares.mono hslot)) h.base fits has (by omega)
      (by simpa [hlist] using hlength.symm) ⟨h.meets.iterators, hpending⟩
  refine .entering ⟨?_, by rw [h.control], hwaits, hown, by simp; omega, by omega⟩
  exact h.within.spared (hspares.mono (hcallee.trans hslot)) rfl h.within.room h.within.sound (Nat.le_refl _)

/-- A frame that returns has no operands left, and no callee waits in it. -/
theorem FrameSite.At.leaving {f : Frame} {s : Shape} {m : Machine}
    (h : FrameSite.At ⟨host, callee, f, rest, slot, precall⟩ (s.drop 1) m) (hpending : s.pending = []) :
    Atop host callee (.script f) rest (f.base - 1) precall m.stack.size m := by
  obtain ⟨own, hown, hlength⟩ := h.precall
  obtain rfl : own = [] := List.length_eq_zero_iff.mp (by simpa [Shape.drop, hpending] using hlength)
  have hsize := h.size
  have hbase : f.base = slot + 1 := h.base
  simp only at hsize
  obtain rfl : f.base - 1 = slot := by omega
  exact ⟨h.within, h.control, h.waits, hown, rfl, by omega⟩

theorem stepFrame_running (hidle : host.IsIdle) {f : Frame} {shape : Nat → Shape} (fits : f.Fits shape)
    (inside : f.ip < f.routine.code.size) :
    Triple (FrameSite.At ⟨host, callee, f, rest, slot, precall⟩ (shape f.ip)) (Run.stepFrame f)
      (fun _ => Running host callee) (Interrupted host callee) := by
  intro m hm
  obtain ⟨op, has⟩ : ∃ op, f.routine.Has f.ip op := ⟨_, Array.getElem?_eq_getElem inside⟩
  have hrange := (fits.sound _ .self).inRange _ _ has
  have hadmits := fits.assigned.admits _ _ has
  have hop : f.routine.code.ops[f.ip]? = some op := has
  unfold Run.stepFrame
  simp only [hop]
  refine ((FrameSite.perform fits hrange hadmits).bind fun flow => ?_) m hm
  cases flow with
  | next => exact goTo_running fits has (· + 1)
  | jump target => exact goTo_running fits has fun _ => target
  | enter count keepRef =>
    refine .modify fun m h => ?_
    obtain ⟨rfl, h⟩ := h
    exact h.calling fits has hm.meets.pending
  | leave v =>
    refine fun m h => ?_
    obtain ⟨rfl, h⟩ := h
    exact complete_running hidle f.keepRef v m (h.leaving hadmits.2)

/-- The first instruction of a frame makes its slots. -/
theorem reserve_running {f : Frame} {shape : Nat → Shape} {height : Nat} (fits : f.Fits shape)
    (base : f.base = slot + 1) (start : f.ip = 0) (room : height ≤ f.base + f.routine.frameSize) :
    Triple (Atop host callee (.script f) rest slot precall height) (Run.stepFrame f)
      (fun _ => Running host callee) (Interrupted host callee) := by
  have has : f.routine.Has f.ip (.reserve f.routine.frameSize) := start ▸ (fits.sound _ .self).nonempty
  have hop : f.routine.code.ops[f.ip]? = some (.reserve f.routine.frameSize) := has
  unfold Run.stepFrame
  simp only [hop]
  have hreserve : Triple (Atop host callee (.script f) rest slot precall height)
      (Run.performReserve f f.routine.frameSize)
      (fun _ => FrameSite.At ⟨host, callee, f, rest, slot, precall⟩ {}) (Interrupted host callee) := by
    refine .look fun m hm => ?_
    have hsize := hm.size
    have habove := hm.above
    dsimp only
    split
    · exact .fail rfl fun _ h => h ▸ hm.interrupted rfl
    · rename_i hlimit
      rw [hm.within.config] at hlimit
      refine .modify (f := fun _ => _) fun _ _ => ?_
      have hspares : m.SparesBelow
          { m with
            stack := m.stack ++ Array.replicate (f.base + f.routine.frameSize - m.stack.size) Value.null }
          slot :=
        .of_stack rfl fun k hk => Array.getElem?_append_left (by omega)
      refine ⟨hm.within.spared (hspares.mono hm.waits.callee_le) rfl (by simp; omega) hm.within.sound
        (Nat.le_refl _), hm.control, base, hm.waits.spared hspares, ⟨[], hm.precall, rfl⟩, ?_,
        ⟨List.forall_mem_nil _, List.forall_mem_nil _⟩, nofun⟩
      simp
      omega
  have hperform : Triple (Atop host callee (.script f) rest slot precall height)
      (Run.perform f (.reserve f.routine.frameSize))
      (fun flow m => FrameSite.At ⟨host, callee, f, rest, slot, precall⟩ {} m ∧ flow = .next)
      (Interrupted host callee) :=
    hreserve.bind fun _ => .pure fun _ h => ⟨h, rfl⟩
  refine hperform.bind fun flow => .given fun hflow => ?_
  subst hflow
  refine (goTo_running fits has (· + 1)).before fun m h => ⟨{}, ?_, h⟩
  rw [start, fits.assigned.start]
  exact List.mem_singleton_self _

-- ---------------------------------------------------------------------------
-- One step
-- ---------------------------------------------------------------------------

theorem step_running (hidle : host.IsIdle) :
    Triple (fun m => Running host callee m ∧ host.control.length < m.control.length) Run.step
      (fun _ => Running host callee) (Interrupted host callee) := by
  refine .look fun m ⟨hm, hlength⟩ => ?_
  cases hm with
  | done within control => exact absurd hlength (by rw [control]; exact Nat.lt_irrefl _)
  | entering atop =>
    rw [atop.control]
    exact (enter_running hidle).before fun _ h => h ▸ atop
  | answered resuming above =>
    rw [resuming.atop.control]
    exact (resumeNative_running hidle above).before fun _ h => h ▸ resuming
  | entered atop base fits start arguments room =>
    rw [atop.control]
    exact (reserve_running fits base start room).before fun _ h => h ▸ atop
  | executing fits inside site =>
    rw [site.control]
    exact (stepFrame_running hidle fits inside).before fun _ h => h ▸ site

/-- The innermost guarded call among activations that wait is one of the host's, or it can go on. -/
theorem Waits.guarded {m : Machine} {acts : List Activation} (h : Waits host callee m acts slot precall) :
    acts.dropWhile (!·.isGuarded) = host.control.dropWhile (!·.isGuarded) ∨
    ∃ w rest before, acts.dropWhile (!·.isGuarded) = .native w :: rest ∧
      Waits host callee m rest w.slot before ∧ w.slot < w.inner ∧ w.inner < host.config.stackLimit ∧
      w.precalls = before.length ∧ w.inner ≤ slot ∧ before <:+ precall := by
  induction h with
  | host => exact .inl rfl
  | @native w rest precall outer above room precalls ih =>
    cases hw : (Activation.native w).isGuarded with
    | true =>
      refine .inr ⟨w, rest, precall, ?_, outer, above, room, precalls, Nat.le_refl _, List.suffix_refl _⟩
      simp [hw]
    | false =>
      rw [List.dropWhile_cons_of_pos (by simp [hw])]
      refine ih.imp_right fun ⟨w', rest', before, hdrop, hwaits, above', room', precalls', hle, hsuffix⟩ => ?_
      exact ⟨w', rest', before, hdrop, hwaits, above', room', precalls', by omega, hsuffix⟩
  | script outer base _ _ _ _ _ ih =>
    rw [List.dropWhile_cons_of_pos rfl]
    refine ih.imp_right fun ⟨w', rest', before, hdrop, hwaits, above', room', precalls', hle, hsuffix⟩ => ?_
    exact ⟨w', rest', before, hdrop, hwaits, above', room', precalls', by omega, hsuffix.trans (List.suffix_append _ _)⟩

/-- What is dropped from activations that wait for nothing. -/
theorem dropWhile_begun {begun acts : List Activation} (h : ∀ a ∈ begun, a.isGuarded = false) :
    (begun ++ acts).dropWhile (!·.isGuarded) = acts.dropWhile (!·.isGuarded) := by
  rw [List.dropWhile_append_of_pos]
  simpa using h

/-- A guarded call takes a failure and goes on. -/
theorem recover_running {m m' : Machine} {e : Failure} (h : Interrupted host callee m)
    (hm' : m.recover host.control.length e = some m') : Running host callee m' := by
  obtain ⟨hwithin, hcontrol, hbegun, hwaits, hheight, hsuffix⟩ := h
  unfold Machine.recover at hm'
  rw [hcontrol, dropWhile_begun hbegun] at hm'
  rcases hwaits.guarded with hhost | ⟨w, rest, before, hdrop, houter, above, room, hprecalls, hle, hbefore⟩
  · -- The guarded call is none of those of this run.
    rw [hhost] at hm'
    split at hm'
    · rename_i w rest heq
      have hlength := (List.dropWhile_suffix (p := (!·.isGuarded)) (l := host.control)).length_le
      rw [heq, List.length_cons] at hlength
      rw [if_pos (by omega)] at hm'
      cases hm'
    · cases hm'
  · have hlength := houter.control_suffix.length_le
    rw [hdrop] at hm'
    simp only [if_neg (Nat.not_lt.mpr hlength), Option.some.injEq] at hm'
    have hprecall : m'.precall = before := by
      rw [← hm']
      change m.precall.drop (m.precall.length - w.precalls) = before
      rw [hprecalls]
      exact (List.suffix_iff_eq_drop.mp (hbefore.trans hsuffix)).symm
    have hsize : m'.stack.size = w.inner + 1 := by
      rw [← hm']
      simp [Machine.forgetPrecalls]
      omega
    have hspares : m.SparesBelow m' w.inner := by
      rw [← hm']
      refine .of_stack rfl fun k hk => ?_
      rw [Array.getElem?_push_lt (by simp [Machine.forgetPrecalls]; omega)]
      simp [Machine.forgetPrecalls]
    have hframes : m'.frames.length ≤ m.frames.length := by
      have hdropped : (Activation.native w :: rest).Sublist m.control := by
        rw [← hdrop, hcontrol]
        exact (List.dropWhile_sublist _).trans (List.sublist_append_right _ _)
      have hrest : rest.Sublist m.control := (List.sublist_cons_self _ _).trans hdropped
      rw [← hm']
      exact (hrest.filterMap Activation.frame?).length_le
    have hcontrol' : m'.control = .native { w with succeeded := false } :: rest := by rw [← hm']
    have hcallee := houter.callee_le
    have houter' := houter.spared (hspares.mono (by omega))
    refine .answered ⟨⟨?_, hcontrol', houter', hprecall, hsize, ?_⟩, .native houter' above room hprecalls⟩ above
    · refine hwithin.spared (hspares.mono (by omega)) (by rw [← hm']; rfl) (by omega) ?_ hframes
      rw [← hm']
      exact hwithin.sound
    · exact Nat.lt_succ_of_lt above

theorem Machine.locate_fault (m : Machine) (e : Failure) : (m.locate e).fault = e.fault := by
  unfold Machine.locate
  split <;> rfl

/-- A step goes on, is recovered by a guarded call, or ends the run. -/
theorem attempt_running (hidle : host.IsIdle) :
    Triple (fun m => Running host callee m ∧ host.control.length < m.control.length)
      (Run.attempt host.control.length) (fun _ => Running host callee) (Interrupted host callee) := by
  intro m hm
  have hstep := step_running hidle m hm
  unfold Run.attempt
  cases h : Run.step m with
  | ok _ m' =>
    simp only [h] at hstep ⊢
    exact hstep
  | error e m' =>
    simp only [h] at hstep ⊢
    cases hrecover : m'.recover host.control.length (m'.locate e) with
    | some m'' => exact recover_running hstep.1 hrecover
    | none => exact ⟨hstep.1, (m'.locate_fault e).symm ▸ hstep.2⟩

theorem isEmpty_drop_iff {acts : List Activation} {n : Nat} :
    (acts.drop n).isEmpty = true ↔ acts.length ≤ n := by
  rw [List.isEmpty_iff, List.drop_eq_nil_iff]

/-- After any number of steps the call is complete, or the machine still runs it. -/
theorem attempts_running (hidle : host.IsIdle) (count : Nat) :
    Triple (Running host callee) (Run.attempts host.control.length count)
      (fun ended m => Running host callee m ∧ (ended = true → m.control.length ≤ host.control.length))
      (Interrupted host callee) := by
  induction count with
  | zero => exact .look fun m hm => .pure fun _ h => ⟨h ▸ hm, fun hover => h ▸ isEmpty_drop_iff.mp hover⟩
  | succ count ih =>
    refine .look fun m hm => ?_
    split
    · rename_i hover
      exact .pure fun _ h => ⟨h ▸ hm, fun _ => h ▸ isEmpty_drop_iff.mp hover⟩
    · rename_i hover
      rw [isEmpty_drop_iff, Nat.not_le] at hover
      exact ((attempt_running hidle).before fun _ h => h ▸ ⟨hm, hover⟩).bind fun _ => ih

end Steps

end Rill
