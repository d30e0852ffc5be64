-- SUMMARY: Counting loops visit the arithmetic progression from their start to their limit.
import Rill.Proofs.Capture.Sharing
import Rill.Proofs.Loops.Rounds

/-!
# Counting loops

A counting loop runs its body for each number of an arithmetic progression, in order and once, if the body leaves
the counter alone and completes normally or with `continue`. Then it is over, unless the number after the last one
is no word. A body that breaks off ends the loop at once.
-/

namespace Rill

-- ---------------------------------------------------------------------------
-- Operands around a loop
-- ---------------------------------------------------------------------------

/-- Control reaches an instruction with one number of operands only. -/
theorem Assigned.operands_eq {r : Routine} {shape : Nat → Shape} (h : Assigned r shape) {pc : Nat} {s t : Shape}
    (hs : Reaches r pc s) (ht : Reaches r pc t) : s.operands = t.operands :=
  (h.reaches hs).operands.trans (h.reaches ht).operands.symm

theorem Live.after {host m m' : Machine} {callee t : Nat} (h : Live host callee m) (hidle : host.IsIdle)
    (hm' : m.after host.control.length t = some m') : Live host callee m' := by
  induction t generalizing m with
  | zero =>
    cases hm'
    exact h
  | succ t ih =>
    rcases Nat.lt_or_ge host.control.length m.control.length with hlt | hle
    · rw [Machine.after_succ hlt] at hm'
      cases hattempt : Run.attempt host.control.length m with
      | ok _ m₁ =>
        simp only [hattempt] at hm'
        exact ih (h.attempt hidle hlt hattempt) hm'
      | error e m₁ =>
        simp only [hattempt] at hm'
        cases hm'
    · rw [Machine.after_over hle] at hm'
      cases hm'
      exact h

namespace ForLoop

open Layout

section Operands

variable {L : ForLoop} {debug : Bool} {out : Outer} {Γ : Env} {name : String} {step : Option Expr} {body : Block}

/-- Behind the loop there are as many operands as before its test. -/
theorem Placed.reaches_exit (h : L.Placed debug out Γ name step body) {s : Shape} (hs : Reaches L.routine L.header s) :
    ∃ t, Reaches L.routine L.exit t ∧ t.operands = s.operands := by
  have h₁ := hs.step h.readCounter (List.mem_singleton_self _)
  have h₂ := h₁.step h.readLimit (List.mem_singleton_self _)
  have h₃ := h₂.step h.compare (List.mem_singleton_self _)
  exact ⟨_, h₃.step h.leave List.mem_cons_self, rfl⟩

/-- Where the counter is moved on there are as many operands as before the test. -/
theorem Placed.reaches_header (h : L.Placed debug out Γ name step body) {s : Shape} (hs : Reaches L.routine L.next s) :
    ∃ t, Reaches L.routine L.header t ∧ t.operands = s.operands := by
  obtain ⟨back, honward, hback, -⟩ := h.onward
  split at honward
  · obtain ⟨hread, hreadStep, hop, hwrite, rfl⟩ := honward
    have h₁ := hs.step hread (List.mem_singleton_self _)
    have h₂ := h₁.step hreadStep (List.mem_singleton_self _)
    have h₃ := h₂.step hop (List.mem_singleton_self _)
    have h₄ := h₃.step hwrite (List.mem_singleton_self _)
    exact ⟨_, h₄.step hback (List.mem_singleton_self _), rfl⟩
  · obtain ⟨has, rfl⟩ := honward
    have h₁ := hs.step has (List.mem_singleton_self _)
    exact ⟨_, h₁.step hback (List.mem_singleton_self _), rfl⟩

end Operands

-- ---------------------------------------------------------------------------
-- Progressions
-- ---------------------------------------------------------------------------

/-- How many numbers there are from a start in steps of a distance as far as a limit. -/
def count (L : ForLoop) (start limit distance : Int) : Nat :=
  ((if L.descending then start - limit else limit - start) / distance + 1).toNat

/-- The numbers from a start in steps of a distance as far as a limit, in order. -/
def progression (L : ForLoop) (start limit distance : Int) : List Int :=
  (List.range (L.count start limit distance)).map fun k : Nat => L.moved start (distance * k)

section Progressions

variable {L : ForLoop} {a b s : Int}

theorem moved_zero (x : Int) : L.moved x 0 = x := by
  unfold moved
  split <;> omega

theorem moved_moved (x d e : Int) : L.moved (L.moved x d) e = L.moved x (d + e) := by
  unfold moved
  split <;> omega

theorem count_past (hs : 1 ≤ s) (h : ¬L.Within b a) : L.count a b s = 0 := by
  have hdistance : (if L.descending then a - b else b - a) < 0 := by
    unfold Within at h
    split at h <;> simp_all
  have hneg := Int.ediv_neg_of_neg_of_pos hdistance (by omega : 0 < s)
  unfold count
  omega

theorem count_within (hs : 1 ≤ s) (h : L.Within b a) : L.count a b s = L.count (L.moved a s) b s + 1 := by
  have hdistance : 0 ≤ if L.descending then a - b else b - a := by
    unfold Within at h
    split at h <;> simp_all
  have hmoved : (if L.descending then L.moved a s - b else b - L.moved a s) =
      (if L.descending then a - b else b - a) + -1 * s := by
    unfold moved
    split <;> omega
  have hquotient := Int.ediv_nonneg hdistance (by omega : 0 ≤ s)
  unfold count
  rw [hmoved, Int.add_mul_ediv_right _ _ (by omega)]
  omega

theorem progression_past (hs : 1 ≤ s) (h : ¬L.Within b a) : L.progression a b s = [] := by
  rw [progression, count_past hs h]
  rfl

theorem progression_within (hs : 1 ≤ s) (h : L.Within b a) :
    L.progression a b s = a :: L.progression (L.moved a s) b s := by
  unfold progression
  rw [count_within hs h, List.range_succ_eq_map, List.map_cons, List.map_map]
  congr 1
  · simpa using moved_zero a
  · refine List.map_congr_left fun k _ => ?_
    rw [Function.comp_apply, moved_moved, Nat.succ_eq_add_one, Int.natCast_add, Int.mul_add, Int.add_comm]
    simp

/-- A progression consists of the numbers so many steps from its start that are not past its limit. -/
theorem mem_progression (hs : 1 ≤ s) {x : Int} :
    x ∈ L.progression a b s ↔ ∃ k : Nat, x = L.moved a (s * k) ∧ L.Within b x := by
  have hwithin (k : Nat) : k < L.count a b s ↔ L.Within b (L.moved a (s * k)) := by
    have hle : (k : Int) ≤ (if L.descending then a - b else b - a) / s ↔
        k * s ≤ if L.descending then a - b else b - a := Int.le_ediv_iff_mul_le (by omega)
    have hcount : k < L.count a b s ↔ (k : Int) ≤ (if L.descending then a - b else b - a) / s := by
      unfold count
      omega
    rw [hcount, hle, Int.mul_comm]
    unfold Within moved
    split <;> omega
  simp only [progression, List.mem_map, List.mem_range, hwithin]
  exact ⟨fun ⟨k, hk, heq⟩ => ⟨k, heq.symm, heq ▸ hk⟩, fun ⟨k, heq, hk⟩ => ⟨k, heq ▸ hk, heq.symm⟩⟩

/-- The number after the last one is reached from the second number in one step less. -/
theorem moved_count (hs : 1 ≤ s) (h : L.Within b a) :
    L.moved a (s * L.count a b s) = L.moved (L.moved a s) (s * L.count (L.moved a s) b s) := by
  rw [moved_moved, count_within hs h, Int.natCast_add, Int.mul_add, Int.add_comm]
  simp

/-- A number behind a word that is no word is past every limit. -/
theorem past_of_not_word {a b : Int64} (hs : 1 ≤ s) (h : ¬IsWord (L.moved a.toInt s)) :
    ¬L.Within b.toInt (L.moved a.toInt s) := by
  obtain ⟨hlo, hhi⟩ := isWord_toInt a
  obtain ⟨hlimit, hlimit'⟩ := isWord_toInt b
  unfold IsWord moved at h
  unfold Within moved
  split at h <;> simp_all <;> omega

end Progressions

-- ---------------------------------------------------------------------------
-- Runs of a loop
-- ---------------------------------------------------------------------------

/-- The frame is the innermost activation and about to test the counter, and the stack has room for the two operands
of the test. -/
structure Ready (L : ForLoop) (f : Frame) (rest : List Activation) (m : Machine) (a b s : Int64) : Prop where
  control : m.control = .script f :: rest
  routine : f.routine = L.routine
  ip : f.ip = L.header
  holds : L.Holds f m a b s
  room : m.stack.size + 2 ≤ m.config.stackLimit

/-- The frame is the innermost activation and behind the loop, with the operands that it had before. -/
structure Leaves (L : ForLoop) (f : Frame) (depth : Nat) (m m' : Machine) : Prop where
  control : ∃ rest, m'.control = .script { f with ip := L.exit } :: rest ∧ rest.length = depth
  size : m'.stack.size = m.stack.size

/-- The passes among so many steps begin with the numbers as the counter, in this order. -/
def Visits (L : ForLoop) (outer depth t : Nat) (m : Machine) (numbers : List Int) : Prop :=
  (L.passes outer depth t m).map (L.value depth) = numbers.map fun x => some (.int (Int64.ofInt x))

/-- There is one pass for each number of the progression. Then the loop is over, unless the next number is no word. -/
structure Completes (L : ForLoop) (outer depth t : Nat) (f : Frame) (m m' : Machine) (a b s : Int64) : Prop where
  visits : L.Visits outer depth t m (L.progression a.toInt b.toInt s.toInt)
  continues : ∀ p ∈ L.passes outer depth t m, L.Continues outer depth p
  ends : if IsWord (L.moved a.toInt (s.toInt * L.count a.toInt b.toInt s.toInt)) then L.Leaves f depth m m'
    else L.Overflows depth m'

/-- The last pass ends with `break`. The passes have begun with the first numbers of the progression, and the loop
is over. -/
structure BreaksOff (L : ForLoop) (outer depth t : Nat) (f : Frame) (m m' : Machine) (a b s : Int64) : Prop where
  visits : L.Visits outer depth t m
    ((L.progression a.toInt b.toInt s.toInt).take (L.passes outer depth t m).length)
  breaks : ∃ earlier last, L.passes outer depth t m = earlier ++ [last] ∧
    (∀ p ∈ earlier, L.Continues outer depth p) ∧ L.Breaks outer depth last
  leaves : L.Leaves f depth m m'

section Runs

variable {L : ForLoop} {debug : Bool} {out : Outer} {Γ : Env} {name : String} {step : Option Expr} {body : Block}
  {host m m' : Machine} {callee : Nat} {f f' : Frame} {rest rest' : List Activation} {a b s : Int64}

theorem Holds.poised (h : L.Holds f m a b s) (rest : List Activation) (pc : Nat) :
    L.Holds { f with ip := pc } (m.poised f rest pc []) a b s := by
  obtain ⟨hcounter, hlimit, hstep⟩ := h
  constructor <;> simpa [Machine.poised]

theorem size_poised (rest : List Activation) (pc : Nat) : (m.poised f rest pc []).stack.size = m.stack.size := by
  simp [Machine.poised]

theorem Ready.eq_poised (h : L.Ready f rest m a b s) : m.poised f rest L.header [] = m :=
  h.ip ▸ Machine.poised_self h.control

/-- Behind the body and behind the loop there are as many operands as before the test. -/
theorem Ready.size (h : L.Ready f rest m a b s) (hplaced : L.Placed debug out Γ name step body)
    (hlive : Live host callee m) (hlive' : Live host callee m') (hdepth : host.control.length ≤ rest.length)
    (hcontrol : m'.control = .script f' :: rest') (hlength : rest'.length = rest.length)
    (hcontinues : f.Continues f') (hip : f'.ip = L.next ∨ f'.ip = L.exit) : m'.stack.size = m.stack.size := by
  have hinside : host.control.length < m.control.length := by
    rw [h.control, List.length_cons]
    omega
  obtain ⟨-, hsound, -⟩ := hlive.running.innermost hinside h.control
  obtain ⟨shape, hassigned⟩ := (hsound _ .self).balanced
  have hroutine' : f'.routine = L.routine := hcontinues.routine.trans h.routine
  obtain ⟨t, ht⟩ := hlive.reached _ f hdepth (Machine.frameAt_innermost h.control)
  obtain ⟨t', ht'⟩ := hlive'.reached _ f' (hlength ▸ hdepth) (Machine.frameAt_innermost hcontrol)
  have hstart {op : Instruction} {pc : Nat} (has : L.routine.Has pc op) (hop : op ≠ .reserve f.routine.frameSize) :
      pc ≠ 0 := by
    rintro rfl
    exact hop (Option.some.inj (has.symm.trans (h.routine ▸ (hsound _ .self).nonempty)))
  have hheader : L.header ≠ 0 := hstart hplaced.readCounter nofun
  obtain ⟨hbody, hnext⟩ := hplaced.order
  have hsize := hlive.size hdepth h.control (h.ip ▸ hheader) ht
  have hsize' := hlive'.size (hlength ▸ hdepth) hcontrol (by omega) ht'
  rw [h.routine, h.ip] at ht
  rw [hroutine'] at ht'
  have hoperands : t'.operands = t.operands := by
    rw [h.routine] at hassigned
    rcases hip with hip | hip
    · obtain ⟨u, hu, heq⟩ := hplaced.reaches_header (hip ▸ ht')
      exact heq.symm.trans (hassigned.operands_eq hu ht)
    · obtain ⟨u, hu, heq⟩ := hplaced.reaches_exit ht
      exact (hassigned.operands_eq (hip ▸ ht') hu).trans heq
  rw [hsize, hsize', hoperands, hcontinues.base, hcontinues.routine]

/-- A pass of the body leads from the test to the end of the body. -/
theorem Ready.pass {t : Nat} (h : L.Ready f rest m a b s) (hplaced : L.Placed debug out Γ name step body)
    (hidle : host.IsIdle) (hlive : Live host callee m) (hdepth : host.control.length ≤ rest.length)
    (hwithin : L.Within b.toInt a.toInt)
    (hends : L.BodyEnds host.control.length rest.length t (m.poised f rest L.body []) m') :
    m.after host.control.length (4 + t) = some m' ∧
      (∀ u, L.passes host.control.length rest.length (4 + t + u) m =
        m.poised f rest L.body [] :: L.passes host.control.length rest.length u m') ∧
      Live host callee m' ∧ ∃ f', L.Keeps rest.length f m m' f' := by
  have hsteps := hplaced.header_steps h.routine h.holds h.room hdepth
  rw [if_pos hwithin, h.eq_poised] at hsteps
  obtain ⟨hafter, hpasses⟩ := hsteps
  have hlive₁ := hlive.after hidle hafter
  obtain ⟨hlive', f', hkeeps, -⟩ :=
    hends.kept hplaced hidle hlive₁ hdepth rfl rfl h.routine rfl (Nat.le_refl t) hends.arrives
  refine ⟨?_, fun u => ?_, hlive', f', hkeeps.frame, ?_, fun k hk => ?_⟩
  · rw [Machine.after_add, hafter]
    exact hends.arrives
  · rw [Nat.add_assoc, hpasses, hends.passes hplaced hidle hlive₁ hdepth rfl rfl h.routine rfl]
  · obtain ⟨ip, rfl⟩ := hkeeps.continues
    exact ⟨ip, rfl⟩
  · simpa [Machine.poised] using hkeeps.hidden k hk

/-- A loop whose counter is past the limit is over. -/
theorem Ready.past (h : L.Ready f rest m a b s) (hplaced : L.Placed debug out Γ name step body)
    (hdepth : host.control.length ≤ rest.length) (hs : 1 ≤ s.toInt) (hpast : ¬L.Within b.toInt a.toInt) :
    ∃ m', m.after host.control.length 4 = some m' ∧
      L.Completes host.control.length rest.length 4 f m m' a b s := by
  have hsteps := hplaced.header_steps h.routine h.holds h.room hdepth
  rw [if_neg hpast, h.eq_poised] at hsteps
  obtain ⟨hafter, hpasses⟩ := hsteps
  refine ⟨_, hafter, ?_, by simp [hpasses], ?_⟩
  · rw [Visits, hpasses, progression_past hs hpast]
    rfl
  · have hend : L.moved a.toInt (s.toInt * L.count a.toInt b.toInt s.toInt) = a.toInt := by
      rw [count_past hs hpast]
      simpa using moved_zero a.toInt
    rw [hend, if_pos (isWord_toInt a)]
    exact ⟨⟨rest, rfl, rfl⟩, size_poised rest L.exit⟩

/-- What the counter is when the body begins. -/
theorem Ready.value (h : L.Ready f rest m a b s) : L.value rest.length (m.poised f rest L.body []) = some (.int a) := by
  obtain ⟨v, hv, hva⟩ := h.holds.counter
  have hframe : (m.poised f rest L.body []).frameAt rest.length = some { f with ip := L.body } :=
    Machine.frameAt_innermost rfl
  rw [ForLoop.value, hframe]
  simp [Machine.poised, hv, hva]

/-- A pass that ends with `break`. -/
theorem Ready.breaks (h : L.Ready f rest m a b s) (hplaced : L.Placed debug out Γ name step body)
    (hidle : host.IsIdle) (hlive : Live host callee m) (hdepth : host.control.length ≤ rest.length)
    (hwithin : L.Within b.toInt a.toInt) (hs : 1 ≤ s.toInt)
    (hbreaks : L.Breaks host.control.length rest.length (m.poised f rest L.body [])) :
    ∃ t m', m.after host.control.length t = some m' ∧
      L.BreaksOff host.control.length rest.length t f m m' a b s := by
  obtain ⟨t, m', hends, hexit⟩ := hbreaks
  obtain ⟨hafter, hpasses, hlive', f', hkeeps⟩ := h.pass hplaced hidle hlive hdepth hwithin hends
  obtain ⟨g, rest', hcontrol, hlength, hip⟩ := Machine.standsAt_iff.mp hexit
  obtain rfl : g = f' :=
    Option.some.inj ((Machine.frameAt_innermost hcontrol).symm.trans (hlength ▸ hkeeps.frame))
  have hpass : L.passes host.control.length rest.length (4 + t) m = [m.poised f rest L.body []] := hpasses 0
  refine ⟨4 + t, m', hafter, ?_, ⟨[], _, hpass, List.forall_mem_nil _, t, m', hends, hexit⟩, ?_, ?_⟩
  · rw [Visits, hpass, progression_within hs hwithin]
    simp [h.value]
  · obtain ⟨ip, rfl⟩ := hkeeps.continues
    obtain rfl : ip = L.exit := hip
    exact ⟨rest', hcontrol, hlength⟩
  · exact h.size hplaced hlive hlive' hdepth hcontrol hlength hkeeps.continues (.inr hip)

/-- A pass that continues. The loop is ready for the next number, or that is no word. -/
theorem Ready.continues (h : L.Ready f rest m a b s) (hplaced : L.Placed debug out Γ name step body)
    (hidle : host.IsIdle) (hlive : Live host callee m) (hdepth : host.control.length ≤ rest.length)
    (hwithin : L.Within b.toInt a.toInt)
    (hcontinues : L.Continues host.control.length rest.length (m.poised f rest L.body [])) :
    ∃ t m', m.after host.control.length t = some m' ∧
      (∀ u, L.passes host.control.length rest.length (t + u) m =
        m.poised f rest L.body [] :: L.passes host.control.length rest.length u m') ∧
      if IsWord (L.moved a.toInt s.toInt) then
        ∃ f' rest', L.Ready f' rest' m' (Int64.ofInt (L.moved a.toInt s.toInt)) b s ∧ f.Continues f' ∧
          rest'.length = rest.length ∧ m'.stack.size = m.stack.size
      else L.Overflows rest.length m' := by
  obtain ⟨t, m₁, hends, hnext, hvalue⟩ := hcontinues
  obtain ⟨hafter, hpasses, hlive₁, f₁, hkeeps⟩ := h.pass hplaced hidle hlive hdepth hwithin hends
  obtain ⟨g, rest₁, hcontrol, hlength, hip⟩ := Machine.standsAt_iff.mp hnext
  obtain rfl : g = f₁ :=
    Option.some.inj ((Machine.frameAt_innermost hcontrol).symm.trans (hlength ▸ hkeeps.frame))
  have hsize := h.size hplaced hlive hlive₁ hdepth hcontrol hlength hkeeps.continues (.inl hip)
  have hconfig : m₁.config = m.config :=
    hlive₁.running.interrupted.within.config.trans hlive.running.interrupted.within.config.symm
  have hbase := hkeeps.continues.base
  have hholds : L.Holds g m₁ a b s := by
    refine ⟨?_, ?_, ?_⟩
    · rw [h.value, ForLoop.value, hkeeps.frame] at hvalue
      simpa using hvalue
    · rw [hbase, hkeeps.hidden _ (by unfold hidden; split <;> simp), h.holds.limit]
    · have hstep := h.holds.step
      split at hstep
      · next hstepped => rw [if_pos hstepped, hbase, hkeeps.hidden _ (by simp [hidden, hstepped]), hstep]
      · next hstepped => rw [if_neg hstepped, hstep]
  have hroom : m₁.stack.size + 2 ≤ m₁.config.stackLimit := by
    rw [hsize, hconfig]
    exact h.room
  obtain ⟨u, m', hmoved, hskip, hmoves⟩ :=
    hplaced.movesOn (hkeeps.continues.routine.trans h.routine) hholds hroom (hlength ▸ hdepth)
  rw [← hip, Machine.poised_self hcontrol] at hmoved hskip
  rw [hlength] at hskip hmoves
  refine ⟨4 + t + u, m', ?_, fun v => ?_, ?_⟩
  · rw [Machine.after_add, hafter]
    exact hmoved
  · rw [Nat.add_assoc (4 + t), hpasses, hskip]
  · split
    · next hword =>
      rw [if_pos hword] at hmoves
      obtain ⟨m₂, rfl, hholds₂, hsize₂, hconfig₂⟩ := hmoves
      refine ⟨{ g with ip := L.header }, rest₁, ⟨rfl, hkeeps.continues.routine.trans h.routine, rfl, ?_, ?_⟩, ?_,
        hlength, ?_⟩
      · exact hholds₂.poised rest₁ L.header
      · rw [size_poised, hsize₂]
        exact hconfig₂ ▸ hroom
      · obtain ⟨ip, rfl⟩ := hkeeps.continues
        exact ⟨L.header, rfl⟩
      · rw [size_poised, hsize₂, hsize]
    · next hword =>
      rwa [if_neg hword] at hmoves

theorem Leaves.trans {depth : Nat} {m₁ : Machine} (h : L.Leaves f' depth m₁ m') (hcontinues : f.Continues f')
    (hsize : m₁.stack.size = m.stack.size) : L.Leaves f depth m m' := by
  obtain ⟨_, rfl⟩ := hcontinues
  exact ⟨h.control, h.size.trans hsize⟩

section Passes

variable {outer depth t u : Nat} {p m₁ : Machine} {a' : Int64} {numbers : List Int} (hs : 1 ≤ s.toInt)
  (hwithin : L.Within b.toInt a.toInt) (hvalue : L.value depth p = some (.int a))
  (hpasses : ∀ u, L.passes outer depth (t + u) m = p :: L.passes outer depth u m₁)
  (hcontinues : L.Continues outer depth p)

/-- A pass comes before others. -/
theorem Visits.cons (h : L.Visits outer depth u m₁ numbers) (hvalue : L.value depth p = some (.int a))
    (hpasses : L.passes outer depth (t + u) m = p :: L.passes outer depth u m₁) :
    L.Visits outer depth (t + u) m (a.toInt :: numbers) := by
  rw [Visits, hpasses, List.map_cons, List.map_cons, h, hvalue, Int64.ofInt_toInt]

include hs hwithin hvalue hpasses hcontinues

/-- A pass that continues is the last one if the next number is no word. -/
theorem Completes.last (hword : ¬IsWord (L.moved a.toInt s.toInt)) (hoverflows : L.Overflows depth m₁) :
    L.Completes outer depth t f m m₁ a b s := by
  have hpast := past_of_not_word (b := b) hs hword
  have hpass : L.passes outer depth t m = [p] := hpasses 0
  refine ⟨?_, by simpa [hpass] using hcontinues, ?_⟩
  · rw [Visits, hpass, progression_within hs hwithin, progression_past hs hpast]
    simp [hvalue]
  · rw [moved_count hs hwithin, count_past hs hpast]
    simpa [hword, moved_zero] using hoverflows

variable (hcontinued : f.Continues f') (hsize : m₁.stack.size = m.stack.size)
  (hnext : a'.toInt = L.moved a.toInt s.toInt)
include hcontinued hsize hnext

theorem Completes.cons (h : L.Completes outer depth u f' m₁ m' a' b s) :
    L.Completes outer depth (t + u) f m m' a b s := by
  refine ⟨?_, ?_, ?_⟩
  · rw [progression_within hs hwithin, ← hnext]
    exact h.visits.cons hvalue (hpasses u)
  · rw [hpasses, List.forall_mem_cons]
    exact ⟨hcontinues, h.continues⟩
  · have hend := h.ends
    rw [moved_count hs hwithin, ← hnext]
    split at hend
    · next hlast => exact if_pos hlast ▸ hend.trans hcontinued hsize
    · next hlast => exact if_neg hlast ▸ hend

theorem BreaksOff.cons (h : L.BreaksOff outer depth u f' m₁ m' a' b s) :
    L.BreaksOff outer depth (t + u) f m m' a b s := by
  obtain ⟨hvisits, ⟨earlier, last, heq, hearlier, hlast⟩, hleaves⟩ := h
  refine ⟨?_, ⟨p :: earlier, last, ?_, ?_, hlast⟩, hleaves.trans hcontinued hsize⟩
  · rw [hpasses, progression_within hs hwithin, List.length_cons, List.take_succ_cons, ← hnext]
    exact hvisits.cons hvalue (hpasses u)
  · rw [hpasses, heq, List.cons_append]
  · rw [List.forall_mem_cons]
    exact ⟨hcontinues, hearlier⟩

end Passes

/-- From the test on, the loop runs to its end: by induction on how many numbers there are still. -/
theorem Ready.run (hplaced : L.Placed debug out Γ name step body) (hidle : host.IsIdle) (hs : 1 ≤ s.toInt) {n : Nat}
    (hn : L.count a.toInt b.toInt s.toInt = n) {depth : Nat} (h : L.Ready f rest m a b s) (hrest : rest.length = depth)
    (hlive : Live host callee m) (hdepth : host.control.length ≤ depth)
    (hbody : ∀ t, ∀ p ∈ L.passes host.control.length depth t m,
      L.Continues host.control.length depth p ∨ L.Breaks host.control.length depth p) :
    ∃ t m', m.after host.control.length t = some m' ∧
      (L.Completes host.control.length depth t f m m' a b s ∨
        L.BreaksOff host.control.length depth t f m m' a b s) := by
  induction n generalizing m f rest a with
  | zero =>
    subst hrest
    have hpast : ¬L.Within b.toInt a.toInt := fun hwithin => by
      rw [count_within hs hwithin] at hn
      omega
    obtain ⟨m', hafter, hcompletes⟩ := h.past hplaced hdepth hs hpast
    exact ⟨4, m', hafter, .inl hcompletes⟩
  | succ n ih =>
    subst hrest
    have hwithin : L.Within b.toInt a.toInt := Decidable.byContradiction fun hpast => by
      rw [count_past hs hpast] at hn
      omega
    have hfirst : m.poised f rest L.body [] ∈ L.passes host.control.length rest.length 5 m := by
      have hsteps := hplaced.header_steps h.routine h.holds h.room hdepth
      rw [if_pos hwithin, h.eq_poised] at hsteps
      rw [hsteps.2 1]
      exact List.mem_cons_self
    rcases (hbody 5 _ hfirst).symm with hbreaks | hcontinues
    · obtain ⟨t, m', hafter, hbreaksOff⟩ := h.breaks hplaced hidle hlive hdepth hwithin hs hbreaks
      exact ⟨t, m', hafter, .inr hbreaksOff⟩
    obtain ⟨t, m₁, hafter, hpasses, hmoves⟩ := h.continues hplaced hidle hlive hdepth hwithin hcontinues
    by_cases hword : IsWord (L.moved a.toInt s.toInt)
    · rw [if_pos hword] at hmoves
      obtain ⟨f', rest', hready, hcontinued, hlength, hsize⟩ := hmoves
      have hnext := hword.toInt_ofInt
      rw [count_within hs hwithin, ← hnext] at hn
      obtain ⟨u, m', hafter', hends⟩ := ih (Nat.succ.inj hn) hready hlength (hlive.after hidle hafter) fun u p hp =>
        hbody (t + u) p (hpasses u ▸ List.mem_cons_of_mem _ hp)
      refine ⟨t + u, m', by rw [Machine.after_add, hafter]; exact hafter', hends.imp (fun hends => ?_) fun hends => ?_⟩
      · exact hends.cons hs hwithin h.value hpasses hcontinues hcontinued hsize hnext
      · exact hends.cons hs hwithin h.value hpasses hcontinues hcontinued hsize hnext
    · rw [if_neg hword] at hmoves
      exact ⟨t, m₁, hafter, .inl (.last hs hwithin h.value hpasses hcontinues hword hmoves)⟩

end Runs

-- ---------------------------------------------------------------------------
-- The theorem
-- ---------------------------------------------------------------------------

section Witness

variable {L : ForLoop} {outer depth t : Nat} {m m' : Machine}

end Witness

end ForLoop

end Rill
