-- SUMMARY: Captured variables are fresh for each declaration and shared by all closures of an activation.
import Rill.Proofs.Capture.Accesses
import Rill.Proofs.Capture.Runs

/-!
# Captured variables

A function that captures a variable of the frame that makes it holds the cell of that variable. Functions
made later hold the same cell, and the frame and all of them work on it, until the frame declares the
variable again or assigns a reference to it. A plain value that is declared starts a variable of its own,
and so does another activation, unless it has been given a reference.
-/

namespace Rill

/-- The closure has captured a slot of the frame that made it, which was in the cell, at a position. -/
def Closure.Captures (made : Closure) (position i : Nat) (cell : CellId) : Prop :=
  ∃ routine key, made.callable = .script routine key ∧ routine.captures[position]? = some ⟨i, true⟩ ∧
    made.captured[position]? = some cell

namespace CallRun

variable {host : Machine} {count : Nat}

/-- In the step, the frame at the depth makes a function with the closure, and goes on. -/
structure Makes (r : CallRun host count) (t depth : Nat) (made : Closure) : Prop where
  inside : t < r.length
  goes : depth < (r.machine (t + 1)).control.length
  made : ∃ f rest child params id g, (r.machine t).control = .script f :: rest ∧ rest.length = depth ∧
    f.routine.code.ops[f.ip]? = some (.closure child params) ∧
    (r.machine (t + 1)).stack.back? = some (.object id) ∧
    (r.machine (t + 1)).heap.content? id = some (.function g) ∧ made ∈ g.closures

/-- Between two steps the variable is neither declared nor bound to a reference. -/
def Unbound (r : CallRun host count) (depth i s t : Nat) : Prop :=
  ∀ u, s < u → u < t → ∀ v, ¬r.Binds u depth i v

/-- At some time of the activation there was no cell in the slot of the variable, and no reference has been
bound to it since. -/
structure ByValueSince (r : CallRun host count) (depth i s t : Nat) : Prop where
  active : r.Active depth s t
  frame : ∃ f, (r.machine s).frameAt depth = some f
  bare : Bare (r.slot depth i s)
  plain : ∀ u, s ≤ u → u < t → ∀ v, r.Binds u depth i v → v.isCell = false

/-- The variable is not bound to a reference. -/
def ByValue (r : CallRun host count) (depth i t : Nat) : Prop := ∃ s ≤ t, r.ByValueSince depth i s t

/-- What two steps are part of, each at a depth, are different activations. -/
def Apart (r : CallRun host count) (depth t depth' t' : Nat) : Prop :=
  depth ≠ depth' ∨ ¬r.Active depth (min t t') (max t t')

/-- Variables are captured in cells that are fresh for each declaration and shared in each activation. -/
structure CapturesVariables (r : CallRun host count) : Prop where
  /-- Functions that are made with no declaration between them share the cell. -/
  shared : ∀ {depth i s t position position' : Nat} {made made' : Closure} {cell cell' : CellId},
    r.Makes s depth made → made.Captures position i cell → r.Makes t depth made' → made'.Captures position' i cell' →
    s ≤ t → r.Active depth s t → r.Unbound depth i s t → cell' = cell
  /-- Functions that are made before and after the declaration of a plain value do not. -/
  fresh : ∀ {depth i s e t position position' : Nat} {made made' : Closure} {cell cell' : CellId} {v : Value},
    r.Makes s depth made → made.Captures position i cell → r.Makes t depth made' → made'.Captures position' i cell' →
    s < e → e < t → r.Active depth s t → r.Binds e depth i v → v.isCell = false → r.Unbound depth i e t →
    cell' ≠ cell
  /-- Until the variable is bound anew, the frame works on the cell. -/
  frame : ∀ {depth i s t position : Nat} {made : Closure} {cell : CellId} {f : Frame} {rest : List Activation}
    {op : Instruction}, r.Makes s depth made → made.Captures position i cell → s < t → r.Active depth s t →
    r.Unbound depth i s (t + 1) → t < r.length → (r.machine t).control = .script f :: rest → rest.length = depth →
    f.routine.code.ops[f.ip]? = some op → op.variable? = some (.frame i) →
    Run.performPlain f op (r.machine t) = Run.performOn cell op (r.machine t)
  /-- Whenever the function is called, it works on the cell. -/
  closure : ∀ {depth i s position : Nat} {made : Closure} {cell : CellId} {f : Frame} {op : Instruction},
    r.Makes s depth made → made.Captures position i cell → f.closure = made →
    op.variable? = some (.captured position) → ∀ m, Run.performPlain f op m = Run.performOn cell op m
  /-- Functions that are made in different activations have different cells, but for references. -/
  apart : ∀ {depth depth' i i' t t' position position' : Nat} {made made' : Closure} {cell cell' : CellId},
    r.Makes t depth made → made.Captures position i cell → r.Makes t' depth' made' → made'.Captures position' i' cell' →
    r.Apart depth t depth' t' → r.ByValue depth i t → r.ByValue depth' i' t' → cell ≠ cell'

-- ---------------------------------------------------------------------------
-- Functions that are made
-- ---------------------------------------------------------------------------

variable {r : CallRun host count} {depth i s t position : Nat} {made : Closure} {cell : CellId}

/-- The frame that makes a function captures slots that it has, in the cells that they hold then. -/
theorem Makes.site (hmakes : r.Makes t depth made) (h : host.CanCall count)
    (hcaptures : made.Captures position i cell) :
    host.control.length ≤ depth ∧ r.Active depth t (t + 1) ∧
    (∃ f, (r.machine t).frameAt depth = some f ∧ i < f.routine.frameSize) ∧
    r.slot depth i (t + 1) = some (.cell cell) ∧ ∀ v, ¬r.Binds t depth i v := by
  obtain ⟨hinside, hgoes, f, rest, child, params, id, g, hcontrol, rfl, hop, htop, hcontent, hmade⟩ := hmakes
  have hrunning := r.running h (Nat.le_of_lt hinside)
  have hgoing := r.going t hinside
  have hlength : (r.machine t).control.length = rest.length + 1 := by rw [hcontrol, List.length_cons]
  have hdepth : host.control.length ≤ rest.length := by omega
  have hactive : r.Active rest.length t (t + 1) := by
    refine ⟨hinside, fun u htu hut => ?_⟩
    rcases Nat.lt_or_eq_of_le hut with hlt | rfl
    · obtain rfl : u = t := by omega
      omega
    · exact hgoes
  have hf : (r.machine t).frameAt rest.length = some f := by
    rw [Machine.frameAt_eq_some, hcontrol]
    exact getElem?_reverse_cons
  obtain ⟨f', hf', hcontinues, -⟩ := turns h hactive hdepth hf
  obtain ⟨routine', key, hcallable, hcapture, hcell⟩ := hcaptures
  have hmakes := (hrunning.attempt_makes hgoing hcontrol (r.step t hinside) hop).resolve_left (by omega)
  obtain ⟨routine, made', id', hroutine, htop', hcontent', hholds⟩ := hmakes
  obtain rfl : id = id' := by simpa using htop.symm.trans htop'
  obtain rfl : g = .ofClosure routine.name made' := by simpa using hcontent.symm.trans hcontent'
  obtain rfl : made = made' := List.mem_singleton.mp hmade
  obtain ⟨key', hcallable'⟩ := hholds.callable
  obtain rfl : routine' = routine := by
    rw [hcallable] at hcallable'
    cases hcallable'
    rfl
  obtain ⟨c, hc, hslot⟩ := hholds.captured position i hcapture
  obtain rfl : cell = c := Option.some.inj (hcell.symm.trans hc)
  have hsound := (hrunning.innermost hgoing hcontrol).2.1
  have hi : i < f.routine.frameSize :=
    (hsound _ .self).captures routine' (Array.mem_of_getElem? hroutine) ⟨i, true⟩ (Array.mem_of_getElem? hcapture)
  refine ⟨hdepth, hactive, ⟨f, hf, hi⟩, ?_, ?_⟩
  · rw [slot_of_frameAt hf', hcontinues.base, hslot]
  · rintro v ⟨f'', rest', op, hcontrol', -, hop', hbinds, -⟩
    cases hcontrol.symm.trans hcontrol'
    obtain rfl : .closure child params = op := Option.some.inj (hop.symm.trans hop')
    exact Instruction.not_binds rfl i v hbinds

/-- The slot holds the cell of a captured variable until it is bound anew. -/
theorem Makes.keeps (hmakes : r.Makes s depth made) (h : host.CanCall count)
    (hcaptures : made.Captures position i cell)
    (hst : s < t) (hactive : r.Active depth s t) (hunbound : r.Unbound depth i s t) :
    ∃ f, (r.machine t).frameAt depth = some f ∧ i < f.routine.frameSize ∧ r.slot depth i t = some (.cell cell) := by
  obtain ⟨hdepth, hstep, ⟨f, hf, hi⟩, hcell, -⟩ := hmakes.site h hcaptures
  obtain ⟨f', hf', hcontinues⟩ := hstep.frame h (Nat.le_succ s) hdepth hf
  have hrest := hactive.mono (Nat.le_succ s) (Nat.le_refl t)
  have hi' : i < f'.routine.frameSize := hcontinues.routine ▸ hi
  obtain ⟨f'', hf'', hcontinues'⟩ := hrest.frame h hst hdepth hf'
  refine ⟨f'', hf'', hcontinues'.routine ▸ hi', hrest.keeps h hst hdepth hf' hi' hcell fun u hsu hut => ?_⟩
  exact hunbound u hsu hut

/-- When the slot of a variable that is bound to no reference has a cell, a step of the activation has made it. -/
theorem Makes.allocation (hmakes : r.Makes t depth made) (h : host.CanCall count)
    (hcaptures : made.Captures position i cell) (hst : s ≤ t) (hvalue : r.ByValueSince depth i s t) :
    r.Active depth s (t + 1) ∧ ∃ u, s ≤ u ∧ u ≤ t ∧ (r.machine u).control.length = depth + 1 ∧
      (r.machine u).heap.cells.size ≤ cell.index ∧ cell.index < (r.machine (u + 1)).heap.cells.size := by
  obtain ⟨hdepth, hstep, ⟨f, hf, hi⟩, hcell, hfree⟩ := hmakes.site h hcaptures
  obtain ⟨hactive, ⟨g, hg⟩, hbare, hplain⟩ := hvalue
  have hlong : r.Active depth s (t + 1) := by
    refine ⟨hstep.inside, fun u hsu hut => ?_⟩
    by_cases hle : u ≤ t
    · exact hactive.active u hsu hle
    · exact hstep.active u (by omega) hut
  obtain ⟨f', hf', hcontinues⟩ := hactive.frame h hst hdepth hg
  obtain rfl : f' = f := Option.some.inj (hf'.symm.trans hf)
  obtain ⟨u, hsu, hut, hu⟩ := hlong.made h (Nat.le_succ_of_le hst) hdepth hg (hcontinues.routine ▸ hi) hbare hcell
    fun u hsu hut v hv => by
      rcases Nat.lt_or_eq_of_le (Nat.le_of_lt_succ hut) with hlt | rfl
      · exact hplain u hsu hlt v hv
      · exact absurd hv (hfree v)
  exact ⟨hlong, u, hsu, Nat.le_of_lt_succ hut, hu⟩

/-- Cells made in different steps are different. -/
theorem index_lt (r : CallRun host count) (h : host.CanCall count) {u u' : Nat} {c c' : CellId}
    (hlt : u < u') (hu' : u' ≤ r.length)
    (hc : c.index < (r.machine (u + 1)).heap.cells.size) (hc' : (r.machine u').heap.cells.size ≤ c'.index) :
    c.index < c'.index :=
  Nat.lt_of_lt_of_le hc ((r.cells_mono h hlt hu').trans hc')

/-- No step is part of two activations. -/
theorem Apart.ne {depth' s' t' u u' : Nat} (h : r.Apart depth t depth' t') (hsu : s ≤ u) (hut : u ≤ t)
    (hactive : r.Active depth s (t + 1)) (hu : (r.machine u).control.length = depth + 1) (hsu' : s' ≤ u')
    (hut' : u' ≤ t') (hactive' : r.Active depth' s' (t' + 1)) (hu' : (r.machine u').control.length = depth' + 1) :
    u ≠ u' := by
  rintro rfl
  obtain rfl : depth = depth' := by omega
  refine (h.resolve_left (not_not_intro rfl)) ⟨?_, fun w hw hw' => ?_⟩
  · have := hactive.inside
    have := hactive'.inside
    omega
  -- Both activations go from the step to the later one of the two ends.
  · by_cases hwt : w ≤ t
    · exact hactive.active w (by omega) (by omega)
    · exact hactive'.active w (by omega) (by omega)

-- ---------------------------------------------------------------------------
-- The theorem
-- ---------------------------------------------------------------------------

/-- In every run of a call, captured variables are fresh for each declaration, and shared by the frame that
they belong to and all functions that it makes. -/
theorem captured_variables (h : host.CanCall count) (r : CallRun host count) : r.CapturesVariables where
  shared {depth i s t position position' made made' cell cell'} hmakes hcaptures hmakes' hcaptures' hst hactive
      hunbound := by
    obtain ⟨hdepth, hstep, -, hcell, -⟩ := hmakes.site h hcaptures
    obtain ⟨-, hstep', ⟨f, hf, hi⟩, hcell', hfree⟩ := hmakes'.site h hcaptures'
    have hkept : r.slot depth i (t + 1) = some (.cell cell) := by
      rcases Nat.lt_or_eq_of_le hst with hlt | rfl
      · obtain ⟨f', hf', -, hslot⟩ := hmakes.keeps h hcaptures hlt hactive hunbound
        refine hstep'.keeps h (Nat.le_succ t) hdepth hf hi hslot fun u htu hut => ?_
        obtain rfl : u = t := by omega
        exact hfree
      · exact hcell
    simpa using hcell'.symm.trans hkept
  fresh {depth i s e t position position' made made' cell cell' v} hmakes hcaptures hmakes' hcaptures' hse het hactive
      hbinds hv hunbound := by
    obtain ⟨hdepth, hstep, ⟨f, hf, hi⟩, hcell, -⟩ := hmakes.site h hcaptures
    have hbefore := (r.lt_of_slot h hstep.inside hcell)
    have hearlier := hactive.mono (Nat.le_refl s) (Nat.le_of_lt het)
    obtain ⟨f₁, hf₁, hcontinues₁⟩ := hearlier.frame h (Nat.le_of_lt hse) hdepth hf
    obtain ⟨f₂, hf₂, -, hturns⟩ := turns h (hactive.mono (Nat.le_of_lt hse) het) hdepth hf₁
    have hslot := (hturns i (hcontinues₁.routine ▸ hi)).bound v hbinds
    have hvalue : r.ByValueSince depth i (e + 1) t := by
      refine ⟨hactive.mono (by omega) (Nat.le_refl t), ⟨f₂, hf₂⟩, ?_, fun u heu hut w hw => ?_⟩
      · rw [hslot]
        exact bare_of_isCell hv
      · exact absurd hw (hunbound u heu hut w)
    obtain ⟨-, u, heu, hut, -, hfresh, -⟩ := hmakes'.allocation h hcaptures' het hvalue
    have hlt := r.index_lt h (Nat.lt_of_lt_of_le (Nat.lt_succ_of_lt hse) heu) (hut.trans (Nat.le_of_lt hmakes'.inside))
      hbefore hfresh
    rintro rfl
    exact Nat.lt_irrefl _ hlt
  frame {depth i s t position made cell f rest op} hmakes hcaptures hst hactive hunbound ht hcontrol hdepth hop
      hvariable := by
    obtain ⟨f', hf', hi, hslot⟩ := hmakes.keeps h hcaptures hst hactive fun u hsu hut =>
      hunbound u hsu (Nat.lt_succ_of_lt hut)
    have hf : (r.machine t).frameAt depth = some f := by
      rw [Machine.frameAt_eq_some, hcontrol, ← hdepth]
      exact getElem?_reverse_cons
    obtain rfl : f' = f := Option.some.inj (hf'.symm.trans hf)
    rw [slot_of_frameAt hf] at hslot
    obtain ⟨hsound, -, op', hop', hrange, hroom⟩ := (r.running h (Nat.le_of_lt ht)).innermost (r.going t ht) hcontrol
    obtain rfl : op' = op := Option.some.inj (hop'.symm.trans hop)
    have hroom : f'.base + f'.routine.frameSize + op'.pops ≤ (r.machine t).stack.size :=
      hroom.resolve_left (by rintro rfl; cases hvariable)
    refine perform_cell hsound hslot hvariable (by omega) fun v hbinds hback => ?_
    exact hunbound t hst (Nat.lt_succ_self t) v ⟨f', rest, op', hcontrol, hdepth, hop, hbinds, hback⟩
  closure {depth i s position made cell f op} hmakes hcaptures hf hvariable m := by
    obtain ⟨routine, key, -, -, hcell⟩ := hcaptures
    rw [perform_captured (hf ▸ hcell) hvariable]
  apart {depth depth' i i' t t' position position' made made' cell cell'} hmakes hcaptures hmakes' hcaptures' hapart
      hvalue hvalue' := by
    obtain ⟨s, hst, hvalue⟩ := hvalue
    obtain ⟨s', hst', hvalue'⟩ := hvalue'
    obtain ⟨hactive, u, hsu, hut, hu, hlow, hhigh⟩ := hmakes.allocation h hcaptures hst hvalue
    obtain ⟨hactive', u', hsu', hut', hu', hlow', hhigh'⟩ := hmakes'.allocation h hcaptures' hst' hvalue'
    have hne := hapart.ne hsu hut hactive hu hsu' hut' hactive' hu'
    rintro rfl
    rcases Nat.lt_or_gt_of_ne hne with hlt | hlt
    · exact Nat.lt_irrefl _ (r.index_lt h hlt (hut'.trans (Nat.le_of_lt hmakes'.inside)) hhigh hlow')
    · exact Nat.lt_irrefl _ (r.index_lt h hlt (hut.trans (Nat.le_of_lt hmakes.inside)) hhigh' hlow)

end CallRun

-- ---------------------------------------------------------------------------
-- Scripts
-- ---------------------------------------------------------------------------

/-- The empty machine that a host starts with refers to no cells. -/
theorem Machine.IsWhole.start (config : Config) (files : Files.Tree) (input : List Char) (home : Option String)
    (seed : UInt64) :
    ({ config := config, files := files, input := input, home := home, seed := seed } : Machine).IsWhole where
  heap := {
    contents := fun id c hc => by simp [Heap.content?, Heap.object?] at hc
    cells := fun id v hv => by simp [Heap.cell?] at hv
    classes := fun c hc => absurd hc (Array.not_mem_empty _) }
  stack v hv := absurd hv (Array.not_mem_empty _)
  globals e he := absurd he (Array.not_mem_empty _)
  control := List.forall_mem_nil _
  held := List.forall_mem_nil _

/-- A host can call the text that it has loaded. -/
theorem Machine.CanCall.of_load {m loaded : Machine} (h : m.Arises) (hm : m.IsWhole) {file source : String}
    (hload : (do Run.push (← Run.loadText file source)) m = .ok () loaded) : loaded.CanCall 0 := by
  have hstill : Still m.heap.cells.size (do Run.push (← Run.loadText file source)) :=
    (Still.loadText file source).bind fun _ hv => .push hv
  have hwhole := hstill m hm
  rw [hload] at hwhole
  obtain ⟨hbelow, hsize, -⟩ := hwhole
  cases hcompiled : Run.loadText file source m with
  | error e compiled =>
    rw [Run.bind_of_error hcompiled] at hload
    cases hload
  | ok v compiled =>
    rw [Run.bind_of_ok hcompiled] at hload
    obtain ⟨hroom, rfl⟩ := push_ok hload
    have hcompiledArises : compiled.Arises := by
      have := h.compute (.loadText file source)
      rwa [Run.leaves, hcompiled] at this
    exact ⟨(hcompiledArises.push v hroom).standing, by rwa [Machine.IsWhole, hsize], by simp⟩

/-- A function that makes a counter: two functions share a variable, which is another one for each counter. -/
def counterText : String :=
  "function counter()\n local n = 0\n local add = function() n = n + 1 end\n add()\n return function() return n end\nend\nprint counter()(), counter()()"

theorem captured_variables_counter : ∃ (loaded : Machine) (r : CallRun loaded 0),
    loaded.CanCall 0 ∧ r.CapturesVariables ∧ (r.machine r.length).output = "1 1\n" := by
  have hrun : Ends (do Run.push (← Run.loadText "counter.rill" counterText)) { config := {} }
      (fun _ loaded => Ends (Run.callPushed 80 0 false) loaded (fun _ after => after.output = "1 1\n") fun _ => False)
      fun _ => False := by
    decide +kernel
  obtain ⟨_, loaded, h, hcalls⟩ := hrun.exists_ok
  obtain ⟨ended, after, hcall, houtput⟩ := hcalls.exists_ok
  have hcan := Machine.CanCall.of_load (.start {} {} [] none 0) (.start {} {} [] none 0) h
  obtain ⟨r, hr⟩ := CallRun.exists_of_call hcall
  exact ⟨loaded, r, hcan, CallRun.captured_variables hcan r, by rw [hr]; exact houtput⟩

end Rill
