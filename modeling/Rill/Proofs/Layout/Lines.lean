-- SUMMARY: The line table gives every instruction the line it was emitted with, and patches stay in their place.
import Mathlib.Data.List.TakeWhile
import Rill.Proofs.Depth.Steps
import Rill.Proofs.Layout.Upkeep

/-!
# Lines and edits of code

Code keeps the lines of its instructions as runs. A run is opened where an instruction has another line than
the one before it, and it lasts to the next one. Instructions are replaced in place, and that changes no line.
So the line that is found for an instruction is the one it was emitted with, whatever has become of it since.

Code comes about by edits: an instruction is emitted with its line, replaced in place, or, if it is a jump, pointed
to another target. `Code.editAll` makes them one after the other. An instruction that was emitted is found at the
number of those emitted before it, as the later edits of that index have left it, and with the line it was emitted
with. The line table is kept in runs that begin at increasing indices, so the line of an instruction is in the last
run that has begun, by whatever search that run is found.
-/

namespace Rill

-- ---------------------------------------------------------------------------
-- Emitted code
-- ---------------------------------------------------------------------------

/-- The code has come about by emitting one instruction after another, with the lines given, and by replacing
some of them. -/
inductive Code.Emitted : Code → List Nat → Prop
  | empty : Emitted {} []
  | emit {c : Code} {lines : List Nat} (before : Emitted c lines) (op : Instruction) (line : Nat) :
      Emitted (c.emit op line) (lines ++ [line])
  | patch {c : Code} {lines : List Nat} (before : Emitted c lines) (index : Nat) (op : Instruction) :
      Emitted (c.patch index op) lines
  | patchJump {c : Code} {lines : List Nat} (before : Emitted c lines) (index target : Nat) :
      Emitted (c.patchJump index target) lines

namespace Code

@[simp] theorem size_emit (c : Code) (op : Instruction) (line : Nat) : (c.emit op line).size = c.size + 1 := by
  simp [size, emit]

@[simp] theorem size_patch (c : Code) (index : Nat) (op : Instruction) : (c.patch index op).size = c.size := by
  simp [size, patch]

@[simp] theorem size_patchJump (c : Code) (index target : Nat) : (c.patchJump index target).size = c.size := by
  simp [size, patchJump]

namespace Emitted

variable {c : Code} {lines : List Nat}

theorem length (h : c.Emitted lines) : lines.length = c.size := by
  induction h with
  | empty => rfl
  | emit _ _ _ ih => simp [ih]
  | patch _ _ _ ih => simp [ih]
  | patchJump _ _ _ ih => simp [ih]

/-- Every run begins at an instruction. -/
theorem first_lt (h : c.Emitted lines) : ∀ run ∈ c.runs.toList, run.1 < c.size := by
  induction h with
  | empty => nofun
  | @emit c lines _ op line ih =>
    intro run hrun
    rw [size_emit]
    simp only [Code.emit] at hrun
    split at hrun
    · exact Nat.lt_succ_of_lt (ih run hrun)
    · rw [Array.toList_push] at hrun
      rcases List.mem_append.mp hrun with hrun | hrun
      · exact Nat.lt_succ_of_lt (ih run hrun)
      · rw [List.mem_singleton.mp hrun]
        exact Nat.lt_succ_self _
  | patch _ index op ih => exact fun run hrun => (size_patch _ index op).symm ▸ ih run hrun
  | patchJump _ index target ih => exact fun run hrun => (size_patchJump _ index target).symm ▸ ih run hrun

/-- All runs have begun before the next instruction. -/
theorem takeWhile_runs (h : c.Emitted lines) : c.runs.toList.takeWhile (·.1 ≤ c.size) = c.runs.toList := by
  rw [List.takeWhile_eq_self_iff]
  intro run hrun
  simpa using Nat.le_of_lt (h.first_lt run hrun)

/-- The last run has the line that was emitted last. -/
theorem line_back (h : c.Emitted lines) : c.runs.back?.map (·.2) = lines.getLast? := by
  induction h with
  | empty => rfl
  | @emit c lines _ op line ih =>
    simp only [Code.emit, List.getLast?_concat]
    split
    · next hsame => cases hback : c.runs.back? <;> simp_all
    · simp
  | patch _ _ _ ih => exact ih
  | patchJump _ _ _ ih => exact ih

/-- An instruction that is emitted has its line. -/
theorem lineAt_last (h : c.Emitted lines) (op : Instruction) (line : Nat) :
    (c.emit op line).lineAt c.size = line := by
  by_cases hsame : c.runs.back?.any (·.2 = line)
  · -- The last run goes on.
    simp only [Code.lineAt, Code.emit, if_pos hsame, h.takeWhile_runs]
    rw [Array.getLast?_toList]
    cases hback : c.runs.back? with
    | none => simp [hback] at hsame
    | some run => simpa [hback] using hsame
  · simp only [Code.lineAt, Code.emit, if_neg hsame, Array.toList_push]
    rw [List.takeWhile_append_of_pos fun run hrun => by simpa using Nat.le_of_lt (h.first_lt run hrun)]
    simp [size]

/-- The instructions before it keep theirs. -/
theorem lineAt_before (op : Instruction) (line : Nat) {i : Nat} (hi : i < c.size) :
    (c.emit op line).lineAt i = c.lineAt i := by
  by_cases hsame : c.runs.back?.any (·.2 = line)
  · simp only [Code.lineAt, Code.emit, if_pos hsame]
  · have hlast : ¬c.ops.size ≤ i := Nat.not_le.mpr hi
    have hruns : (c.runs.toList ++ [(c.ops.size, line)]).takeWhile (·.1 ≤ i) = c.runs.toList.takeWhile (·.1 ≤ i) := by
      rw [List.takeWhile_append]
      split
      · next hall => simp [hlast, (List.takeWhile_prefix _).eq_of_length hall]
      · rfl
    simp only [Code.lineAt, Code.emit, if_neg hsame, Array.toList_push, hruns]

/-- The line of an instruction is the one it was emitted with. -/
theorem lineAt (h : c.Emitted lines) {i : Nat} (hi : i < c.size) : lines[i]? = some (c.lineAt i) := by
  induction h with
  | empty => cases hi
  | @emit c lines before op line ih =>
    have hlength := before.length
    rw [size_emit] at hi
    rcases Nat.lt_or_eq_of_le (Nat.le_of_lt_succ hi) with hlt | rfl
    · rw [lineAt_before op line hlt, List.getElem?_append_left (by omega)]
      exact ih hlt
    · rw [before.lineAt_last op line, List.getElem?_append_right (by omega), hlength, Nat.sub_self]
      rfl
  | patch _ _ _ ih => exact ih (by simpa using hi)
  | patchJump _ _ _ ih => exact ih (by simpa using hi)

/-- Past the end it is the line that was emitted last. -/
theorem lineAt_past (h : c.Emitted lines) {i : Nat} (hi : c.size ≤ i) : c.lineAt i = lines.getLast?.getD 0 := by
  have hall : c.runs.toList.takeWhile (·.1 ≤ i) = c.runs.toList := by
    rw [List.takeWhile_eq_self_iff]
    intro run hrun
    simpa using Nat.le_trans (Nat.le_of_lt (h.first_lt run hrun)) hi
  simp only [Code.lineAt, hall, Array.getLast?_toList, ← h.line_back]
  cases c.runs.back? <;> rfl

/-- Every run begins behind the one before it. -/
theorem runs_sorted (h : c.Emitted lines) : c.runs.toList.Pairwise (·.1 < ·.1) := by
  induction h with
  | empty => exact .nil
  | @emit c lines before op line ih =>
    simp only [Code.emit]
    split
    · exact ih
    · rw [Array.toList_push, List.pairwise_append]
      refine ⟨ih, List.pairwise_singleton _ _, fun run hrun last hlast => ?_⟩
      rw [List.mem_singleton.mp hlast]
      exact before.first_lt run hrun
  | patch _ _ _ ih => exact ih
  | patchJump _ _ _ ih => exact ih

end Emitted

end Code

-- ---------------------------------------------------------------------------
-- Compiled code
-- ---------------------------------------------------------------------------

/-- The code of the routine and of all routines in it is emitted. -/
def Routine.IsEmitted (r : Routine) : Prop := ∀ q, Nested r q → ∃ lines, q.code.Emitted lines

namespace Compile

/-- The code of a routine under construction is emitted, and so are its finished functions. -/
structure Builder.IsEmitted (b : Builder) : Prop where
  code : ∃ lines, b.code.Emitted lines
  children : ∀ child ∈ b.children, child.IsEmitted

theorem Builder.IsEmitted.finish {b : Builder} (h : b.IsEmitted) (file : String) : (b.finish file).IsEmitted :=
  Nested.forall_of_children (P := fun q => ∃ lines, q.code.Emitted lines)
    (h.code.imp fun _ hlines => hlines.patch 0 _) h.children

instance : Lasting Builder.IsEmitted where
  fresh _ := ⟨⟨[], .empty⟩, by simp⟩
  same h code _ children := ⟨code ▸ h.code, children ▸ h.children⟩
  emit h op line := ⟨h.code.elim fun _ hlines => ⟨_, hlines.emit op line⟩, h.children⟩
  patchJump h jump target := ⟨h.code.imp fun _ hlines => hlines.patchJump jump target, h.children⟩
  capture h hc := by
    unfold Builder.capture at hc
    split at hc
    all_goals
      obtain ⟨rfl, rfl⟩ := Prod.mk.inj hc
      exact ⟨h.code, h.children⟩
  child h hinner file := ⟨h.code, Array.forall_mem_push.mpr ⟨hinner.finish file, h.children⟩⟩

end Compile

/-- The code of a script and of all functions in it is emitted. -/
theorem compile_emitted {s : Script} {file : String} {debug : Bool} {r : Routine}
    (h : compile s file debug = .ok r) : r.IsEmitted := by
  obtain ⟨b, hb, rfl⟩ := compile_lasting Compile.Builder.IsEmitted h
  exact hb.finish file

namespace Code

-- ---------------------------------------------------------------------------
-- Edits
-- ---------------------------------------------------------------------------

inductive Edit
  | emit (op : Instruction) (line : Nat)
  | patch (index : Nat) (op : Instruction)
  | patchJump (index target : Nat)
  deriving Repr, DecidableEq

def edit (c : Code) : Edit → Code
  | .emit op line => c.emit op line
  | .patch index op => c.patch index op
  | .patchJump index target => c.patchJump index target

/-- The code after edits. -/
def editAll (c : Code) (edits : List Edit) : Code := edits.foldl edit c

/-- The line that an edit emits an instruction with. -/
def Edit.line? : Edit → Option Nat
  | .emit _ line => some line
  | .patch .. | .patchJump .. => none

/-- The lines of the instructions that edits emit, in order. -/
def emittedLines (edits : List Edit) : List Nat := edits.filterMap Edit.line?

/-- What an edit makes of an instruction that stands at an index. -/
def Edit.revise (i : Nat) (op : Instruction) : Edit → Instruction
  | .emit .. => op
  | .patch index new => if index = i then new else op
  | .patchJump index target => if index = i then op.retarget target else op

-- ---------------------------------------------------------------------------
-- Instructions
-- ---------------------------------------------------------------------------

section Instructions

variable {c : Code} {i : Nat} {op : Instruction}

theorem getElem?_patch (c : Code) (index i : Nat) (op : Instruction) :
    (c.patch index op).ops[i]? = if index = i then c.ops[i]?.map fun _ => op else c.ops[i]? := by
  simp only [patch, Array.getElem?_setIfInBounds]
  split
  · next h =>
    subst h
    split
    · next hi => simp [Array.getElem?_eq_getElem hi]
    · next hi => simp [Array.getElem?_eq_none (Nat.not_lt.mp hi)]
  · rfl

theorem getElem?_patchJump (c : Code) (index target i : Nat) :
    (c.patchJump index target).ops[i]?
      = if index = i then c.ops[i]?.map (Instruction.retarget target) else c.ops[i]? :=
  Array.getElem?_modify ..

/-- An edit revises the instructions that stand. -/
theorem getElem?_edit (h : c.ops[i]? = some op) (e : Edit) : (c.edit e).ops[i]? = some (e.revise i op) := by
  cases e with
  | emit new line =>
    have hi : i < c.ops.size := (Array.getElem?_eq_some_iff.mp h).1
    simp only [edit, emit, Edit.revise, Array.getElem?_push_lt hi]
    rw [← Array.getElem?_eq_getElem hi, h]
  | patch index new =>
    simp only [edit, getElem?_patch, h, Edit.revise]
    split <;> rfl
  | patchJump index target =>
    simp only [edit, getElem?_patchJump, h, Edit.revise]
    split <;> rfl

theorem getElem?_editAll (h : c.ops[i]? = some op) (edits : List Edit) :
    (c.editAll edits).ops[i]? = some (edits.foldl (Edit.revise i) op) := by
  induction edits generalizing c op with
  | nil => exact h
  | cons e rest ih => exact ih (getElem?_edit h e)

end Instructions

-- ---------------------------------------------------------------------------
-- Lines
-- ---------------------------------------------------------------------------

theorem Emitted.edit {c : Code} {lines : List Nat} (h : c.Emitted lines) (e : Edit) :
    (c.edit e).Emitted (lines ++ e.line?.toList) := by
  cases e with
  | emit op line => exact h.emit op line
  | patch index op => exact (List.append_nil lines).symm ▸ h.patch index op
  | patchJump index target => exact (List.append_nil lines).symm ▸ h.patchJump index target

theorem emittedLines_cons (e : Edit) (edits : List Edit) :
    emittedLines (e :: edits) = e.line?.toList ++ emittedLines edits := by
  cases e <;> rfl

theorem Emitted.editAll {c : Code} {lines : List Nat} (h : c.Emitted lines) (edits : List Edit) :
    (c.editAll edits).Emitted (lines ++ emittedLines edits) := by
  induction edits generalizing c lines with
  | nil => exact (List.append_nil lines).symm ▸ h
  | cons e rest ih =>
    rw [emittedLines_cons, ← List.append_assoc]
    exact ih (h.edit e)

/-- The code that edits make of nothing has the lines that they emit. -/
theorem emitted_editAll (edits : List Edit) : (editAll {} edits).Emitted (emittedLines edits) :=
  Emitted.empty.editAll edits

/-- The line of an instruction is in the run before the first one that begins behind it. Where that one is may be
found by any search. -/
theorem lineAt_of_partition {c : Code} {i k : Nat} (hsize : k ≤ c.runs.size)
    (hk : ∀ j run, c.runs[j]? = some run → (run.1 ≤ i ↔ j < k)) :
    c.lineAt i = match k with
      | 0 => 0
      | j + 1 => (c.runs[j]?).elim 0 (·.2) := by
  have hbegun : c.runs.toList.takeWhile (·.1 ≤ i) = c.runs.toList.take k := by
    rw [← List.take_append_drop k c.runs.toList, List.takeWhile_append_of_pos]
    · have hrest : (c.runs.toList.drop k).takeWhile (·.1 ≤ i) = [] := by
        cases hdrop : c.runs.toList.drop k with
        | nil => rfl
        | cons run rest =>
          have hrun : c.runs[k]? = some run := by
            rw [← Array.getElem?_toList, ← List.head?_drop, hdrop]
            rfl
          have hbehind : ¬run.1 ≤ i := fun hle => Nat.lt_irrefl k ((hk k run hrun).mp hle)
          simp [hbehind]
      rw [hrest]
      simp
    · intro run hrun
      obtain ⟨j, hj⟩ := List.mem_iff_getElem?.mp hrun
      rw [List.getElem?_take] at hj
      split at hj
      · next hlt => exact decide_eq_true ((hk j run (by rw [← Array.getElem?_toList, hj])).mpr hlt)
      · cases hj
  cases k with
  | zero => simp [lineAt, hbegun]
  | succ j =>
    have hlast : (c.runs.toList.take (j + 1)).getLast? = c.runs[j]? := by
      rw [List.getLast?_take, if_neg (Nat.succ_ne_zero j), Nat.add_sub_cancel, Array.getElem?_toList]
      rw [Array.getElem?_eq_getElem (Nat.lt_of_succ_le hsize)]
      rfl
    simp only [lineAt, hbegun, hlast]
    cases c.runs[j]? <;> rfl

end Code

/-- A line table decodes to what was emitted. Code that comes about by edits has as many instructions as were emitted,
each with its line, and an index past the end has the last line. Runs begin at increasing indices, and whatever search
finds the first one that begins behind an index finds its line. An instruction is what was emitted, as the later edits
of its index have left it. A patch changes no line and no other instruction, and a patched jump only its target. -/
theorem edits_decode (edits : List Code.Edit) :
    let c := Code.editAll {} edits
    let lines := Code.emittedLines edits
    c.size = lines.length ∧
    (∀ i < c.size, lines[i]? = some (c.lineAt i)) ∧
    (∀ i, c.size ≤ i → c.lineAt i = lines.getLast?.getD 0) ∧
    c.runs.toList.Pairwise (·.1 < ·.1) ∧
    (∀ i k, k ≤ c.runs.size → (∀ j run, c.runs[j]? = some run → (run.1 ≤ i ↔ j < k)) →
      c.lineAt i = match k with
        | 0 => 0
        | j + 1 => (c.runs[j]?).elim 0 (·.2)) ∧
    (∀ before op line after, edits = before ++ .emit op line :: after →
      c.ops[(Code.emittedLines before).length]? =
        some (after.foldl (Code.Edit.revise (Code.emittedLines before).length) op)) ∧
    (∀ index op, (c.patch index op).lineAt = c.lineAt ∧
      ∀ i, (c.patch index op).ops[i]? = if index = i then c.ops[i]?.map fun _ => op else c.ops[i]?) ∧
    ∀ index target, (c.patchJump index target).lineAt = c.lineAt ∧
      ∀ i, (c.patchJump index target).ops[i]? = if index = i then
        c.ops[i]?.map fun
          | .jump test _ => .jump test target
          | op => op
        else c.ops[i]? := by
  intro c lines
  have hc : c.Emitted lines := Code.emitted_editAll edits
  refine ⟨hc.length.symm, fun i => hc.lineAt, fun i => hc.lineAt_past, hc.runs_sorted,
    fun i k => Code.lineAt_of_partition, ?_, fun index op => ⟨rfl, fun i => Code.getElem?_patch ..⟩,
    fun index target => ⟨rfl, fun i => Code.getElem?_patchJump ..⟩⟩
  rintro before op line after rfl
  have hsize : (Code.emittedLines before).length = (Code.editAll {} before).ops.size :=
    (Code.emitted_editAll before).length
  have hemit : ((Code.editAll {} before).emit op line).ops[(Code.emittedLines before).length]? = some op := by
    rw [hsize]
    exact Array.getElem?_push_size
  have hedits : c = Code.editAll ((Code.editAll {} before).emit op line) after := List.foldl_append
  rw [hedits]
  exact Code.getElem?_editAll hemit after

end Rill
