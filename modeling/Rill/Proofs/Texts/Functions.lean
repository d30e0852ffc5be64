-- SUMMARY: How the text functions read their arguments and store what they edit.
import Rill.Library
import Rill.Proofs.Ownership.Copies
import Rill.Proofs.Runs.Outcomes

/-!
# Calls of text functions

A text function first reads its arguments and then computes; only a result is stored. So a call that fails
leaves the machine as it was, and one that edits a text changes the cell behind its first argument only.
-/

namespace Rill

open Library (chars)

variable {m : Machine} {args : Library.Arguments} {k : Nat}

theorem Run.lift_of_ok {x : Except Failure α} {a : α} (h : x = .ok a) : (liftM x : Run α) m = .ok a m := by
  subst h
  rfl

theorem Run.lift_of_error {x : Except Failure α} {e : Failure} (h : x = .error e) :
    (liftM x : Run α) m = .error e m := by
  subst h
  rfl

-- ---------------------------------------------------------------------------
-- Arguments
-- ---------------------------------------------------------------------------

namespace Library

namespace Arguments

theorem text_run {cs : List Char} (h : m.heap.resolve (args.nth k) = Library.chars cs) :
    args.text k m = .ok (String.ofList cs) m := by
  refine (Run.bind_heap _ m).trans (Run.lift_of_ok ?_)
  rw [Heap.textOf, h, Library.chars]

theorem chars_run {cs : List Char} (h : m.heap.resolve (args.nth k) = Library.chars cs) :
    args.chars k m = .ok cs m := by
  rw [Arguments.chars, Run.bind_of_ok (text_run h), String.toList_ofList]
  rfl

theorem integer_run {n : Int64} (h : m.heap.resolve (args.nth k) = .int n) :
    args.integer k m = .ok n m := by
  refine (Run.bind_heap _ m).trans (Run.lift_of_ok ?_)
  rw [Heap.integerOf, h]

theorem count_run {n : Int64} (h : m.heap.resolve (args.nth k) = .int n) (hn : 0 ≤ n.toInt) :
    args.count k m = .ok n.toInt.toNat m := by
  have hneg : ¬n < 0 := fun hlt => absurd (Int64.lt_iff_toInt_lt.mp hlt) (by simpa using hn)
  rw [count, Run.bind_of_ok (integer_run h)]
  simp only [if_neg hneg]
  rfl

end Arguments

end Library

-- ---------------------------------------------------------------------------
-- Variables and lists
-- ---------------------------------------------------------------------------

/-- The machine with a text stored in a cell. -/
def Machine.storing (m : Machine) (id : CellId) (cs : List Char) : Machine :=
  { m with heap := m.heap.setCell id (chars cs) }

/-- A cell that had a text has the one stored in it. -/
theorem Machine.cellValue_storing {id : CellId} {cs : List Char} (h : m.heap.cellValue id = chars cs)
    (ds : List Char) : (m.storing id ds).heap.cellValue id = chars ds := by
  cases hcell : m.heap.cell? id with
  | none =>
    have hnull : m.heap.cellValue id = .null := congrArg (·.getD .null) hcell
    rw [hnull] at h
    cases h
  | some old =>
    have hset := Heap.cell?_setCell hcell id (chars ds)
    rw [if_pos rfl] at hset
    exact congrArg (·.getD .null) hset

/-- The value is a list of texts. -/
def Heap.ListsTexts (h : Heap) (v : Value) (parts : List (List Char)) : Prop :=
  ∃ id, v = .object id ∧ h.content? id = some (.list (parts.map chars).toArray)

namespace Library

variable {id : CellId} {s : List Char}

theorem editText_run {f : List Char → Except Failure (List Char)} {t : List Char} (hargs : args.nth 0 = .cell id)
    (hs : m.heap.cellValue id = chars s) (ht : f s = .ok t) :
    editText args f m = .ok .null (m.storing id t) := by
  have hread : m.heap.resolve (args.nth 0) = chars s := by rw [hargs, ← hs]; rfl
  rw [editText, Run.bind_of_ok (Arguments.chars_run hread), Run.bind_of_ok (Run.lift_of_ok ht), hargs]
  rfl

theorem alterText_run (f : List Char → List Char) (hargs : args.nth 0 = .cell id)
    (hs : m.heap.cellValue id = chars s) : alterText args f m = .ok .null (m.storing id (f s)) :=
  editText_run hargs hs rfl

-- ---------------------------------------------------------------------------
-- Lists of texts
-- ---------------------------------------------------------------------------

theorem newList_run (parts : List (List Char)) (m : Machine) :
    ∃ v m', Run.newList (parts.map chars).toArray m = .ok v m' ∧ m'.heap.ListsTexts v parts := by
  refine ⟨_, _, rfl, _, rfl, ?_⟩
  simp [Heap.content?, Heap.object?]

section Texts

variable {v : Value} {parts : List (List Char)}

theorem length_run (h : m.heap.ListsTexts v parts) : general .length #[v] m = .ok (.ofNat parts.length) m := by
  obtain ⟨id, rfl, hcontent⟩ := h
  have hlength : m.heap.length (.object id) = .ok parts.length := by
    simp [Heap.length, Heap.resolve, Heap.contentOf, hcontent, Content.size?]
  refine (Run.bind_heap _ m).trans ?_
  exact Run.bind_of_ok (Run.lift_of_ok hlength)

theorem text_chars (h : Heap) (cs : List Char) : h.text (chars cs) = String.ofList cs := by
  rw [Heap.text, Heap.textWithin]
  rfl

theorem intercalate_ofList (separator : List Char) (parts : List (List Char)) :
    (String.ofList separator).intercalate (parts.map String.ofList) =
      String.ofList (separator.intercalate parts) := by
  rw [← String.toList_inj, String.toList_intercalate, List.map_map]
  simp [Function.comp_def]

theorem join_run (h : m.heap.ListsTexts v parts) (separator : List Char) :
    list .join #[v, chars separator] m = .ok (chars (separator.intercalate parts)) m := by
  obtain ⟨id, rfl, hcontent⟩ := h
  have hitems : m.heap.listOf (.object id) = .ok (parts.map chars).toArray := by
    have hobject : m.heap.contentOf (.object id) = some (.list (parts.map chars).toArray) := hcontent
    simp [Heap.listOf, hobject, chars, Heap.resolve]
  have htexts : (parts.map chars).map m.heap.text = parts.map String.ofList := by
    simp [text_chars]
  have hread : Arguments.list #[.object id, chars separator] 0 m = .ok (parts.map chars).toArray m :=
    (Run.bind_heap _ m).trans (Run.lift_of_ok hitems)
  refine (Run.bind_heap _ m).trans ?_
  refine (Run.bind_of_ok (Arguments.text_run rfl)).trans ?_
  refine (Run.bind_of_ok hread).trans ?_
  change EStateM.Result.ok (Value.text ((String.ofList separator).intercalate ((parts.map chars).map m.heap.text))) m = _
  rw [htexts, intercalate_ofList, chars]

end Texts

-- ---------------------------------------------------------------------------
-- Answers
-- ---------------------------------------------------------------------------

section Answers

variable (m : Machine) (s w : List Char) {t : List Char} {p n : Int64} {q : Nat}

theorem contains_run : text .contains #[chars s, chars w] m = .ok (.bool (Text.contains s w)) m := by
  rw [text, Run.bind_of_ok (Arguments.chars_run rfl), Run.bind_of_ok (Arguments.chars_run rfl)]
  rfl

theorem find_run (h : Text.find s w 1 = .ok q) : text .find #[chars s, chars w] m = .ok (.ofNat q) m := by
  rw [text, Run.bind_of_ok (Arguments.chars_run rfl), Run.bind_of_ok (Arguments.chars_run rfl),
    Run.bind_of_ok (Run.lift_of_ok h)]
  rfl

theorem findBack_run (h : Text.findBack s w (-1) = .ok q) :
    text .findBack #[chars s, chars w] m = .ok (.ofNat q) m := by
  rw [text, Run.bind_of_ok (Arguments.chars_run rfl), Run.bind_of_ok (Arguments.chars_run rfl),
    Run.bind_of_ok (Run.lift_of_ok h)]
  rfl

theorem findBackFrom_run (h : Text.findBack s w p = .ok q) :
    text .findBackFrom #[chars s, chars w, .int p] m = .ok (.ofNat q) m := by
  rw [text, Run.bind_of_ok (Arguments.chars_run rfl), Run.bind_of_ok (Arguments.chars_run rfl),
    Run.bind_of_ok (Arguments.integer_run rfl), Run.bind_of_ok (Run.lift_of_ok h)]
  rfl

theorem count_run (hw : w ≠ []) : text .count #[chars s, chars w] m = .ok (.ofNat (Text.count s w)) m := by
  rw [text, Run.bind_of_ok (Arguments.chars_run rfl), Run.bind_of_ok (Arguments.chars_run rfl)]
  simp only [List.isEmpty_iff, if_neg hw]
  rfl

theorem split_run (hw : w ≠ []) : ∃ v m', text .split #[chars s, chars w] m = .ok v m' ∧
    m'.heap.ListsTexts v (Text.split s w) := by
  rw [text, Run.bind_of_ok (Arguments.chars_run rfl), Run.bind_of_ok (Arguments.chars_run rfl)]
  simp only [List.isEmpty_iff, if_neg hw]
  exact newList_run _ m

theorem left_run (hn : 0 ≤ n.toInt) :
    text .left #[chars s, .int n] m = .ok (chars (Text.left s n.toInt.toNat)) m := by
  rw [text, Run.bind_of_ok (Arguments.chars_run rfl), Run.bind_of_ok (Arguments.count_run rfl hn)]
  rfl

theorem right_run (hn : 0 ≤ n.toInt) :
    text .right #[chars s, .int n] m = .ok (chars (Text.right s n.toInt.toNat)) m := by
  rw [text, Run.bind_of_ok (Arguments.chars_run rfl), Run.bind_of_ok (Arguments.count_run rfl hn)]
  rfl

theorem slice_run (h : Text.slice s p = .ok t) : text .slice #[chars s, .int p] m = .ok (chars t) m := by
  rw [text, Run.bind_of_ok (Arguments.chars_run rfl), Run.bind_of_ok (Arguments.integer_run rfl),
    Run.bind_of_ok (Run.lift_of_ok h)]
  rfl

theorem sliceCount_run (h : Text.slice s p = .ok t) (hn : 0 ≤ n.toInt) :
    text .sliceCount #[chars s, .int p, .int n] m = .ok (chars (Text.left t n.toInt.toNat)) m := by
  rw [text, Run.bind_of_ok (Arguments.chars_run rfl), Run.bind_of_ok (Arguments.integer_run rfl),
    Run.bind_of_ok (Run.lift_of_ok h), Run.bind_of_ok (Arguments.count_run rfl hn)]
  rfl

theorem char_run (h : Text.charAt s p = .ok t) : text .char #[chars s, .int p] m = .ok (chars t) m := by
  rw [text, Run.bind_of_ok (Arguments.chars_run rfl), Run.bind_of_ok (Arguments.integer_run rfl),
    Run.bind_of_ok (Run.lift_of_ok h)]
  rfl

end Answers

-- ---------------------------------------------------------------------------
-- Edits
-- ---------------------------------------------------------------------------

section Edits

variable (w r : List Char) {t : List Char} {p n : Int64} (hs : m.heap.cellValue id = chars s)
include hs

theorem remove_run : text .remove #[.cell id, chars w] m =
    .ok .null (m.storing id (Text.replaceAll s w [])) := by
  rw [text, Run.bind_of_ok (Arguments.chars_run rfl)]
  exact alterText_run _ rfl hs

theorem replace_run (hw : w ≠ []) : text .replace #[.cell id, chars w, chars r] m =
    .ok .null (m.storing id (Text.replaceAll s w r)) := by
  rw [text, Run.bind_of_ok (Arguments.chars_run rfl), Run.bind_of_ok (Arguments.chars_run rfl)]
  simp only [List.isEmpty_iff, if_neg hw]
  exact alterText_run _ rfl hs

theorem replaceFirst_run : text .replaceFirst #[.cell id, chars w, chars r] m =
    .ok .null (m.storing id (Text.replaceFirst s w r)) := by
  rw [text, Run.bind_of_ok (Arguments.chars_run rfl), Run.bind_of_ok (Arguments.chars_run rfl)]
  exact alterText_run _ rfl hs

theorem replaceLast_run : text .replaceLast #[.cell id, chars w, chars r] m =
    .ok .null (m.storing id (Text.replaceLast s w r)) := by
  rw [text, Run.bind_of_ok (Arguments.chars_run rfl), Run.bind_of_ok (Arguments.chars_run rfl)]
  exact alterText_run _ rfl hs

theorem insert_run (h : Text.insert s p w = .ok t) : text .insert #[.cell id, .int p, chars w] m =
    .ok .null (m.storing id t) := by
  rw [text, Run.bind_of_ok (Arguments.integer_run rfl), Run.bind_of_ok (Arguments.chars_run rfl)]
  exact editText_run rfl hs h

theorem removeAt_run (hn : 0 ≤ n.toInt) (h : Text.splice s p n.toInt.toNat [] = .ok t) :
    text .removeAt #[.cell id, .int p, .int n] m = .ok .null (m.storing id t) := by
  rw [text, Run.bind_of_ok (Arguments.integer_run rfl), Run.bind_of_ok (Arguments.count_run rfl hn)]
  exact editText_run rfl hs h

theorem replaceAt_run (hn : 0 ≤ n.toInt) (h : Text.splice s p n.toInt.toNat w = .ok t) :
    text .replaceAt #[.cell id, .int p, .int n, chars w] m = .ok .null (m.storing id t) := by
  rw [text, Run.bind_of_ok (Arguments.integer_run rfl), Run.bind_of_ok (Arguments.count_run rfl hn),
    Run.bind_of_ok (Arguments.chars_run rfl)]
  exact editText_run rfl hs h

end Edits

-- ---------------------------------------------------------------------------
-- Failures
-- ---------------------------------------------------------------------------

/-- The computation leaves the machine as it was. -/
def Looks (x : Run α) : Prop := ∀ m, Ends x m (fun _ m' => m' = m) (· = m)

/-- The computation leaves the machine as it was if it fails. -/
def Spares (x : Run α) : Prop := ∀ m, Ends x m (fun _ _ => True) (· = m)

@[grind .]
theorem Looks.pure (a : α) : Looks (Pure.pure a : Run α) := fun _ => .pure rfl

@[grind .]
theorem Looks.fail (fault : Fault) : Looks (Run.fail fault : Run α) := fun _ => .fail rfl

@[grind .]
theorem Looks.lift (x : Except Failure α) : Looks (liftM x : Run α) := fun _ => .lift (fun _ _ => rfl) rfl

@[grind .]
theorem Looks.heap : Looks Run.heap := fun _ => .heap rfl

@[grind .]
theorem Looks.bind {x : Run α} {f : α → Run β} (hx : Looks x) (hf : ∀ a, Looks (f a)) : Looks (x >>= f) :=
  fun m => .bind ((hx m).after fun a _ hm' => hm' ▸ hf a m)

@[grind .]
theorem Looks.spares {x : Run α} (hx : Looks x) : Spares x := fun m => (hx m).after fun _ _ _ => trivial

@[grind .]
theorem Spares.bind {x : Run α} {f : α → Run β} (hx : Looks x) (hf : ∀ a, Spares (f a)) : Spares (x >>= f) :=
  fun m => .bind ((hx m).after fun a _ hm' => hm' ▸ hf a m)

@[grind .]
theorem Arguments.chars_looks (args : Arguments) (k : Nat) : Looks (args.chars k) := by
  grind [Arguments.chars, Arguments.text]

@[grind .]
theorem Arguments.integer_looks (args : Arguments) (k : Nat) : Looks (args.integer k) := by
  grind [Arguments.integer]

@[grind .]
theorem Arguments.count_looks (args : Arguments) (k : Nat) : Looks (args.count k) := by
  grind [Arguments.count]

/-- Storing a text does not fail. -/
@[grind .]
theorem editText_spares (args : Arguments) (f : List Char → Except Failure (List Char)) :
    Spares (editText args f) := by
  refine .bind (args.chars_looks 0) fun cs => .bind (.lift _) fun t m => ?_
  cases args.nth 0 <;> trivial

@[grind .]
theorem alterText_spares (args : Arguments) (f : List Char → List Char) : Spares (alterText args f) :=
  editText_spares args _

@[grind .]
theorem newList_spares (items : Array Value) : Spares (Run.newList items) := fun _ => trivial

/-- A text function that fails leaves the machine as it was. -/
theorem text_spares (f : TextFunction) (args : Arguments) : Spares (text f args) := by
  cases f <;> grind -ring -linarith [text]

end Library

end Rill
