-- SUMMARY: Indices of arrays are a bijection with their data, which transposition respects.
import Rill.Proofs.Json.Values
import Rill.Proofs.Loops.Rounds
import Rill.Proofs.Syntax.Grammar
import Rill.Proofs.Texts.Boundaries
import Rill.Proofs.Texts.Functions

/-!
# Shapes of arrays

An array that has been made has a number for each row and column. Row by row, the pairs of a row and a column are in
bijection with the offsets of its numbers, so that one index can stand for two. The transposed array has the same
numbers under the pairs turned round.
-/

namespace Rill

-- ---------------------------------------------------------------------------
-- Positions
-- ---------------------------------------------------------------------------

/-- A position that a sequence has, counted from one or back from minus one. -/
def IsPosition (p : Int64) (size : Nat) : Prop := (1 ≤ p.toInt ∧ p.toInt ≤ size) ∨ (-size ≤ p.toInt ∧ p.toInt ≤ -1)

instance (p : Int64) (size : Nat) : Decidable (IsPosition p size) := inferInstanceAs (Decidable (_ ∨ _))

theorem isPosition_iff {p : Int64} {size : Nat} : IsPosition p size ↔ ∃ k, resolveIndex p size = .ok k := by
  simp only [resolveIndex_eq_ok_iff, IsPosition]
  constructor
  · rintro (⟨hlo, hhi⟩ | ⟨hlo, hhi⟩)
    · exact ⟨(p.toInt - 1).toNat, by omega⟩
    · exact ⟨(p.toInt + size).toNat, by omega⟩
  · rintro ⟨k, hlt, hp⟩
    omega

/-- The positive position of an offset. -/
theorem exists_position {k : Nat} (hk : k < 0x7FFFFFFFFFFFFFFF) : ∃ p : Int64, p.toInt = k + 1 :=
  ⟨Int64.ofInt (k + 1), IsWord.toInt_ofInt ⟨by omega, by omega⟩⟩

theorem resolveIndex_pos {p : Int64} {size k : Nat} (hp : 0 < p.toInt) :
    resolveIndex p size = .ok k ↔ k < size ∧ p.toInt = k + 1 := by
  rw [resolveIndex_eq_ok_iff]
  omega

-- ---------------------------------------------------------------------------
-- Row by row
-- ---------------------------------------------------------------------------

section RowByRow

variable {rows cols r c k : Nat}

theorem rowOffset_lt (hr : r < rows) (hc : c < cols) : r * cols + c < rows * cols := by
  calc r * cols + c
      < r * cols + cols := Nat.add_lt_add_left hc _
    _ = (r + 1) * cols := (Nat.succ_mul r cols).symm
    _ ≤ rows * cols := Nat.mul_le_mul_right cols hr

theorem rowOffset_div (hc : c < cols) : (r * cols + c) / cols = r := by
  rw [Nat.mul_comm, Nat.mul_add_div (Nat.zero_lt_of_lt hc), Nat.div_eq_of_lt hc, Nat.add_zero]

theorem rowOffset_mod (hc : c < cols) : (r * cols + c) % cols = c := by
  rw [Nat.mul_comm, Nat.mul_add_mod, Nat.mod_eq_of_lt hc]

/-- An offset has a row and a column, so there are some. -/
theorem row_col_lt (hk : k < rows * cols) : k / cols < rows ∧ k % cols < cols := by
  have hcols : 0 < cols := Nat.pos_of_ne_zero (by rintro rfl; omega)
  exact ⟨Nat.div_lt_of_lt_mul (by rwa [Nat.mul_comm]), Nat.mod_lt k hcols⟩

end RowByRow

-- ---------------------------------------------------------------------------
-- Shapes
-- ---------------------------------------------------------------------------

namespace Matrix

variable {a : Matrix}

/-- A number for each row and column. Without numbers, the other dimension may still be any word. -/
structure Shaped (a : Matrix) : Prop where
  size : a.data.size = a.rows * a.cols
  rows_lt : a.data.size < 0x8000000000000000 → a.rows < 0x8000000000000000
  cols_lt : a.data.size < 0x8000000000000000 → a.cols < 0x8000000000000000

namespace Shaped

theorem of_words (hsize : a.data.size = a.rows * a.cols) (hrows : a.rows < 0x8000000000000000)
    (hcols : a.cols < 0x8000000000000000) : a.Shaped := ⟨hsize, fun _ => hrows, fun _ => hcols⟩

theorem of_zero_iff (hsize : a.data.size = a.rows * a.cols) (hzero : a.rows = 0 ↔ a.cols = 0) : a.Shaped where
  size := hsize
  rows_lt hmemory := by
    rcases Nat.eq_zero_or_pos a.cols with hcols | hcols
    · omega
    · exact Nat.lt_of_le_of_lt (Nat.le_mul_of_pos_right a.rows hcols) (hsize ▸ hmemory)
  cols_lt hmemory := by
    rcases Nat.eq_zero_or_pos a.rows with hrows | hrows
    · omega
    · exact Nat.lt_of_le_of_lt (Nat.le_mul_of_pos_left a.cols hrows) (hsize ▸ hmemory)

theorem map (ha : a.Shaped) (f : Float → Float) : (a.map f).Shaped := by
  obtain ⟨hsize, hrows, hcols⟩ := ha
  have hdata : (a.map f).data.size = a.data.size := Array.size_map
  exact ⟨hdata.trans hsize, hdata ▸ hrows, hdata ▸ hcols⟩

end Shaped

theorem size_transpose (a : Matrix) : a.transpose.data.size = a.rows * a.cols := by simp [transpose]

theorem Shaped.transpose (ha : a.Shaped) : a.transpose.Shaped := by
  have hdata : a.transpose.data.size = a.data.size := a.size_transpose.trans ha.size.symm
  exact ⟨a.size_transpose.trans (Nat.mul_comm _ _), hdata ▸ ha.cols_lt, hdata ▸ ha.rows_lt⟩

theorem filled_shaped {rows cols : Nat} {x : Float} (h : filled rows cols x = .ok a)
    (hrows : rows < 0x8000000000000000) (hcols : cols < 0x8000000000000000) : a.Shaped := by
  unfold filled at h
  split at h
  · cases h
    exact .of_words Array.size_replicate hrows hcols
  · cases h

end Matrix

namespace Grammar

open Rill.Parser

variable {nested : Parser Expr} {c c' : Cursor}

theorem arrayRows_ne_nil {limit row n : Nat} {cols : Option Nat} {items : List Expr}
    (h : arrayRows nested limit cols row c = .ok ((items, n), c')) : items ≠ [] := by
  cases limit with
  | zero => exact absurd h (by simp [arrayRows, fail])
  | succ limit =>
    obtain ⟨item, c₁, -, h⟩ := bind_ok h
    obtain ⟨-, c₂, -, h⟩ := bind_ok h
    obtain ⟨comma, c₃, -, h⟩ := bind_ok h
    cases comma with
    | true =>
      obtain ⟨-, c₄, -, h⟩ := bind_ok h
      obtain ⟨⟨rest, n'⟩, c₅, -, h⟩ := bind_ok h
      cases (pure_ok h).1
      exact List.cons_ne_nil item rest
    | false =>
      obtain ⟨next, c₄, -, h⟩ := bind_ok h
      split at h
      · obtain ⟨-, h⟩ := refuse_ok h
        split at h
        · obtain ⟨-, c₅, -, h⟩ := bind_ok h
          obtain ⟨-, c₆, -, h⟩ := bind_ok h
          obtain ⟨⟨rest, n'⟩, c₇, -, h⟩ := bind_ok h
          cases (pure_ok h).1
          exact List.cons_ne_nil item rest
        · cases (pure_ok h).1
          exact List.cons_ne_nil item []
      · cases (pure_ok h).1
        exact List.cons_ne_nil item []

/-- The rows of a literal are of one length, which is not zero; the empty literal has neither rows nor columns. -/
theorem arrayLiteral_shape {limit : Nat} {start : Nat × Nat} {site : Site} {rows cols : Nat}
    {items : List Expr} (h : arrayLiteral limit nested start c = .ok (.array site rows cols items, c')) :
    rows * cols = items.length ∧ (rows = 0 ↔ cols = 0) := by
  obtain ⟨_, c₁, -, h⟩ := bind_ok h
  obtain ⟨empty, c₂, -, h⟩ := bind_ok h
  cases empty with
  | true =>
    obtain ⟨_, c₃, -, h⟩ := bind_ok h
    obtain ⟨hliteral, -⟩ := pure_ok h
    cases hliteral
    exact ⟨rfl, Iff.rfl⟩
  | false =>
    obtain ⟨⟨all, n⟩, c₃, hrows, h⟩ := bind_ok h
    obtain ⟨_, c₄, hexpect, h⟩ := bind_ok h
    obtain ⟨_, c₅, -, h⟩ := bind_ok h
    obtain ⟨hliteral, -⟩ := pure_ok h
    obtain ⟨hpos, hdvd, -⟩ := arrayRows_rectangle hrows (expect_ok hexpect)
    cases hliteral
    rw [Nat.zero_add] at hdvd
    have hlength : 0 < items.length := List.length_pos_iff.mpr (arrayRows_ne_nil hrows)
    have hdiv : 0 < items.length / cols := Nat.div_pos (Nat.le_of_dvd hlength hdvd) hpos
    rw [if_neg (Nat.pos_iff_ne_zero.mp hpos)]
    exact ⟨Nat.div_mul_cancel hdvd, by omega⟩

end Grammar

-- ---------------------------------------------------------------------------
-- Making arrays
-- ---------------------------------------------------------------------------

/-- A function whose answer is a new array: a constructor, a function of one variable for every number, or
transposition. -/
def Native.MakesArray : Native → Prop
  | .array (.filledRow _) | .array (.filled _) | .array .transpose | .math (.applyEach _) => True
  | _ => False

/-- An array that a literal or a function has made, from arrays that have been made so. -/
inductive Matrix.Built : Matrix → Prop
  | literal {nested : Parser Expr} {limit : Nat} {start : Nat × Nat} {site : Site} {rows cols : Nat} {items : List Expr}
      {c c' : Cursor} {f : Frame} {m m' : Machine} {flow : Flow} {v : Value} {a : Matrix}
      (hliteral : Grammar.arrayLiteral limit nested start c = .ok (.array site rows cols items, c'))
      (hrun : Run.perform f (.array rows cols) m = .ok flow m') (hv : m'.stack.back? = some v)
      (ha : m'.heap.contentOf v = some (.array a)) : Built a
  | native {fn : Native} {args : Library.Arguments} {m m' : Machine} {v : Value} {a : Matrix} (hfn : fn.MakesArray)
      (hargs : ∀ w ∈ args.toList, ∀ b, m.heap.contentOf w = some (.array b) → Built b)
      (hrun : fn.run args m = .ok (.value v) m') (ha : m'.heap.contentOf v = some (.array a)) : Built a

namespace Ends

variable {m : Machine} {E : Machine → Prop}

theorem newArray (a : Matrix) : Ends (Run.newArray a) m (fun v m' => m'.heap.contentOf v = some (.array a)) E := by
  obtain ⟨id, m', hrun, -, hcontent⟩ := Run.newObject_grows m .array (.array a)
  have hnew : Run.newArray a m = .ok (.object id) m' := hrun
  rw [Ends, hnew]
  exact hcontent

theorem matrix {args : Library.Arguments} {Q : Matrix → Machine → Prop} (hE : E m)
    (hQ : ∀ a, (∃ v ∈ args.toList, m.heap.contentOf v = some (.array a)) → Q a m) : Ends (args.matrix 0) m Q E := by
  refine .bind (.heap (.lift (fun a ha => hQ a ?_) hE))
  unfold Heap.matrixOf at ha
  split at ha
  · next b hb =>
    cases ha
    rcases args with ⟨_ | ⟨v, rest⟩⟩
    · cases hb
    · exact ⟨v, List.mem_cons_self, hb⟩
  · cases ha

theorem count {args : Library.Arguments} {k : Nat} {Q : Nat → Machine → Prop} (hE : E m)
    (hQ : ∀ n < 0x8000000000000000, Q n m) : Ends (args.count k) m Q E := by
  refine .bind (.bind (.heap (.lift (fun n _ => ?_) hE)))
  refine .ite (fun _ => .bind (.fail hE)) fun _ => .pure (hQ _ ?_)
  have hlt := (isWord_toInt n).2
  omega

end Ends

/-- What a literal makes has the shape of the literal. -/
theorem literal_shape {rows cols : Nat} (f : Frame) (m : Machine) :
    Ends (Run.perform f (.array rows cols)) m (fun _ m' => ∃ v a, m'.stack.back? = some v ∧
      m'.heap.contentOf v = some (.array a) ∧ a.rows = rows ∧ a.cols = cols ∧ a.data.size = rows * cols)
      fun _ => True := by
  refine .bind (.bind (.popMany trivial fun values _ => .bind (.heap (.bind (.lift (fun numbers _ => ?_) trivial)))))
  refine .bind (.lift (fun a ha => .bind ((Ends.newArray a).after fun v m' hv => ?_)) trivial)
  refine .push trivial (.pure ⟨v, a, by simp, hv, ?_⟩)
  unfold Matrix.ofShape at ha
  split at ha
  · next hsize =>
    cases ha
    exact ⟨rfl, rfl, hsize.symm⟩
  · cases ha

theorem native_shaped {fn : Native} (hfn : fn.MakesArray) {args : Library.Arguments} {m : Machine}
    (hargs : ∀ w ∈ args.toList, ∀ b, m.heap.contentOf w = some (.array b) → b.Shaped) :
    Ends (fn.run args) m (fun r m' => ∀ v, r = .value v → ∃ a, m'.heap.contentOf v = some (.array a) ∧ a.Shaped)
      fun _ => True := by
  have hnew {a : Matrix} (ha : a.Shaped) (m : Machine) : Ends (Run.newArray a) m
      (fun r m' => ∀ v, Reply.value r = .value v → ∃ a, m'.heap.contentOf v = some (.array a) ∧ a.Shaped)
      fun _ => True :=
    (Ends.newArray a).after fun v m' hv w hw => by
      cases hw
      exact ⟨a, hv, ha⟩
  unfold Native.MakesArray at hfn
  split at hfn
  · refine .map (.bind (.count trivial fun n hn => .bind (.lift (fun a ha => ?_) trivial)))
    exact hnew (Matrix.filled_shaped ha (by decide) hn) m
  · refine .map (.bind (.count trivial fun n hn => .bind (.count trivial fun k hk => ?_)))
    refine .bind (.lift (fun a ha => ?_) trivial)
    exact hnew (Matrix.filled_shaped ha hn hk) m
  · refine .map (.bind (.matrix trivial fun a ⟨v, hv, ha⟩ => ?_))
    exact hnew (hargs v hv a ha).transpose m
  · refine .map (.bind (.matrix trivial fun a ⟨v, hv, ha⟩ => ?_))
    exact hnew ((hargs v hv a ha).map _) m
  · exact hfn.elim

theorem Matrix.Built.shaped {a : Matrix} (h : a.Built) : a.Shaped := by
  induction h with
  | literal hliteral hrun hv ha =>
    obtain ⟨v, b, hv', hb, hrows, hcols, hsize⟩ := (literal_shape _ _).of_ok hrun
    obtain ⟨-, hzero⟩ := Grammar.arrayLiteral_shape hliteral
    cases hv.symm.trans hv'
    cases ha.symm.trans hb
    subst hrows hcols
    exact .of_zero_iff hsize hzero
  | native hfn hargs hrun ha ih =>
    obtain ⟨b, hb, hshaped⟩ := (native_shaped hfn ih).of_ok hrun _ rfl
    cases ha.symm.trans hb
    exact hshaped

-- ---------------------------------------------------------------------------
-- Words
-- ---------------------------------------------------------------------------

/-- A length as a word; the largest word stands for any that is not. -/
def lengthWord (size : Nat) : Int64 := Int64.ofNat (min size 0x7FFFFFFFFFFFFFFF)

/-- `resolveIndex` in words. There is no result where a word overflows. -/
def resolveIndexWord? (index : Int64) (size : Nat) : ExceptT Failure Option Nat := do
  let length := lengthWord size
  let offset ← (if index < 0 then Decimal.word? (length.toInt + index.toInt) else Decimal.word? (index.toInt - 1) :
    Option Int64)
  if index = 0 ∨ offset < 0 ∨ offset ≥ length then throw (Fault.indexOutOfRange index.toInt size).failure
  return offset.toInt.toNat

/-- The offset of an index or of a pair in words. -/
def Matrix.offsetWord? (a : Matrix) : List Int64 → ExceptT Failure Option Nat
  | [i] => resolveIndexWord? i a.data.size
  | [i, j] => do
    let row ← resolveIndexWord? i a.rows
    let col ← resolveIndexWord? j a.cols
    (if row * a.cols + col < 0x10000000000000000 then some (row * a.cols + col) else none : Option Nat)
  | indices => throw (Fault.arrayIndexCount indices.length).failure

theorem toInt_lengthWord {size : Nat} (hsize : size < 0x8000000000000000) : (lengthWord size).toInt = size := by
  have hmin : min size 0x7FFFFFFFFFFFFFFF = size := Nat.min_eq_left (by omega)
  have hword : IsWord (size : Int) := ⟨by omega, by omega⟩
  rw [lengthWord, hmin]
  exact hword.toInt_ofInt

theorem resolveIndexWord?_eq {index : Int64} {size : Nat} (hsize : size < 0x8000000000000000) :
    resolveIndexWord? index size = some (resolveIndex index size) := by
  obtain ⟨hlo, hhi⟩ := isWord_toInt index
  have hlength := toInt_lengthWord hsize
  have hneg : index < 0 ↔ index.toInt < 0 := Int64.lt_iff_toInt_lt
  let offset := if index < 0 then (size : Int) + index.toInt else index.toInt - 1
  have hword : IsWord offset := by
    simp only [offset, IsWord, hneg]
    split <;> omega
  have hoffset : (if index < 0 then Decimal.word? ((lengthWord size).toInt + index.toInt)
      else Decimal.word? (index.toInt - 1)) = some (Int64.ofInt offset) := by
    rw [← apply_ite Decimal.word?, hlength, word?_eq, if_pos hword]
  have hbelow : Int64.ofInt offset < 0 ↔ offset < 0 := by
    rw [Int64.lt_iff_toInt_lt, hword.toInt_ofInt]
    rfl
  have hbeyond : Int64.ofInt offset ≥ lengthWord size ↔ offset ≥ size := by
    rw [ge_iff_le, Int64.le_iff_toInt_le, hword.toInt_ofInt, hlength]
  unfold resolveIndexWord?
  simp only [hoffset]
  change (if index = 0 ∨ Int64.ofInt offset < 0 ∨ Int64.ofInt offset ≥ lengthWord size then _ else _) = _
  change _ = some (if index = 0 ∨ offset < 0 ∨ offset ≥ size then
    Except.error (Fault.indexOutOfRange index.toInt size).failure else Except.ok offset.toNat)
  rw [hword.toInt_ofInt]
  simp only [hbelow, hbeyond]
  split <;> rfl

-- ---------------------------------------------------------------------------
-- Indices
-- ---------------------------------------------------------------------------

namespace Matrix

variable {a : Matrix} {i j : Int64} {r c k : Nat}

theorem offset_pair (hr : resolveIndex i a.rows = .ok r) (hc : resolveIndex j a.cols = .ok c) :
    a.offset [i, j] = .ok (r * a.cols + c) := by
  simp only [offset, hr, hc, bind, Except.bind]
  rfl

theorem offset_pair_eq_ok_iff : a.offset [i, j] = .ok k ↔
    ∃ r c, resolveIndex i a.rows = .ok r ∧ resolveIndex j a.cols = .ok c ∧ r * a.cols + c = k := by
  constructor
  · intro h
    cases hr : resolveIndex i a.rows with
    | error e => simp [offset, hr, bind, Except.bind] at h
    | ok r =>
      cases hc : resolveIndex j a.cols with
      | error e => simp [offset, hr, hc, bind, Except.bind] at h
      | ok c => exact ⟨r, c, rfl, rfl, Except.ok.inj ((offset_pair hr hc).symm.trans h)⟩
  · rintro ⟨r, c, hr, hc, rfl⟩
    exact offset_pair hr hc

theorem offset_pair_lt (hk : a.offset [i, j] = .ok k) : k < a.rows * a.cols := by
  obtain ⟨r, c, hr, hc, rfl⟩ := offset_pair_eq_ok_iff.mp hk
  exact rowOffset_lt (resolveIndex_lt hr) (resolveIndex_lt hc)

/-- The offset of positive positions. -/
theorem toInt_offset_pair (hk : a.offset [i, j] = .ok k) (hi : 0 < i.toInt) (hj : 0 < j.toInt) :
    (k : Int) + 1 = (i.toInt - 1) * a.cols + j.toInt := by
  obtain ⟨r, c, hr, hc, rfl⟩ := offset_pair_eq_ok_iff.mp hk
  obtain ⟨-, hi⟩ := (resolveIndex_pos hi).mp hr
  obtain ⟨-, hj⟩ := (resolveIndex_pos hj).mp hc
  rw [hi, hj]
  push_cast
  ring

/-- Each offset is that of its row and column. -/
theorem existsUnique_pair (ha : a.Shaped) (hmemory : a.data.size < 0x8000000000000000) (hk : k < a.rows * a.cols) :
    ∃! p : Int64 × Int64, 0 < p.1.toInt ∧ 0 < p.2.toInt ∧ a.offset [p.1, p.2] = .ok k := by
  obtain ⟨hrow, hcol⟩ := row_col_lt hk
  have hrows := ha.rows_lt hmemory
  have hcols := ha.cols_lt hmemory
  obtain ⟨i, hi⟩ := exists_position (k := k / a.cols) (by omega)
  obtain ⟨j, hj⟩ := exists_position (k := k % a.cols) (by omega)
  have hpositive {p : Int64} {n : Nat} (hp : p.toInt = n + 1) : 0 < p.toInt := by omega
  refine ⟨(i, j), ⟨hpositive hi, hpositive hj, ?_⟩, ?_⟩
  · rw [offset_pair (resolveIndex_eq_ok_iff.mpr ⟨hrow, .inl hi⟩) (resolveIndex_eq_ok_iff.mpr ⟨hcol, .inl hj⟩),
      Nat.div_add_mod']
  · rintro ⟨i', j'⟩ ⟨hi', hj', hpair⟩
    obtain ⟨r, c, hr, hc, rfl⟩ := offset_pair_eq_ok_iff.mp hpair
    obtain ⟨-, hi'⟩ := (resolveIndex_pos hi').mp hr
    obtain ⟨hc, hj'⟩ := (resolveIndex_pos hj').mp hc
    rw [rowOffset_div hc] at hi
    rw [rowOffset_mod hc] at hj
    exact Prod.ext (Int64.toInt_inj.mp (hi'.trans hi.symm)) (Int64.toInt_inj.mp (hj'.trans hj.symm))

theorem offsetWord?_eq (ha : a.Shaped) (hmemory : a.data.size < 0x8000000000000000) (indices : List Int64) :
    a.offsetWord? indices = some (a.offset indices) := by
  match indices with
  | [i] => exact resolveIndexWord?_eq hmemory
  | [i, j] =>
    rw [offsetWord?, resolveIndexWord?_eq (ha.rows_lt hmemory), resolveIndexWord?_eq (ha.cols_lt hmemory)]
    cases hr : resolveIndex i a.rows with
    | error e => simp only [offset, hr]; rfl
    | ok r =>
      cases hc : resolveIndex j a.cols with
      | error e => simp only [offset, hr, hc]; rfl
      | ok c =>
        have hlt := rowOffset_lt (resolveIndex_lt hr) (resolveIndex_lt hc)
        have hsmall : r * a.cols + c < 0x10000000000000000 := by have := ha.size; omega
        rw [offset_pair hr hc]
        simp only [bind, ExceptT.bind, ExceptT.mk, ExceptT.bindCont, Option.bind_some, if_pos hsmall]
        rfl
  | [] | _ :: _ :: _ :: _ => rfl

end Matrix

namespace Heap

variable {h : Heap} {v : Value} {a : Matrix}

theorem element_array (hv : h.contentOf v = some (.array a)) (indices : Array Value) :
    h.element v indices = (h.matrixOffset a indices).map fun k => .float (a.data.getD k 0) := by
  unfold contentOf at hv
  split at hv
  · next id hid =>
    simp only [element, hid, hv, bind, Except.bind]
    cases h.matrixOffset a indices <;> rfl
  · cases hv

theorem matrixOffset_pair (i j : Int64) : h.matrixOffset a #[.int i, .int j] = a.offset [i, j] := rfl

theorem matrixOffset_single (n : Int64) : h.matrixOffset a #[.int n] = a.offset [n] := rfl


end Heap

-- ---------------------------------------------------------------------------
-- Transposition
-- ---------------------------------------------------------------------------

namespace Matrix

variable {a : Matrix} {r c k : Nat}

/-- Transposition divides by a number of rows that is not zero and reads inside the data. -/
theorem transpose_source (hsize : a.data.size = a.rows * a.cols) (hk : k < a.rows * a.cols) :
    0 < a.rows ∧ k % a.rows * a.cols + k / a.rows < a.data.size := by
  obtain ⟨hcol, hrow⟩ := row_col_lt (hk.trans_eq (Nat.mul_comm _ _))
  rw [hsize]
  exact ⟨Nat.zero_lt_of_lt hrow, rowOffset_lt hrow hcol⟩

theorem getElem?_transpose (hsize : a.data.size = a.rows * a.cols) (hk : k < a.rows * a.cols) :
    a.transpose.data[k]? = a.data[k % a.rows * a.cols + k / a.rows]? := by
  have hsource := (transpose_source hsize hk).2
  simp [transpose, hk, hsource]

/-- The number of a row and a column is under them turned round. -/
theorem getElem?_transpose_pair (hsize : a.data.size = a.rows * a.cols) (hr : r < a.rows) (hc : c < a.cols) :
    a.transpose.data[c * a.rows + r]? = a.data[r * a.cols + c]? := by
  have hk : c * a.rows + r < a.rows * a.cols := (rowOffset_lt hc hr).trans_eq (Nat.mul_comm _ _)
  rw [getElem?_transpose hsize hk, rowOffset_mod hr, rowOffset_div hr]

theorem transpose_transpose (hsize : a.data.size = a.rows * a.cols) : a.transpose.transpose = a := by
  have hback : a.transpose.data.size = a.transpose.rows * a.transpose.cols :=
    a.size_transpose.trans (Nat.mul_comm _ _)
  have hdata : a.transpose.transpose.data = a.data := by
    refine Array.ext_getElem? fun k => ?_
    by_cases hk : k < a.rows * a.cols
    · obtain ⟨hr, hc⟩ := row_col_lt hk
      have hpair : a.transpose.transpose.data[k / a.cols * a.cols + k % a.cols]? =
          a.transpose.data[k % a.cols * a.rows + k / a.cols]? := getElem?_transpose_pair hback hc hr
      rw [getElem?_transpose_pair hsize hr hc, Nat.div_add_mod'] at hpair
      exact hpair
    · have hbeyond : a.transpose.transpose.data.size = a.rows * a.cols :=
        a.transpose.size_transpose.trans (Nat.mul_comm _ _)
      rw [Array.getElem?_eq_none (by omega), Array.getElem?_eq_none (by omega)]
  exact congrArg (Matrix.mk a.rows a.cols) hdata

end Matrix

/-- Transposing makes a new array and leaves the old one. -/
theorem transpose_run {m : Machine} {v : Value} {a : Matrix} (hv : m.heap.contentOf v = some (.array a)) :
    ∃ w m', Native.run (.array .transpose) #[v] m = .ok (.value w) m' ∧
      m'.heap.contentOf w = some (.array a.transpose) ∧ m'.heap.contentOf v = some (.array a) := by
  obtain ⟨id, m', hrun, hgrows, hcontent⟩ := Run.newObject_grows m .array (.array a.transpose)
  refine ⟨.object id, m', ?_, hcontent, hgrows.heap.contentOf hv⟩
  have hread : Library.Arguments.matrix #[v] 0 m = .ok a m := by
    refine (Run.bind_heap _ m).trans (Run.lift_of_ok ?_)
    simp [Heap.matrixOf, Library.Arguments.nth, hv]
  have htranspose : Library.array .transpose #[v] m = .ok (.object id) m' := (Run.bind_of_ok hread).trans hrun
  change EStateM.map Reply.value (Library.array .transpose #[v]) m = _
  simp only [EStateM.map, htranspose]

-- ---------------------------------------------------------------------------
-- Arrays and their indices
-- ---------------------------------------------------------------------------

/-- How an array is indexed. Just the pairs of positions, of either sign, have an offset, which is one of the
`rows * cols` numbers; each offset is that of one pair of positive positions; a single index, which for positive
positions is found from them, gives the same number; and offsets can be computed in words. -/
structure Heap.Indexes (h : Heap) (v : Value) (a : Matrix) : Prop where
  size : a.data.size = a.rows * a.cols
  valid {i j : Int64} : (∃ k, a.offset [i, j] = .ok k) ↔ IsPosition i a.rows ∧ IsPosition j a.cols
  number {i j : Int64} {k : Nat} : a.offset [i, j] = .ok k →
    k < a.rows * a.cols ∧ ∃ x, a.data[k]? = some x ∧ h.element v #[.int i, .int j] = .ok (.float x)
  pair {k : Nat} : k < a.rows * a.cols → ∃! p : Int64 × Int64, 0 < p.1.toInt ∧ 0 < p.2.toInt ∧
    a.offset [p.1, p.2] = .ok k
  single {i j : Int64} {k : Nat} : a.offset [i, j] = .ok k → ∃ n : Int64, n.toInt = k + 1 ∧
    (0 < i.toInt → 0 < j.toInt → n.toInt = (i.toInt - 1) * a.cols + j.toInt) ∧
    h.element v #[.int n] = h.element v #[.int i, .int j]
  words (indices : List Int64) : a.offsetWord? indices = some (a.offset indices)

namespace Heap

variable {h : Heap} {v : Value} {a : Matrix} {i j : Int64} {k : Nat}

theorem element_pair (hv : h.contentOf v = some (.array a)) (hk : a.offset [i, j] = .ok k) :
    h.element v #[.int i, .int j] = .ok (.float (a.data.getD k 0)) := by
  rw [element_array hv, matrixOffset_pair, hk]
  rfl

theorem element_single {n : Int64} (hv : h.contentOf v = some (.array a)) (hn : n.toInt = k + 1)
    (hk : k < a.data.size) : h.element v #[.int n] = .ok (.float (a.data.getD k 0)) := by
  have hplace : a.offset [n] = .ok k := resolveIndex_eq_ok_iff.mpr ⟨hk, .inl hn⟩
  rw [element_array hv, matrixOffset_single, hplace]
  rfl

theorem indexes_of_shaped (hv : h.contentOf v = some (.array a)) (ha : a.Shaped)
    (hmemory : a.data.size < 0x8000000000000000) : h.Indexes v a where
  size := ha.size
  valid {i j} := by
    simp only [Matrix.offset_pair_eq_ok_iff, isPosition_iff]
    constructor
    · rintro ⟨k, r, c, hr, hc, -⟩
      exact ⟨⟨r, hr⟩, c, hc⟩
    · rintro ⟨⟨r, hr⟩, c, hc⟩
      exact ⟨_, r, c, hr, hc, rfl⟩
  number {i j k} hk := by
    have hlt := Matrix.offset_pair_lt hk
    have hdata : k < a.data.size := hlt.trans_eq ha.size.symm
    refine ⟨hlt, a.data[k], Array.getElem?_eq_getElem hdata, ?_⟩
    rw [element_pair hv hk, Array.getD_eq_getD_getElem?, Array.getElem?_eq_getElem hdata]
    rfl
  pair hk := Matrix.existsUnique_pair ha hmemory hk
  single {i j k} hk := by
    have hdata : k < a.data.size := (Matrix.offset_pair_lt hk).trans_eq ha.size.symm
    obtain ⟨n, hn⟩ := exists_position (k := k) (by omega)
    refine ⟨n, hn, fun hi hj => hn.trans (Matrix.toInt_offset_pair hk hi hj), ?_⟩
    rw [element_single hv hn hdata, element_pair hv hk]
  words := Matrix.offsetWord?_eq ha hmemory

end Heap

/-- Array indexing is a bijection that transposition respects. An array that has been made is indexed so, and so is
the transposed one, in which each number is under its row and column turned round; transposed once more, it is the
array itself. No list of numbers is longer than a word tells, and transposition never divides by zero. -/
theorem arrays_transpose {a : Matrix} (hbuilt : a.Built) (hmemory : a.data.size < 0x8000000000000000) {m : Machine}
    {v : Value} (hv : m.heap.contentOf v = some (.array a)) :
    m.heap.Indexes v a ∧ (∀ k < a.cols * a.rows, 0 < a.rows ∧ k % a.rows * a.cols + k / a.rows < a.data.size) ∧
    ∃ w m' b, Native.run (.array .transpose) #[v] m = .ok (.value w) m' ∧ m'.heap.contentOf w = some (.array b) ∧
      b.rows = a.cols ∧ b.cols = a.rows ∧ m'.heap.Indexes w b ∧
      (∀ i j, IsPosition i a.rows → IsPosition j a.cols →
        m'.heap.element w #[.int j, .int i] = m'.heap.element v #[.int i, .int j]) ∧
      ∃ u m'', Native.run (.array .transpose) #[w] m' = .ok (.value u) m'' ∧
        m''.heap.contentOf u = some (.array a) := by
  have ha := hbuilt.shaped
  obtain ⟨w, m', hrun, hw, hv'⟩ := transpose_run hv
  obtain ⟨u, m'', hrun', hu, -⟩ := transpose_run hw
  have hmemory' : a.transpose.data.size < 0x8000000000000000 := by
    rwa [Matrix.size_transpose, ← ha.size]
  rw [Matrix.transpose_transpose ha.size] at hu
  refine ⟨Heap.indexes_of_shaped hv ha hmemory, fun k hk => ?_, w, m', a.transpose, hrun, hw, rfl, rfl,
    Heap.indexes_of_shaped hw ha.transpose hmemory', fun i j hi hj => ?_, u, m'', hrun', hu⟩
  · exact Matrix.transpose_source ha.size (hk.trans_eq (Nat.mul_comm _ _))
  · obtain ⟨r, hr⟩ := isPosition_iff.mp hi
    obtain ⟨c, hc⟩ := isPosition_iff.mp hj
    have hturned : a.transpose.offset [j, i] = .ok (c * a.rows + r) := Matrix.offset_pair hc hr
    rw [Heap.element_pair hw hturned, Heap.element_pair hv' (Matrix.offset_pair hr hc),
      Array.getD_eq_getD_getElem?, Array.getD_eq_getD_getElem?,
      Matrix.getElem?_transpose_pair ha.size (resolveIndex_lt hr) (resolveIndex_lt hc)]

/-- An array of ones with two rows. -/
theorem arrays_transpose_ones :
    let m : Machine := { config := {} }
    let a : Matrix := ⟨2, 3, Array.replicate 6 1⟩
    ∃ m', Native.run (.array (.filled 1)) #[.int 2, .int 3] m = .ok (.value (.object ⟨0⟩)) m' ∧ a.Built ∧
      a.data.size < 0x8000000000000000 ∧ m'.heap.contentOf (.object ⟨0⟩) = some (.array a) ∧
      m'.heap.Indexes (.object ⟨0⟩) a := by
  intro m a
  obtain ⟨m', hrun, hv⟩ : ∃ m', Native.run (.array (.filled 1)) #[.int 2, .int 3] m =
      .ok (.value (.object ⟨0⟩)) m' ∧ m'.heap.contentOf (.object ⟨0⟩) = some (.array a) := ⟨_, rfl, rfl⟩
  have hargs : ∀ w ∈ [Value.int 2, .int 3], ∀ b, m.heap.contentOf w = some (.array b) → b.Built := by
    simp [Heap.contentOf, Heap.resolve]
  have hmakes : (Native.array (.filled 1)).MakesArray := trivial
  have hbuilt : a.Built := .native hmakes hargs hrun hv
  have hmemory : a.data.size < 0x8000000000000000 := by simp [a]
  exact ⟨m', hrun, hbuilt, hmemory, hv, (arrays_transpose hbuilt hmemory hv).1⟩

end Rill
