-- SUMMARY: Positions in sequences and rectangular arrays of floats.
import Rill.Fault

/-!
# Positions and matrices

A position counts from one; a negative one counts from the end. A `Matrix` holds floats row by row; what
scripts call an array of one dimension is a matrix with one row.
-/

namespace Rill

/-- The offset of a position in a sequence of the given size. -/
def resolveIndex (index : Int64) (size : Nat) : Except Failure Nat :=
  let offset := if index < 0 then (size : Int) + index.toInt else index.toInt - 1
  if index = 0 ∨ offset < 0 ∨ offset ≥ size then
    .error (Fault.indexOutOfRange index.toInt size)
  else .ok offset.toNat

/-- Floats in rows of one length, row by row. -/
structure Matrix where
  rows : Nat
  cols : Nat
  data : Array Float
  deriving Repr, DecidableEq, Inhabited

namespace Matrix

/-- A matrix of the given shape, if the data fill it. -/
def ofShape (rows cols : Nat) (data : Array Float) : Except Failure Matrix :=
  if rows * cols = data.size then .ok ⟨rows, cols, data⟩
  else .error (Fault.badShape rows cols data.size)

/-- A matrix with the same number everywhere, if its size is a word. -/
def filled (rows cols : Nat) (x : Float) : Except Failure Matrix :=
  if rows * cols < 0x10000000000000000 then .ok ⟨rows, cols, Array.replicate (rows * cols) x⟩
  else .error Fault.hugeArray

/-- A single row; without data there is no row. -/
def row (data : Array Float) : Matrix := ⟨if data.isEmpty then 0 else 1, data.size, data⟩

/-- The offset of a position in the row-by-row order, or of a row and a column. -/
def offset (m : Matrix) : List Int64 → Except Failure Nat
  | [i] => resolveIndex i m.data.size
  | [i, j] => do
    let row ← resolveIndex i m.rows
    let col ← resolveIndex j m.cols
    return row * m.cols + col
  | indices => .error (Fault.arrayIndexCount indices.length)

/-- The number at an offset. -/
def at? (m : Matrix) (offset : Nat) : Option Float := m.data[offset]?

/-- The matrix with rows and columns exchanged. -/
def transpose (m : Matrix) : Matrix :=
  let entry (k : Nat) : Float := m.data.getD (k % m.rows * m.cols + k / m.rows) 0
  ⟨m.cols, m.rows, (Array.range (m.rows * m.cols)).map entry⟩

/-- The matrix with a function applied to every number. -/
def map (f : Float → Float) (m : Matrix) : Matrix := { m with data := m.data.map f }

/-- Equal shapes and equal numbers; nan equals nothing. -/
def equals (a b : Matrix) : Bool := a.rows = b.rows && a.cols = b.cols && a.data == b.data

end Matrix

end Rill
