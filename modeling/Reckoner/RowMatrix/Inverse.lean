import Reckoner.RowMatrix.Basic

/-!
# Inverses

The inverse is found by elimination in the matrix with the identity written beside it. In each
column the entry of the largest size, the first of several, becomes the pivot; a matrix without a
pivot of sufficient size is singular.
-/

namespace Reckoner.RowMatrix

variable {α : Type} [Sub α] [Mul α] [Div α] [OfNat α 0] [OfNat α 1] [Magnitude α]

/-- A row of the identity matrix. -/
def unitRow (order i : Nat) : List α :=
  (List.range order).map fun j => if i = j then 1 else 0

/-- The rows of a matrix of the given order with the rows of the identity beside them. -/
def augment (order : Nat) (m : RowMatrix α) : RowMatrix α :=
  m.zipIdx.map fun place => place.1 ++ unitRow order place.2

/-- The size of the entry of a column in a row. -/
def sizeAt (m : RowMatrix α) (column row : Nat) : Except Cause α :=
  (m.entryAt row column).map Magnitude.size

/-- The row with the larger entry of a column, and the size of that entry: the row that has been
found before, unless the other row has a larger one. -/
def largerRow (m : RowMatrix α) (column : Nat) (found : Nat × α) (row : Nat) :
    Except Cause (Nat × α) := do
  let size ← m.sizeAt column row
  return if Magnitude.below found.2 size then (row, size) else found

/-- The place of the row with the largest entry of a column, from the row of that place on. -/
def pivotRow (m : RowMatrix α) (column : Nat) : Except Cause Nat := do
  let size ← m.sizeAt column column
  let found ← (List.range' (column + 1) (m.length - (column + 1))).foldlM
    (m.largerRow column) (column, size)
  return found.1

/-- The matrix with two rows exchanged. -/
def exchange (m : RowMatrix α) (i j : Nat) : Except Cause (RowMatrix α) := do
  let first ← item m i
  let second ← item m j
  return (m.set i second).set j first

/-- A row divided by its entry in a column. -/
def normalize (column : Nat) (row : List α) : Except Cause (List α) := do
  let pivot ← item row column
  if Magnitude.isZero pivot then .error .divisionByZero else return row.map (· / pivot)

/-- A row less a multiple of the pivot's row, so that its entry in the column vanishes; the row
itself if it is zero there already. -/
def clear (pivot : List α) (column : Nat) (row : List α) : Except Cause (List α) := do
  let factor ← item row column
  return if Magnitude.isZero factor then row
    else row.zipWith (fun value pivotValue => value - factor * pivotValue) pivot

/-- Makes a column that of the identity. -/
def eliminate (m : RowMatrix α) (column : Nat) : Except Cause (RowMatrix α) := do
  let best ← m.pivotRow column
  let size ← m.sizeAt column best
  if Magnitude.below size Magnitude.threshold then .error .singularMatrix
  else do
    let m ← m.exchange column best
    let row ← item m column
    let pivot ← normalize column row
    m.zipIdx.mapM fun place =>
      if place.2 = column then .ok pivot else clear pivot column place.1

/-- The inverse of a square matrix. -/
def inverse (m : RowMatrix α) : Except Cause (RowMatrix α) := do
  let order ← m.squareOrder
  let done ← (List.range order).foldlM eliminate (augment order m)
  return done.map fun row => row.drop order

end Reckoner.RowMatrix
