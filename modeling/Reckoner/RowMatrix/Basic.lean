import Reckoner.Failure

/-!
# Matrices

A matrix is a list of rows. The operations need nothing of the entries but their arithmetic and,
for the choice of pivots, a size and its order; they serve doubles as well as exact fractions.
Sums run from left to right. A place outside of a matrix has no entry, and to look there is a
failure that no rule describes; so is to measure a matrix without rows.
-/

namespace Reckoner

/-- A matrix as its rows. -/
abbrev RowMatrix (α : Type) := List (List α)

/-- The order of magnitude by which elimination chooses its pivots. -/
class Magnitude (α : Type) where
  /-- The size of an entry. -/
  size : α → α
  /-- A size is below another. -/
  below : α → α → Bool
  /-- An entry is zero. -/
  isZero : α → Bool
  /-- A pivot of a size below this one counts as zero. -/
  threshold : α

instance : Magnitude Float where
  size := Float.abs
  below a b := a < b
  isZero a := a == 0
  threshold := 1e-12

instance : Magnitude Rat where
  size := Rat.abs
  below a b := a < b
  isZero a := a == 0
  threshold := mkRat 1 1000000000000

namespace RowMatrix

variable {α : Type}

/-- The item at a place of a list. -/
def item {β : Type} (items : List β) (i : Nat) : Except Cause β :=
  match items[i]? with
  | some x => .ok x
  | none => .error .unexpected

/-- The entry of a row and a column. -/
def entryAt (m : RowMatrix α) (i j : Nat) : Except Cause α := do
  let row ← item m i
  item row j

/-- The numbers of rows and columns; the first row tells the columns. -/
def measure (m : RowMatrix α) : Except Cause (Nat × Nat) := do
  let first ← item m 0
  return (m.length, first.length)

/-- The number of columns, none without rows. -/
def width (m : RowMatrix α) : Nat :=
  (m.head?.map List.length).getD 0

/-- The numbers of rows and columns of a matrix that may have no rows. -/
def shape (m : RowMatrix α) : Nat × Nat :=
  (m.length, m.width)

/-- All rows have the length of the first one. -/
def isRectangular (m : RowMatrix α) : Bool :=
  m.all fun row => row.length == m.width

/-- The order of a square matrix. -/
def squareOrder (m : RowMatrix α) : Except Cause Nat := do
  let (rows, columns) ← m.measure
  if rows = columns then return rows else .error .dimensionMismatch

/-- Combines two matrices of one shape entry by entry. -/
def combine (f : α → α → α) (a b : RowMatrix α) : Except Cause (RowMatrix α) := do
  let first ← a.measure
  let second ← b.measure
  if first = second then return a.zipWith (List.zipWith f) b else .error .dimensionMismatch

/-- The sum of two matrices. -/
def add [Add α] (a b : RowMatrix α) : Except Cause (RowMatrix α) :=
  combine (· + ·) a b

/-- The difference of two matrices. -/
def subtract [Sub α] (a b : RowMatrix α) : Except Cause (RowMatrix α) :=
  combine (· - ·) a b

/-- The entries at one place of each row that has the place. -/
def column (m : RowMatrix α) (j : Nat) : List α :=
  m.filterMap fun row => row[j]?

/-- Rows and columns exchanged, as far as the shortest row goes. -/
def transpose (m : RowMatrix α) : RowMatrix α :=
  (List.range ((m.map List.length).min?.getD 0)).map m.column

section Arithmetic

variable [Add α] [Mul α] [OfNat α 0]

/-- The sum of the first products of a row of one matrix and a column of another, from left to
right. -/
def dot (a b : RowMatrix α) (i j count : Nat) : Except Cause α :=
  (List.range count).foldlM (fun sum k => do
    let x ← a.entryAt i k
    let y ← b.entryAt k j
    return sum + x * y) 0

/-- The product of two matrices; the first has as many columns as the second has rows. -/
def multiply (a b : RowMatrix α) : Except Cause (RowMatrix α) := do
  let (rows, inner) ← a.measure
  let (rowsBelow, columns) ← b.measure
  if inner = rowsBelow then
    (List.range rows).mapM fun i => (List.range columns).mapM fun j => dot a b i j inner
  else .error .dimensionMismatch

/-- The sum of the diagonal of a square matrix. -/
def trace (m : RowMatrix α) : Except Cause α := do
  let order ← m.squareOrder
  (List.range order).foldlM (fun sum i => do return sum + (← m.entryAt i i)) 0

end Arithmetic

end RowMatrix

end Reckoner
