import Reckoner.RowMatrix.Basic

/-!
# Determinants

The determinant is expanded along the first row; matrices of order one and two are computed
directly. The expansion takes time exponential in the order.
-/

namespace Reckoner.RowMatrix

variable {α : Type} [Add α] [Sub α] [Mul α] [Neg α] [OfNat α 0] [OfNat α 1]

/-- The rows below the first one, without the entries of one of so many columns. -/
def minor (m : RowMatrix α) (columns j : Nat) : Except Cause (RowMatrix α) :=
  m.tail.mapM fun row => ((List.range columns).filter (· != j)).mapM (item row)

/-- The sign of a place in the first row. -/
def cofactorSign (j : Nat) : α :=
  if j % 2 = 0 then 1 else -1

/-- The determinant of a square matrix of the given order. -/
def expand : Nat → RowMatrix α → Except Cause α
  | 0, _ => .error .unexpected
  | 1, m => m.entryAt 0 0
  | 2, m => do
      let a ← m.entryAt 0 0
      let d ← m.entryAt 1 1
      let b ← m.entryAt 0 1
      let c ← m.entryAt 1 0
      return a * d - b * c
  | order + 1, m =>
      (List.range (order + 1)).foldlM (fun sum j => do
        let minor ← m.minor (order + 1) j
        let entry ← m.entryAt 0 j
        let value ← expand order minor
        return sum + cofactorSign j * entry * value) 0

/-- The determinant of a square matrix. -/
def determinant (m : RowMatrix α) : Except Cause α := do
  let order ← m.squareOrder
  expand order m

end Reckoner.RowMatrix
