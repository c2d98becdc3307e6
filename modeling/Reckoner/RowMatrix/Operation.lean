import Reckoner.RowMatrix.Determinant
import Reckoner.RowMatrix.Inverse

/-!
# Operations on matrices

An operation takes one or two matrices. The number of operands is checked before their shapes.
-/

namespace Reckoner

/-- An operation on matrices. -/
inductive MatrixOperation where
  | multiply
  | add
  | subtract
  | transpose
  | trace
  | inverse
  | determinant
  /-- An operation that no rule knows. -/
  | unknown (name : String)
deriving DecidableEq

namespace MatrixOperation

/-- The name of an operation. -/
def name : MatrixOperation → String
  | multiply => "×"
  | add => "+"
  | subtract => "-"
  | transpose => "transpose"
  | trace => "trace"
  | inverse => "inv"
  | determinant => "det"
  | unknown name => name

/-- The operation with a name. -/
def ofName (name : String) : MatrixOperation :=
  match name with
  | "×" => multiply
  | "+" => add
  | "-" => subtract
  | "transpose" => transpose
  | "trace" => trace
  | "inv" => inverse
  | "det" => determinant
  | name => unknown name

variable {α : Type} [Add α] [Sub α] [Mul α] [Div α] [Neg α] [OfNat α 0] [OfNat α 1] [Magnitude α]

/-- Applies a function of two matrices. -/
def onTwo (operation : MatrixOperation)
    (f : RowMatrix α → RowMatrix α → Except Cause (RowMatrix α)) :
    List (RowMatrix α) → Except Cause (RowMatrix α)
  | [a, b] => f a b
  | _ => .error (.needsTwoMatrices operation.name)

/-- Applies a function of one matrix. -/
def onOne (operation : MatrixOperation) (f : RowMatrix α → Except Cause (RowMatrix α)) :
    List (RowMatrix α) → Except Cause (RowMatrix α)
  | [m] => f m
  | _ => .error (.needsOneMatrix operation.name)

/-- The matrix with a single entry. -/
def single (value : α) : RowMatrix α :=
  [[value]]

/-- Performs an operation. -/
def perform (operation : MatrixOperation) (matrices : List (RowMatrix α)) :
    Except Cause (RowMatrix α) :=
  if matrices.isEmpty then .error .noMatrix
  else
    match operation with
    | multiply => operation.onTwo RowMatrix.multiply matrices
    | add => operation.onTwo RowMatrix.add matrices
    | subtract => operation.onTwo RowMatrix.subtract matrices
    | transpose => operation.onOne (fun m => .ok m.transpose) matrices
    | trace => operation.onOne (fun m => m.trace.map single) matrices
    | inverse => operation.onOne RowMatrix.inverse matrices
    | determinant => operation.onOne (fun m => m.determinant.map single) matrices
    | unknown name => .error (.unsupportedOperation name)

end MatrixOperation

end Reckoner
