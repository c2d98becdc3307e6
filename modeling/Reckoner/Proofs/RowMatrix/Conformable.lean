import Reckoner.Proofs.Decimal.RoundTrip
import Reckoner.Proofs.RowMatrix.Shaped

/-!
# Conformable operands

The shapes of the operands decide whether an operation accepts them, and which shape its result has;
what their entries are does not matter. Only the elimination looks at entries: it refuses a matrix as
singular if a pivot is too small. Every comparison with a non-number fails, so that a non-number may
become the pivot, but zero does not (`Reckoner.RowMatrix.small_of_zero`).
-/

namespace Reckoner

open Outcome

/-! ## What shapes prescribe -/

namespace MatrixOperation

/-- What a function of two shapes prescribes for two matrices; another number of them makes no
expression. -/
def prescribedForTwo (f : ℕ × ℕ → ℕ × ℕ → Except ErrorKind (ℕ × ℕ)) :
    List (ℕ × ℕ) → Except ErrorKind (ℕ × ℕ)
  | [a, b] => f a b
  | _ => .error .invalidExpression

/-- What a function of a shape prescribes for one matrix. -/
def prescribedForOne (f : ℕ × ℕ → Except ErrorKind (ℕ × ℕ)) :
    List (ℕ × ℕ) → Except ErrorKind (ℕ × ℕ)
  | [a] => f a
  | _ => .error .invalidExpression

/-- The shape that is prescribed under a condition on the shapes of the operands. -/
def shapeIf (conformable : Prop) [Decidable conformable] (shape : ℕ × ℕ) :
    Except ErrorKind (ℕ × ℕ) :=
  if conformable then .ok shape else .error .matrixDimensionMismatch

/-- The shape, in rows and columns, of the result of the operation with a name on matrices of the
given shapes, or the kind of error for which they are refused. -/
def prescribed (name : String) (shapes : List (ℕ × ℕ)) : Except ErrorKind (ℕ × ℕ) :=
  if shapes = [] then .error .invalidExpression
  else
    match name with
    | "×" => prescribedForTwo (fun a b => shapeIf (a.2 = b.1) (a.1, b.2)) shapes
    | "+" => prescribedForTwo (fun a b => shapeIf (a = b) a) shapes
    | "-" => prescribedForTwo (fun a b => shapeIf (a = b) a) shapes
    | "transpose" => prescribedForOne (fun a => .ok (a.2, a.1)) shapes
    | "trace" => prescribedForOne (fun a => shapeIf (a.1 = a.2) (1, 1)) shapes
    | "inv" => prescribedForOne (fun a => shapeIf (a.1 = a.2) a) shapes
    | "det" => prescribedForOne (fun a => shapeIf (a.1 = a.2) (1, 1)) shapes
    | _ => .error .unsupportedOperation

end MatrixOperation

namespace RowMatrix

variable {α : Type} {m a b : RowMatrix α} {rows columns : ℕ} {maySingular : Prop}

/-- The matrix has rows and columns, and an entry in each of them. -/
def Filled (m : RowMatrix α) : Prop :=
  ∃ rows columns, m.Shaped (rows + 1) (columns + 1)

theorem Shaped.shape_eq (shaped : m.Shaped (rows + 1) columns) : m.shape = (rows + 1, columns) := by
  obtain ⟨height, breadth⟩ := shaped
  cases m with
  | nil => cases height
  | cons first rest =>
      rw [← height, ← breadth first List.mem_cons_self]
      rfl

/-- A computation is refused with the prescribed kind of error, or gives a matrix of the prescribed
shape, which has rows and columns. Where it may meet a singular matrix, it may also refuse that. -/
def Conforms (maySingular : Prop) (outcome : Except Cause (RowMatrix α)) :
    Except ErrorKind (ℕ × ℕ) → Prop
  | .error kind => ∃ cause, outcome = .error cause ∧ cause.kind = kind
  | .ok (rows, columns) => 0 < rows ∧ 0 < columns ∧
      ((∃ result, outcome = .ok result ∧ result.Shaped rows columns) ∨
        maySingular ∧ outcome = .error .singularMatrix)

/-! ## The operations -/

/-- An outcome conforms to a shape under a condition if it ends, where the condition holds, in a
matrix of the shape, and in a mismatch where it does not. -/
theorem conforms_shapeIf {conformable : Prop} [Decidable conformable]
    {outcome : Except Cause (RowMatrix α)}
    (ends : EndsIn (fun result => conformable ∧ result.Shaped (rows + 1) (columns + 1))
      (fun cause => ¬conformable ∧ cause = .dimensionMismatch ∨
        conformable ∧ maySingular ∧ cause = .singularMatrix) outcome) :
    Conforms maySingular outcome (MatrixOperation.shapeIf conformable (rows + 1, columns + 1)) := by
  rw [MatrixOperation.shapeIf]
  cases outcome with
  | ok result =>
      obtain ⟨holds, shaped⟩ := ends
      rw [if_pos holds]
      exact ⟨Nat.succ_pos rows, Nat.succ_pos columns, .inl ⟨result, rfl, shaped⟩⟩
  | error cause =>
      obtain ⟨fails, rfl⟩ | ⟨holds, may, rfl⟩ := ends
      · rw [if_neg fails]
        exact ⟨_, rfl, rfl⟩
      · rw [if_pos holds]
        exact ⟨Nat.succ_pos rows, Nat.succ_pos columns, .inr ⟨may, rfl⟩⟩

theorem conforms_combine {f : α → α → α} (first : a.Filled) (second : b.Filled) :
    Conforms maySingular (combine f a b) (MatrixOperation.shapeIf (a.shape = b.shape) a.shape) := by
  obtain ⟨rows, columns, first⟩ := first
  obtain ⟨others, widths, second⟩ := second
  rw [first.shape_eq, second.shape_eq]
  exact conforms_shapeIf (endsIn_combine first second fun other => .inl ⟨other, rfl⟩)

theorem conforms_transpose (filled : m.Filled) :
    Conforms maySingular (.ok m.transpose) (.ok (m.shape.2, m.shape.1)) := by
  obtain ⟨rows, columns, shaped⟩ := filled
  rw [shaped.shape_eq]
  exact ⟨Nat.succ_pos columns, Nat.succ_pos rows, .inl ⟨_, rfl, shaped.transpose⟩⟩

theorem shaped_single (value : α) : Shaped (MatrixOperation.single value) 1 1 :=
  ⟨rfl, List.forall_mem_singleton.mpr rfl⟩

section Arithmetic

variable [Add α] [Mul α] [OfNat α 0]

theorem conforms_multiply (first : a.Filled) (second : b.Filled) :
    Conforms maySingular (multiply a b)
      (MatrixOperation.shapeIf (a.shape.2 = b.shape.1) (a.shape.1, b.shape.2)) := by
  obtain ⟨rows, columns, first⟩ := first
  obtain ⟨others, widths, second⟩ := second
  rw [first.shape_eq, second.shape_eq]
  exact conforms_shapeIf (endsIn_multiply first second fun other => .inl ⟨other, rfl⟩)

omit [Mul α] in
theorem conforms_trace (filled : m.Filled) :
    Conforms maySingular (m.trace.map MatrixOperation.single)
      (MatrixOperation.shapeIf (m.shape.1 = m.shape.2) (1, 1)) := by
  obtain ⟨rows, columns, shaped⟩ := filled
  rw [shaped.shape_eq]
  apply conforms_shapeIf
  apply (shaped.endsIn_trace fun other => .inl ⟨other, rfl⟩).map
  exact fun value square => ⟨square.symm, shaped_single value⟩

theorem conforms_determinant [Sub α] [Neg α] [OfNat α 1] (filled : m.Filled) :
    Conforms maySingular (m.determinant.map MatrixOperation.single)
      (MatrixOperation.shapeIf (m.shape.1 = m.shape.2) (1, 1)) := by
  obtain ⟨rows, columns, shaped⟩ := filled
  rw [shaped.shape_eq]
  apply conforms_shapeIf
  apply (shaped.endsIn_determinant fun other => .inl ⟨other, rfl⟩).map
  exact fun value square => ⟨square.symm, shaped_single value⟩

end Arithmetic

/-- A double that equals zero is below the size from which a pivot counts. -/
theorem small_of_zero {x : Float} (zero : Magnitude.isZero x = true) :
    Magnitude.below (Magnitude.size x) Magnitude.threshold = true := by
  cases finite : x.isFinite with
  | false => rcases Decimal.eq_special finite with rfl | rfl | rfl <;> cases zero
  | true =>
      obtain ⟨unpacked, form, rfl⟩ := Decimal.exists_form finite
      cases form with
      | zero sign => cases sign <;> decide +kernel
      | finite sign canonical =>
          change (Decimal.ofForm _ == 0) = true at zero
          rw [Decimal.finite_beq_zero sign canonical] at zero
          cases zero

/-- The elimination never divides by zero: a pivot that is zero has been refused before, whatever
the other entries are. -/
theorem conforms_inverse {m : RowMatrix Float} (filled : m.Filled) (may : maySingular) :
    Conforms maySingular m.inverse
      (MatrixOperation.shapeIf (m.shape.1 = m.shape.2) m.shape) := by
  obtain ⟨rows, columns, shaped⟩ := filled
  rw [shaped.shape_eq]
  by_cases square : rows + 1 = columns + 1
  · cases square
    have divides : ∀ x : Float,
        Magnitude.below (Magnitude.size x) Magnitude.threshold = false →
        Magnitude.isZero x = true → False := by
      intro x large zero
      rw [small_of_zero zero] at large
      cases large
    have ends : EndsIn _ (· = .singularMatrix) m.inverse := shaped.endsIn_inverse rfl
      (fun x large zero => (divides x large zero).elim) fun other => absurd rfl other
    exact conforms_shapeIf (ends.mono (fun _ both => ⟨rfl, both.2⟩)
      fun cause is => .inr ⟨rfl, may, is⟩)
  · have refused : m.inverse = .error .dimensionMismatch := by
      rw [inverse, squareOrder, shaped.measure_eq]
      simp only [ok_bind, if_neg square, error_bind]
    rw [refused]
    exact conforms_shapeIf (.inl ⟨square, rfl⟩)

end RowMatrix

/-! ## Every operation -/

namespace MatrixOperation

open RowMatrix

section Operands

variable {α : Type} {maySingular : Prop} (operation : MatrixOperation)
  {matrices : List (RowMatrix α)} (filled : ∀ m ∈ matrices, m.Filled)

include filled

theorem conforms_onTwo {f : RowMatrix α → RowMatrix α → Except Cause (RowMatrix α)}
    {shapeOf : ℕ × ℕ → ℕ × ℕ → Except ErrorKind (ℕ × ℕ)}
    (conforms : ∀ a b : RowMatrix α, a.Filled → b.Filled →
      Conforms maySingular (f a b) (shapeOf a.shape b.shape)) :
    Conforms maySingular (operation.onTwo f matrices)
      (prescribedForTwo shapeOf (matrices.map shape)) := by
  match matrices with
  | [a, b] => exact conforms a b (filled a List.mem_cons_self) (filled b (.tail _ (.head _)))
  | [] | [_] | _ :: _ :: _ :: _ => exact ⟨_, rfl, rfl⟩

theorem conforms_onOne {f : RowMatrix α → Except Cause (RowMatrix α)}
    {shapeOf : ℕ × ℕ → Except ErrorKind (ℕ × ℕ)}
    (conforms : ∀ m : RowMatrix α, m.Filled → Conforms maySingular (f m) (shapeOf m.shape)) :
    Conforms maySingular (operation.onOne f matrices)
      (prescribedForOne shapeOf (matrices.map shape)) := by
  match matrices with
  | [m] => exact conforms m (filled m List.mem_cons_self)
  | [] | _ :: _ :: _ => exact ⟨_, rfl, rfl⟩

end Operands

/-- **Operations accept exactly the conformable operands.** Whatever doubles the entries are, an
operation on filled matrices refuses operands with the prescribed kind of error or gives a matrix of
the prescribed shape; besides, the inverse may be refused because the matrix is singular. -/
theorem perform_conforms (name : String) (matrices : List (RowMatrix Float))
    (filled : ∀ m ∈ matrices, m.Filled) :
    Conforms (name = "inv") ((ofName name).perform matrices)
      (prescribed name (matrices.map shape)) := by
  cases matrices with
  | nil => exact ⟨.noMatrix, rfl, rfl⟩
  | cons first others =>
      have some : (first :: others).map shape ≠ [] := List.cons_ne_nil _ _
      unfold prescribed
      rw [if_neg some]
      split
      · exact conforms_onTwo .multiply filled fun a b => conforms_multiply
      · exact conforms_onTwo .add filled fun a b => conforms_combine
      · exact conforms_onTwo .subtract filled fun a b => conforms_combine
      · exact conforms_onOne .transpose filled fun m => conforms_transpose
      · exact conforms_onOne .trace filled fun m => conforms_trace
      · exact conforms_onOne .inverse filled fun m present =>
          conforms_inverse present rfl
      · exact conforms_onOne .determinant filled fun m => conforms_determinant
      · have unknown : ofName name = .unknown name := by
          unfold ofName
          split
          case h_8 => rfl
          all_goals contradiction
        rw [unknown]
        exact ⟨.unsupportedOperation name, rfl, rfl⟩

/-- A column is multiplied with a row, and a matrix inverted whose first entry is a non-number. -/
theorem perform_conforms_non_number :
    (∃ product, (ofName "×").perform [[[(1 : Float)], [2]], [[3, 0 / 0]]] = .ok product ∧
      product.Shaped 2 2) ∧
    Conforms True ((ofName "inv").perform [[[(0 / 0 : Float), 1], [1, 0]]]) (.ok (2, 2)) := by
  have column : Filled [[(1 : Float)], [2]] := ⟨1, 0, rfl, by simp⟩
  have row : Filled [[(3 : Float), 0 / 0]] := ⟨0, 1, rfl, by simp⟩
  have square : Filled [[(0 / 0 : Float), 1], [1, 0]] := ⟨1, 1, rfl, by simp⟩
  constructor
  · obtain ⟨-, -, valued | ⟨other, -⟩⟩ := perform_conforms "×" [[[1], [2]], [[3, 0 / 0]]]
      (List.forall_mem_cons.mpr ⟨column, List.forall_mem_singleton.mpr row⟩)
    · exact valued
    · exact absurd other (by decide)
  · obtain ⟨rows, columns, ends⟩ := perform_conforms "inv" [[[0 / 0, 1], [1, 0]]]
      (List.forall_mem_singleton.mpr square)
    exact ⟨rows, columns, ends.imp_right fun both => ⟨trivial, both.2⟩⟩

end MatrixOperation

end Reckoner
