import Reckoner.Proofs.RowMatrix.Conformable
import Reckoner.Proofs.RowMatrix.Entries

/-!
# Rows and columns exchanged

The transpose of a product is the product of the transposes in the other order, and sums and
differences are transposed part by part (`Reckoner.RowMatrix.transpose_products`). Both sides add the
same products in the same order, so that nothing is asked of the addition; the multiplication has to
be commutative, as that of doubles is (`Reckoner.Decimal.double_mul_comm`).
-/

namespace Reckoner

open Outcome

/-! ## Products of doubles -/

namespace Decimal

open Float.Model

theorem sign_mul_comm (first second : UnpackedFloat.Sign) : first * second = second * first := by
  cases first <;> cases second <;> rfl

/-- **Doubles multiply commutatively**, infinities and the non-number included. -/
theorem double_mul_comm (x y : Float) : x * y = y * x := by
  change Float.ofModel (Float.Model.pack (UnpackedFloat.mul _ x.toModel.unpack y.toModel.unpack)) =
    Float.ofModel (Float.Model.pack (UnpackedFloat.mul _ y.toModel.unpack x.toModel.unpack))
  congr 2
  cases x.toModel.unpack <;> cases y.toModel.unpack <;>
    simp only [UnpackedFloat.mul, sign_mul_comm, Nat.mul_comm, Int.add_comm]

end Decimal

namespace RowMatrix

variable {α β : Type} {rows columns others widths : ℕ}

/-! ## Transposes by their entries -/

theorem column_ofMatrix (M : Matrix (Fin rows) (Fin columns) α) (j : Fin columns) :
    (ofMatrix M).column j = List.ofFn fun i => M i j := by
  have entry (i : Fin rows) : (List.ofFn (M i))[j.val]? = some (M i j) := by
    rw [List.getElem?_ofFn, dif_pos j.isLt]
  rw [column, ofMatrix, List.ofFn_eq_map, List.filterMap_map, List.ofFn_eq_map]
  exact (List.filterMap_congr fun i _ => entry i).trans (congrFun List.filterMap_eq_map _)

/-- Rows and columns are exchanged entry by entry. -/
theorem transpose_ofMatrix (M : Matrix (Fin (rows + 1)) (Fin columns) α) :
    (ofMatrix M).transpose = ofMatrix M.transpose := by
  have lengths : (ofMatrix M).map List.length = List.replicate (rows + 1) columns :=
    List.eq_replicate_iff.mpr ⟨by rw [List.length_map, (shaped_ofMatrix M).height],
      List.forall_mem_map.mpr (shaped_ofMatrix M).breadth⟩
  rw [transpose, lengths, List.min?_replicate_of_pos (Nat.succ_pos rows), Option.getD_some,
    ← List.map_coe_finRange_eq_range, List.map_map]
  exact (List.map_congr_left fun j _ => column_ofMatrix M j).trans List.ofFn_eq_map.symm

theorem transpose_transpose {m : RowMatrix α} (filled : m.Filled) :
    m.transpose.transpose = m := by
  obtain ⟨rows, columns, shaped⟩ := filled
  obtain ⟨M, rfl⟩ := shaped.exists_ofMatrix
  rw [transpose_ofMatrix, transpose_ofMatrix, Matrix.transpose_transpose]

/-! ## Sums and differences -/

theorem combine_ofMatrix (f : α → α → α) (M N : Matrix (Fin (rows + 1)) (Fin columns) α) :
    combine f (ofMatrix M) (ofMatrix N) = .ok (ofMatrix fun i j => f (M i j) (N i j)) := by
  rw [combine, (shaped_ofMatrix M).measure_eq, (shaped_ofMatrix N).measure_eq, ok_bind, ok_bind,
    if_pos rfl, ofMatrix, ofMatrix, zipWith_ofFn]
  simp only [zipWith_ofFn]
  rfl

theorem combine_of_ne {f : α → α → α} {a b : RowMatrix α}
    (first : a.Shaped (rows + 1) columns) (second : b.Shaped (others + 1) widths)
    (ne : (rows + 1, columns) ≠ (others + 1, widths)) :
    combine f a b = .error .dimensionMismatch := by
  rw [combine, first.measure_eq, second.measure_eq, ok_bind, ok_bind, if_neg ne]

/-- What is combined entry by entry is transposed part by part. -/
theorem combine_transpose (f : α → α → α) {a b : RowMatrix α} (first : a.Filled)
    (second : b.Filled) :
    combine f a.transpose b.transpose = (combine f a b).map transpose := by
  obtain ⟨rows, columns, first⟩ := first
  obtain ⟨others, widths, second⟩ := second
  by_cases same : (rows + 1, columns + 1) = (others + 1, widths + 1)
  · cases same
    obtain ⟨M, rfl⟩ := first.exists_ofMatrix
    obtain ⟨N, rfl⟩ := second.exists_ofMatrix
    rw [transpose_ofMatrix, transpose_ofMatrix, combine_ofMatrix, combine_ofMatrix]
    exact congrArg Except.ok (transpose_ofMatrix fun i j => f (M i j) (N i j)).symm
  · have exchanged : (columns + 1, rows + 1) ≠ (widths + 1, others + 1) :=
      fun is => same (congrArg Prod.swap is)
    rw [combine_of_ne first second same, combine_of_ne first.transpose second.transpose exchanged]
    rfl

/-! ## Products -/

section Arithmetic

variable [Add α] [Mul α] [OfNat α 0]

/-- The sum, from left to right, of the products of the entries of two lists. -/
def sumOfProducts (row column : List α) : α :=
  (row.zipWith (· * ·) column).foldl (· + ·) 0

theorem sumOfProducts_ofFn {n : ℕ} (row column : Fin n → α) :
    sumOfProducts (List.ofFn row) (List.ofFn column) =
      Fin.foldl n (fun sum k => sum + row k * column k) 0 := by
  rw [sumOfProducts, zipWith_ofFn, List.ofFn_eq_map, List.foldl_map, Fin.foldl_eq_foldl_finRange]

theorem sumOfProducts_comm (comm : ∀ x y : α, x * y = y * x) (row column : List α) :
    sumOfProducts row column = sumOfProducts column row := by
  rw [sumOfProducts, sumOfProducts, List.zipWith_comm_of_comm comm]

theorem dot_ofMatrix {inner : ℕ} (M : Matrix (Fin rows) (Fin inner) α)
    (N : Matrix (Fin inner) (Fin columns) α) (i : Fin rows) (j : Fin columns) :
    dot (ofMatrix M) (ofMatrix N) i j inner =
      .ok (sumOfProducts (List.ofFn (M i)) (List.ofFn fun k => N k j)) := by
  rw [sumOfProducts_ofFn, dot]
  refine foldlM_range_fin (fun sum k => ?_) 0
  rw [entryAt_ofMatrix, ok_bind, entryAt_ofMatrix, ok_bind]
  rfl

theorem multiply_ofMatrix {inner : ℕ} (M : Matrix (Fin (rows + 1)) (Fin (inner + 1)) α)
    (N : Matrix (Fin (inner + 1)) (Fin columns) α) :
    multiply (ofMatrix M) (ofMatrix N) =
      .ok (ofMatrix fun i j => sumOfProducts (List.ofFn (M i)) (List.ofFn fun k => N k j)) := by
  rw [multiply, (shaped_ofMatrix M).measure_eq, (shaped_ofMatrix N).measure_eq]
  simp only [ok_bind, ↓reduceIte]
  exact mapM_range_fin fun i => mapM_range_fin fun j => dot_ofMatrix M N i j

theorem multiply_of_ne {a b : RowMatrix α} (first : a.Shaped (rows + 1) columns)
    (second : b.Shaped (others + 1) widths) (ne : columns ≠ others + 1) :
    multiply a b = .error .dimensionMismatch := by
  rw [multiply, first.measure_eq, second.measure_eq]
  simp only [ok_bind, ne, ↓reduceIte]

/-- The product of the transposes in the other order is the transpose of the product. -/
theorem multiply_transpose (comm : ∀ x y : α, x * y = y * x) {a b : RowMatrix α}
    (first : a.Filled) (second : b.Filled) :
    multiply b.transpose a.transpose = (multiply a b).map transpose := by
  obtain ⟨rows, columns, first⟩ := first
  obtain ⟨others, widths, second⟩ := second
  by_cases same : columns + 1 = others + 1
  · cases same
    obtain ⟨M, rfl⟩ := first.exists_ofMatrix
    obtain ⟨N, rfl⟩ := second.exists_ofMatrix
    rw [transpose_ofMatrix, transpose_ofMatrix, multiply_ofMatrix, multiply_ofMatrix]
    refine congrArg Except.ok (.trans ?_ (transpose_ofMatrix _).symm)
    refine congrArg ofMatrix (funext fun j => funext fun i => ?_)
    exact sumOfProducts_comm comm _ _
  · rw [multiply_of_ne first second same,
      multiply_of_ne second.transpose first.transpose (Ne.symm same)]
    rfl

/-- Matrices are refused for their shapes, or multiplied to a matrix with the rows of the first and
the columns of the second. -/
theorem mismatch_or_product {a b : RowMatrix α} (first : a.Filled) (second : b.Filled) :
    multiply a b = .error .dimensionMismatch ∨
      ∃ product, multiply a b = .ok product ∧ product.Shaped a.length b.width := by
  obtain ⟨rows, columns, first⟩ := first
  obtain ⟨others, widths, second⟩ := second
  have ends : EndsIn _ (· = .dimensionMismatch) (multiply a b) :=
    endsIn_multiply first second fun _ => rfl
  have wide : b.width = widths + 1 := congrArg Prod.snd second.shape_eq
  rw [first.height, wide]
  cases is : multiply a b with
  | ok product =>
      rw [is] at ends
      exact .inr ⟨product, rfl, ends.2⟩
  | error cause =>
      rw [is] at ends
      exact .inl (congrArg Except.error ends)

/-- An entry of a product is the sum of the products of a row and a column. -/
theorem entryAt_of_multiply {a b product : RowMatrix α} (first : a.Filled) (second : b.Filled)
    (is : multiply a b = .ok product) {i j : ℕ} {row : List α} (isRow : a[i]? = some row)
    (inside : j < b.width) :
    product.entryAt i j = .ok (sumOfProducts row (b.column j)) := by
  obtain ⟨rows, columns, first⟩ := first
  obtain ⟨others, widths, second⟩ := second
  by_cases same : columns + 1 = others + 1
  · cases same
    have wide : b.width = widths + 1 := congrArg Prod.snd second.shape_eq
    obtain ⟨M, rfl⟩ := first.exists_ofMatrix
    obtain ⟨N, rfl⟩ := second.exists_ofMatrix
    rw [multiply_ofMatrix] at is
    cases is
    obtain ⟨place, rfl⟩ := List.getElem?_eq_some_iff.mp isRow
    rw [wide] at inside
    have upper : i < rows + 1 := by rwa [(shaped_ofMatrix M).height] at place
    lift i to Fin (rows + 1) using upper
    lift j to Fin (widths + 1) using inside
    refine (entryAt_ofMatrix _ i j).trans ?_
    rw [column_ofMatrix]
    simp only [ofMatrix, List.getElem_ofFn]
  · rw [multiply_of_ne first second same] at is
    cases is

end Arithmetic

/-- **Transposition reverses products** of doubles, whatever the rounding does: the products are
refused together or are transposes of each other, entry by entry the sum, from left to right, of the
products along the shared dimension. Transposing twice changes nothing, and sums and differences are
transposed part by part. -/
theorem transpose_products {a b : RowMatrix Float} (first : a.Filled) (second : b.Filled) :
    (multiply a b = .error .dimensionMismatch ↔
        multiply b.transpose a.transpose = .error .dimensionMismatch) ∧
      (multiply a b ≠ .error .dimensionMismatch → ∃ product, multiply a b = .ok product ∧
        product.Shaped a.length b.width ∧
        multiply b.transpose a.transpose = .ok product.transpose ∧
        ∀ i j row, a[i]? = some row → j < b.width →
          product.entryAt i j = .ok ((row.zipWith (· * ·) (b.column j)).foldl (· + ·) 0)) ∧
      a.transpose.transpose = a ∧
      add a.transpose b.transpose = (add a b).map transpose ∧
      subtract a.transpose b.transpose = (subtract a b).map transpose := by
  have reversed := multiply_transpose Decimal.double_mul_comm first second
  refine ⟨?_, ?_, transpose_transpose first, combine_transpose _ first second,
    combine_transpose _ first second⟩
  · rw [reversed]
    cases multiply a b with
    | ok product => simp only [Except.map, reduceCtorEq]
    | error cause => simp only [Except.map, Except.error.injEq]
  · intro conformable
    obtain ⟨product, is, shaped⟩ := (mismatch_or_product first second).resolve_left conformable
    have transposed : multiply b.transpose a.transpose = .ok product.transpose := by
      rw [reversed, is]
      rfl
    exact ⟨product, is, shaped, transposed, fun i j row isRow inside =>
      entryAt_of_multiply first second is isRow inside⟩

/-- The second row of the first matrix holds a non-number, which is the entry of the product. -/
theorem transpose_products_non_number : ∃ product,
    multiply [[(1 : Float), 2], [0 / 0, 3]] [[4], [5]] = .ok product ∧
      multiply [[4, 5]] [[(1 : Float), 0 / 0], [2, 3]] = .ok product.transpose ∧
      product.entryAt 0 0 = .ok 14 ∧ product.entryAt 1 0 = .ok (0 / 0) := by
  have first : Filled [[(1 : Float), 2], [0 / 0, 3]] := ⟨1, 1, rfl, by simp⟩
  have second : Filled [[(4 : Float)], [5]] := ⟨1, 0, rfl, by simp⟩
  have ⟨_, valued, _⟩ := transpose_products first second
  have conformable : multiply [[(1 : Float), 2], [0 / 0, 3]] [[4], [5]] ≠
      .error .dimensionMismatch := by
    intro refused
    cases refused
  obtain ⟨product, is, _, transposed, entries⟩ := valued conformable
  have inside : 0 < width [[(4 : Float)], [5]] := by decide
  have above : List.foldl (· + ·) 0 (List.zipWith (· * ·) [1, 2] [(4 : Float), 5]) = 14 := by
    decide +kernel
  have below : List.foldl (· + ·) 0 (List.zipWith (· * ·) [0 / 0, 3] [(4 : Float), 5]) = 0 / 0 := by
    decide +kernel
  exact ⟨product, is, transposed, (entries 0 0 _ rfl inside).trans (congrArg Except.ok above),
    (entries 1 0 _ rfl inside).trans (congrArg Except.ok below)⟩

end RowMatrix

end Reckoner
