import Reckoner.Proofs.RowMatrix.Entries

/-!
# The determinant by expansion

Over a commutative ring the expansion along the first row has the value of the Leibniz formula
(`Reckoner.RowMatrix.determinant_leibniz`). What is left of a matrix without its first row and one
column is a matrix of the next order below, so the proof goes by the order.
-/

namespace Reckoner.RowMatrix

open Outcome

variable {n : ℕ}

theorem foldl_add {α : Type} [AddCommMonoid α] (f : Fin n → α) :
    Fin.foldl n (fun sum i => sum + f i) 0 = ∑ i, f i := by
  induction n with
  | zero => rfl
  | succ n ih => rw [Fin.foldl_succ_last, ih, Fin.sum_univ_castSucc]

/-- A loop that adds a known summand for each place ends with the sum. -/
theorem foldlM_range {α : Type} [AddCommMonoid α] {step : α → ℕ → Except Cause α} {f : Fin n → α}
    (each : ∀ (sum : α) (i : Fin n), step sum i = .ok (sum + f i)) :
    (List.range n).foldlM step 0 = .ok (∑ i, f i) := by
  rw [foldlM_range_fin each, foldl_add]

/-- The places but one are listed as the function that skips it lists them. -/
theorem filter_range (j : Fin (n + 1)) :
    (List.range (n + 1)).filter (· != j.val) = List.ofFn fun k => (j.succAbove k).val := by
  have kept : ((List.range (n + 1)).filter (· != j.val)).SortedLT :=
    (List.pairwise_lt_range.filter _).sortedLT
  have listed : (List.ofFn fun k => (j.succAbove k).val).SortedLT :=
    (Fin.val_strictMono.comp j.strictMono_succAbove).sortedLT_ofFn
  refine kept.eq_of_mem_iff listed fun k => ?_
  rw [List.mem_filter, List.mem_range, bne_iff_ne, List.mem_ofFn]
  constructor
  · rintro ⟨inside, other⟩
    obtain ⟨place, is⟩ := Fin.exists_succAbove_eq (x := ⟨k, inside⟩) (y := j)
      (Fin.ne_of_val_ne other)
    exact ⟨place, congrArg Fin.val is⟩
  · rintro ⟨place, rfl⟩
    exact ⟨Fin.is_lt _, Fin.val_ne_of_ne (j.succAbove_ne place)⟩

theorem minor_ofMatrix {α : Type} (M : Matrix (Fin (n + 1)) (Fin (n + 1)) α) (j : Fin (n + 1)) :
    (ofMatrix M).minor (n + 1) j = .ok (ofMatrix (M.submatrix Fin.succ j.succAbove)) := by
  rw [minor, filter_range, ofMatrix, List.ofFn_succ, List.tail_cons]
  refine mapM_ofFn fun i => ?_
  exact mapM_ofFn fun k => item_ofFn (M i.succ) (j.succAbove k)

section Ring

variable {R : Type} [CommRing R]

theorem cofactorSign_eq (j : ℕ) : cofactorSign j = (-1 : R) ^ j := by
  rw [cofactorSign]
  split
  · rename_i even
    exact (Even.neg_one_pow (Nat.even_iff.mpr even)).symm
  · rename_i odd
    exact (Odd.neg_one_pow (Nat.odd_iff.mpr (by omega))).symm

/-- **The expansion has the value of the determinant**, whatever the order. -/
theorem expand_ofMatrix (M : Matrix (Fin (n + 1)) (Fin (n + 1)) R) :
    expand (n + 1) (ofMatrix M) = .ok M.det := by
  induction n with
  | zero => rw [expand, Matrix.det_fin_one]; exact entryAt_ofMatrix M 0 0
  | succ n ih =>
      have first (j : Fin (n + 2)) : (ofMatrix M).entryAt 0 j = .ok (M 0 j) := entryAt_ofMatrix M 0 j
      have second (j : Fin (n + 2)) : (ofMatrix M).entryAt 1 j = .ok (M 1 j) :=
        entryAt_ofMatrix M 1 j
      cases n with
      | zero =>
          have a : (ofMatrix M).entryAt 0 0 = .ok (M 0 0) := first 0
          have b : (ofMatrix M).entryAt 0 1 = .ok (M 0 1) := first 1
          have c : (ofMatrix M).entryAt 1 0 = .ok (M 1 0) := second 0
          have d : (ofMatrix M).entryAt 1 1 = .ok (M 1 1) := second 1
          rw [expand, a, b, c, d, Matrix.det_fin_two]
          rfl
      | succ n =>
          rw [expand, Matrix.det_succ_row_zero]
          · refine foldlM_range fun sum j => ?_
            rw [minor_ofMatrix, ok_bind, first, ok_bind, ih, ok_bind, cofactorSign_eq]
            rfl
          · exact Nat.succ_ne_zero (n + 1)
          · exact fun is => Nat.succ_ne_zero n (Nat.succ.inj is)

end Ring

/-- **The determinant over exact fractions.** A square matrix has the determinant of the Leibniz
formula, the sum over all permutations of the signed products of entries; a matrix with rows that is
not square is refused. -/
theorem determinant_leibniz {rows columns : ℕ} (M : Matrix (Fin (rows + 1)) (Fin columns) ℚ) :
    (ofMatrix M).determinant =
      if square : rows + 1 = columns then
        .ok (∑ σ : Equiv.Perm (Fin (rows + 1)), (Equiv.Perm.sign σ : ℚ) *
          ∏ i, M (σ i) (i.cast square))
      else .error .dimensionMismatch := by
  rw [determinant, squareOrder_ofMatrix]
  split
  · rename_i square
    subst square
    rw [ok_bind, expand_ofMatrix, Matrix.det_apply']
    rfl
  · rfl

end Reckoner.RowMatrix
