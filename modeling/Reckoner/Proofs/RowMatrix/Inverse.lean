import Reckoner.Proofs.RowMatrix.Entries

/-!
# Inverses by elimination

Over exact fractions, a matrix that elimination returns is the inverse on both sides, and a singular
matrix is refused (`Reckoner.RowMatrix.inverse_of_fractions`). Throughout, every row of the augmented
matrix is a combination of the rows of the given matrix, with its coefficients beside it. A step
makes one more column that of the identity, so at the end the coefficients are a left inverse.
-/

namespace Reckoner.RowMatrix

open Outcome Matrix

variable {n : ℕ}

/-! ## Combinations of rows -/

section Combinations

variable (M : Matrix (Fin n) (Fin n) ℚ)

/-- A combination of the rows of a matrix, with the coefficients beside it. -/
def combination (v : Fin n → ℚ) : List ℚ :=
  List.ofFn (v ᵥ* M) ++ List.ofFn v

/-- The combinations of the rows of a matrix with the coefficients in each row of another. -/
def combinations (B : Matrix (Fin n) (Fin n) ℚ) : RowMatrix ℚ :=
  List.ofFn fun i => combination M (B i)

theorem length_combination (v : Fin n → ℚ) : (combination M v).length = n + n := by
  rw [combination, List.length_append, List.length_ofFn, List.length_ofFn]

theorem item_combination (v : Fin n → ℚ) (j : Fin n) :
    item (combination M v) j = .ok ((v ᵥ* M) j) := by
  have inside : j.val < (List.ofFn (v ᵥ* M)).length := by
    rw [List.length_ofFn]
    exact j.isLt
  rw [item, combination, List.getElem?_append_left inside]
  exact item_ofFn (v ᵥ* M) j

theorem shaped_combinations (B : Matrix (Fin n) (Fin n) ℚ) :
    (combinations M B).Shaped n (n + n) := by
  refine ⟨List.length_ofFn, fun row member => ?_⟩
  obtain ⟨i, rfl⟩ := List.mem_ofFn.mp member
  exact length_combination M (B i)

theorem entryAt_combinations (B : Matrix (Fin n) (Fin n) ℚ) (i j : Fin n) :
    (combinations M B).entryAt i j = .ok ((B * M) i j) := by
  rw [entryAt, combinations, item_ofFn, ok_bind, item_combination, mul_apply_eq_vecMul]

/-- The identity beside a matrix holds the coefficients of its own rows. -/
theorem augment_ofMatrix : augment n (ofMatrix M) = combinations M 1 := by
  refine List.ext_getElem ?_ fun i inside _ => ?_
  · rw [augment, List.length_map, List.length_zipIdx, ofMatrix, combinations, List.length_ofFn,
      List.length_ofFn]
  · have unit (row : Fin n) : unitRow n row = List.ofFn ((1 : Matrix (Fin n) (Fin n) ℚ) row) := by
      refine List.ext_getElem ?_ fun j _ _ => ?_
      · rw [unitRow, List.length_map, List.length_range, List.length_ofFn]
      · simp only [unitRow, List.getElem_map, List.getElem_range, List.getElem_ofFn, one_apply,
          Fin.ext_iff]
    rw [augment, List.length_map, List.length_zipIdx, ofMatrix, List.length_ofFn] at inside
    simp only [augment, List.getElem_map, List.getElem_zipIdx, ofMatrix, combinations, combination,
      List.getElem_ofFn, Nat.zero_add]
    rw [unit ⟨i, inside⟩, ← mul_apply_eq_vecMul, Matrix.one_mul]

end Combinations

/-! ## The parts of a step -/

theorem set_ofFn {α : Type} (f : Fin n → α) (i : Fin n) (a : α) :
    (List.ofFn f).set i a = List.ofFn (Function.update f i a) := by
  refine List.ext_getElem (by rw [List.length_set, List.length_ofFn, List.length_ofFn])
    fun j inside _ => ?_
  simp only [List.getElem_set, List.getElem_ofFn, Function.update_apply, Fin.ext_iff, eq_comm]

theorem exchange_ofFn {α : Type} (f : Fin n → List α) (i j : Fin n) :
    exchange (List.ofFn f) i j = .ok (List.ofFn fun r => f (Equiv.swap i j r)) := by
  have swapped : f ∘ Equiv.swap i j = Function.update (Function.update f i (f j)) j (f i) := by
    rw [Equiv.swap_comm]
    exact Equiv.comp_swap_eq_update j i f
  rw [exchange, item_ofFn, ok_bind, item_ofFn, ok_bind, set_ofFn, set_ofFn, ← swapped]
  rfl

theorem isZero_iff {q : ℚ} : Magnitude.isZero q = true ↔ q = 0 :=
  beq_iff_eq

section Step

variable (M B : Matrix (Fin n) (Fin n) ℚ)

theorem normalize_combination {v : Fin n → ℚ} {k : Fin n} (some : (v ᵥ* M) k ≠ 0) :
    normalize k (combination M v) = .ok (combination M (((v ᵥ* M) k)⁻¹ • v)) := by
  have divided : (combination M v).map (· / (v ᵥ* M) k) =
      combination M (((v ᵥ* M) k)⁻¹ • v) := by
    rw [combination, List.map_append, List.map_ofFn, List.map_ofFn, combination, smul_vecMul]
    congr 2 <;> funext j <;> exact div_eq_inv_mul _ _
  rw [normalize, item_combination, ok_bind, divided]
  exact if_neg (mt isZero_iff.mp some)

theorem clear_combination (v w : Fin n → ℚ) (k : Fin n) :
    clear (combination M w) k (combination M v) =
      .ok (combination M (v - (v ᵥ* M) k • w)) := by
  rw [clear, item_combination, ok_bind]
  by_cases zero : (v ᵥ* M) k = 0
  · rw [zero, zero_smul, sub_zero]
    rfl
  · have others (f : ℚ) (a b : Fin n → ℚ) :
        (List.ofFn a).zipWith (fun x y => x - f * y) (List.ofFn b) = List.ofFn (a - f • b) :=
      zipWith_ofFn _ a b
    rw [if_neg (mt isZero_iff.mp zero), combination, combination, List.zipWith_append (by simp),
      others, others, combination, sub_vecMul, smul_vecMul]
    rfl

/-- The coefficients after a step that makes a column with a pivot in a row that of the identity. -/
def pivoted (k best : Fin n) : Matrix (Fin n) (Fin n) ℚ := fun r =>
  if r = k then ((B * M) best k)⁻¹ • B best
  else B (Equiv.swap k best r) -
    (B * M) (Equiv.swap k best r) k • ((B * M) best k)⁻¹ • B best

theorem mapM_zipIdx_ofFn {α β : Type} {f : α × ℕ → Except Cause β} {g : Fin n → α} {h : Fin n → β}
    (each : ∀ i, f (g i, i) = .ok (h i)) : (List.ofFn g).zipIdx.mapM f = .ok (List.ofFn h) := by
  have places : (List.ofFn g).zipIdx = List.ofFn fun i => (g i, i.val) := by
    refine List.ext_getElem (by simp) fun j _ _ => ?_
    simp
  rw [places]
  exact mapM_ofFn each

/-- **One step of the elimination.** -/
theorem endsIn_eliminate (k : Fin n) :
    EndsIn (fun m => ∃ best : Fin n, k ≤ best ∧ (B * M) best k ≠ 0 ∧
      m = combinations M (pivoted M B k best)) (· = .singularMatrix)
      (eliminate (combinations M B) k) := by
  apply ((shaped_combinations M B).endsIn_pivotRow k.isLt (by omega)).bind
  rintro best ⟨below, inside⟩
  obtain ⟨best, rfl⟩ : ∃ b : Fin n, b.val = best := ⟨⟨best, inside⟩, rfl⟩
  rw [sizeAt, entryAt_combinations]
  change EndsIn _ _ (if Magnitude.below (Rat.abs ((B * M) best k)) _ = true then _ else _)
  split
  · rfl
  · rename_i large
    have some : (B * M) best k ≠ 0 := by
      intro zero
      rw [zero] at large
      exact large rfl
    rw [combinations, exchange_ofFn, ok_bind, item_ofFn, ok_bind, Equiv.swap_apply_left,
      normalize_combination M some, ok_bind, mapM_zipIdx_ofFn]
    · exact ⟨best, below, some, rfl⟩
    · intro r
      rw [pivoted]
      by_cases same : r = k
      · rw [if_pos same, if_pos (congrArg Fin.val same)]
        rfl
      · rw [if_neg same, if_neg (Fin.val_ne_of_ne same), clear_combination]
        rfl

end Step

/-! ## The columns of the identity -/

/-- The first columns are those of the identity. -/
def IsReduced (A : Matrix (Fin n) (Fin n) ℚ) (count : ℕ) : Prop :=
  ∀ i j : Fin n, j < count → A i j = (1 : Matrix (Fin n) (Fin n) ℚ) i j

section Reduction

variable {M B : Matrix (Fin n) (Fin n) ℚ}

theorem pivoted_mul (k best r j : Fin n) : (pivoted M B k best * M) r j =
    if r = k then (B * M) best j / (B * M) best k
    else (B * M) (Equiv.swap k best r) j -
      (B * M) (Equiv.swap k best r) k * ((B * M) best j / (B * M) best k) := by
  rw [mul_apply_eq_vecMul, pivoted]
  split
  · rw [smul_vecMul, ← mul_apply_eq_vecMul, Pi.smul_apply, smul_eq_mul, ← div_eq_inv_mul]
  · rw [sub_vecMul, smul_vecMul, smul_vecMul, ← mul_apply_eq_vecMul, ← mul_apply_eq_vecMul,
      Pi.sub_apply, Pi.smul_apply, Pi.smul_apply, smul_eq_mul, smul_eq_mul, ← div_eq_inv_mul]

/-- A step keeps the columns that are reduced already, and reduces one more. -/
theorem IsReduced.pivoted {k best : Fin n} (reduced : IsReduced (B * M) k) (below : k ≤ best)
    (some : (B * M) best k ≠ 0) : IsReduced (pivoted M B k best * M) (k + 1) := by
  intro i j inside
  rw [pivoted_mul]
  rcases Nat.lt_or_eq_of_le (Nat.le_of_lt_succ inside) with earlier | same
  · -- The rows that are exchanged have zeros in the earlier columns.
    have differs (r : Fin n) (ge : k ≤ r) : (B * M) r j = 0 := by
      have other : r ≠ j := by
        rintro rfl
        exact absurd earlier (Nat.not_lt_of_le ge)
      rw [reduced r j earlier, one_apply_ne other]
    rw [differs best below, zero_div, mul_zero, sub_zero]
    split
    · rename_i first
      subst first
      have other : i ≠ j := by
        rintro rfl
        exact Nat.lt_irrefl _ earlier
      rw [one_apply_ne other]
    · rename_i first
      by_cases second : i = best
      · subst second
        have other : i ≠ j := by
          rintro rfl
          exact absurd earlier (Nat.not_lt_of_le below)
        rw [Equiv.swap_apply_right, differs k (le_refl k), one_apply_ne other]
      · rw [Equiv.swap_apply_of_ne_of_ne first second, reduced i j earlier]
  · obtain rfl : j = k := Fin.ext same
    rw [div_self some, mul_one, sub_self]
    split
    · rename_i first
      rw [first, one_apply_eq]
    · rename_i first
      rw [one_apply_ne first]

/-- The rows after so many columns have been eliminated. -/
def Eliminated (M : Matrix (Fin n) (Fin n) ℚ) (count : ℕ) (m : RowMatrix ℚ) : Prop :=
  ∃ B : Matrix (Fin n) (Fin n) ℚ, m = combinations M B ∧ IsReduced (B * M) count

theorem endsIn_eliminations (M : Matrix (Fin n) (Fin n) ℚ) :
    EndsIn (Eliminated M n) (· = .singularMatrix)
      ((List.range n).foldlM eliminate (augment n (ofMatrix M))) := by
  apply endsIn_foldlM_range
  · exact ⟨1, augment_ofMatrix M, nofun⟩
  · rintro k inside _ ⟨B, rfl, reduced⟩
    refine (endsIn_eliminate M B ⟨k, inside⟩).mono ?_ fun _ => id
    rintro _ ⟨best, below, some, rfl⟩
    exact ⟨_, rfl, reduced.pivoted (k := ⟨k, inside⟩) below some⟩

end Reduction

theorem drop_combinations (M B : Matrix (Fin n) (Fin n) ℚ) :
    (combinations M B).map (fun row => row.drop n) = ofMatrix B := by
  rw [combinations, List.map_ofFn, ofMatrix]
  refine congrArg List.ofFn (funext fun i => ?_)
  exact List.drop_left' List.length_ofFn

/-- A square matrix has the inverse that is returned, or it is refused as singular. -/
theorem endsIn_inverse (M : Matrix (Fin (n + 1)) (Fin (n + 1)) ℚ) :
    EndsIn (fun m => ∃ R : Matrix (Fin (n + 1)) (Fin (n + 1)) ℚ, m = ofMatrix R ∧ R * M = 1)
      (· = .singularMatrix) (ofMatrix M).inverse := by
  rw [inverse, squareOrder_ofMatrix, if_pos rfl, ok_bind]
  apply (endsIn_eliminations M).bind
  rintro _ ⟨B, rfl, reduced⟩
  exact ⟨B, drop_combinations M B, Matrix.ext fun i j => reduced i j j.isLt⟩

/-- **Inverses over exact fractions.** What is returned for a square matrix is its inverse on both
sides, and a matrix without an inverse is refused as singular, as is any other for which nothing is
returned. A matrix with rows that is not square is refused for its shape. -/
theorem inverse_of_fractions :
    (∀ {n : ℕ} (M : Matrix (Fin (n + 1)) (Fin (n + 1)) ℚ),
      (∀ m, (ofMatrix M).inverse = .ok m →
        ∃ R : Matrix (Fin (n + 1)) (Fin (n + 1)) ℚ, m = ofMatrix R ∧ M * R = 1 ∧ R * M = 1) ∧
      (M.det = 0 → (ofMatrix M).inverse = .error .singularMatrix) ∧
      ∀ cause, (ofMatrix M).inverse = .error cause → cause = .singularMatrix) ∧
    ∀ {rows columns : ℕ} (M : Matrix (Fin (rows + 1)) (Fin columns) ℚ), rows + 1 ≠ columns →
      (ofMatrix M).inverse = .error .dimensionMismatch := by
  refine ⟨fun M => ?_, fun M other => ?_⟩
  · have ends := endsIn_inverse M
    cases is : (ofMatrix M).inverse with
    | error cause =>
        rw [is] at ends
        refine ⟨nofun, fun _ => congrArg Except.error ends, ?_⟩
        rintro _ ⟨⟩
        exact ends
    | ok m =>
        rw [is] at ends
        obtain ⟨R, rfl, left⟩ := ends
        refine ⟨?_, fun singular => ?_, nofun⟩
        · rintro _ ⟨⟩
          exact ⟨R, rfl, mul_eq_one_comm.mp left, left⟩
        · have dets := congrArg Matrix.det left
          rw [det_mul, singular, mul_zero, det_one] at dets
          exact absurd dets zero_ne_one
  · rw [inverse, squareOrder_ofMatrix, if_neg other]
    rfl

/-- The first pivot of the first matrix stands in its second row; the second matrix has a row twice;
the third is not square. -/
theorem inverse_of_fractions_exchanged :
    ((ofMatrix (α := ℚ) !![0, 2; 1, 1]).inverse = .ok [[-1 / 2, 1], [1 / 2, 0]] ∧
      ∃ R : Matrix (Fin 2) (Fin 2) ℚ, [[-1 / 2, 1], [1 / 2, 0]] = ofMatrix R ∧
        !![0, 2; 1, 1] * R = 1 ∧ R * !![0, 2; 1, 1] = 1) ∧
    (Matrix.det (R := ℚ) !![1, 2; 1, 2] = 0 ∧
      (ofMatrix (α := ℚ) !![1, 2; 1, 2]).inverse = .error .singularMatrix) ∧
    1 ≠ 2 ∧ (ofMatrix (α := ℚ) !![1, 2]).inverse = .error .dimensionMismatch := by
  have returned : (ofMatrix (α := ℚ) !![0, 2; 1, 1]).inverse = .ok [[-1 / 2, 1], [1 / 2, 0]] :=
    eq_ok_of_toOption (by decide +kernel)
  have singular : Matrix.det (R := ℚ) !![1, 2; 1, 2] = 0 := by
    rw [det_fin_two_of]; norm_num
  have differ : (1 : ℕ) ≠ 2 := by decide
  exact ⟨⟨returned, (inverse_of_fractions.1 _).1 _ returned⟩,
    ⟨singular, (inverse_of_fractions.1 _).2.1 singular⟩, differ, inverse_of_fractions.2 _ differ⟩

end Reckoner.RowMatrix
