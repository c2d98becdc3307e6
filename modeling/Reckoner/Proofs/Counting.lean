import Reckoner.Numeric.Counting
import Reckoner.Proofs.Decimal.Integer

/-!
# Factorials, arrangements and selections

A count of things is rounded once, to the nearest double, and fails only if it is past the doubles
(`Reckoner.Numeric.counts_rounded`). The arguments that are refused before anything is computed are
no exception: there are at least `r !` arrangements of `r` things
(`Reckoner.Numeric.factorial_le_descFactorial`) and at least `2 ^ k` selections of `k` out of `2 * k`
things or more (`Reckoner.Numeric.two_pow_le_choose`).
-/

namespace Reckoner.Numeric

open Decimal Nat

/-! ## The counts -/

theorem factorial_eq (n : ℕ) : factorial n = n ! := by
  induction n with
  | zero => rfl
  | succ n ih => rw [factorial, ih, Nat.factorial_succ]

theorem fallingProduct_eq (n count : ℕ) : fallingProduct n count = n.descFactorial count := by
  induction count with
  | zero => rfl
  | succ count ih => rw [fallingProduct, ih, Nat.descFactorial_succ, Nat.mul_comm]

theorem arrangements_eq (n r : ℕ) : arrangements n r = n.descFactorial r := by
  unfold arrangements
  by_cases few : n < r
  · rw [if_pos few, Nat.descFactorial_of_lt few]
  · rw [if_neg few, fallingProduct_eq]

/-- Selecting some of the things is leaving out the others. -/
theorem choose_min {n r : ℕ} (le : r ≤ n) : n.choose (min r (n - r)) = n.choose r := by
  rcases Nat.le_total r (n - r) with less | more
  · rw [min_eq_left less]
  · rw [min_eq_right more, Nat.choose_symm le]

theorem selections_eq (n r : ℕ) : selections n r = n.choose r := by
  unfold selections
  by_cases few : n < r
  · rw [if_pos few, Nat.choose_eq_zero_of_lt few]
  · rw [if_neg few]
    dsimp only
    rw [fallingProduct_eq, factorial_eq, ← Nat.choose_eq_descFactorial_div_factorial,
      choose_min (Nat.le_of_not_lt few)]

/-! ## Growth -/

theorem factorial_le_descFactorial {n r : ℕ} (le : r ≤ n) : r ! ≤ n.descFactorial r := by
  rw [Nat.descFactorial_eq_factorial_mul_choose]
  exact Nat.le_mul_of_pos_right _ (Nat.choose_pos le)

/-- Each thing that is selected doubles the number of selections at least. -/
theorem two_pow_le_choose {n k : ℕ} (le : 2 * k ≤ n) : 2 ^ k ≤ n.choose k := by
  induction k generalizing n with
  | zero => rw [Nat.choose_zero_right, pow_zero]
  | succ k ih =>
      obtain ⟨n, rfl⟩ : ∃ m, n = m + 1 := ⟨n - 1, by omega⟩
      have fewer : 2 ^ k ≤ n.choose k := ih (by omega)
      refine Nat.le_of_mul_le_mul_right (c := k + 1) ?_ (Nat.succ_pos k)
      calc 2 ^ (k + 1) * (k + 1) = (2 * (k + 1)) * 2 ^ k := by ring
        _ ≤ (n + 1) * n.choose k := Nat.mul_le_mul le fewer
        _ = (n + 1).choose (k + 1) * (k + 1) := Nat.add_one_mul_choose_eq n k

theorem overflowBound_le_factorial {n : ℕ} (large : largestFactorial < n) :
    overflowBound ≤ n ! := by
  have first : overflowBound ≤ 171 ! := by decide +kernel
  exact le_trans first (Nat.factorial_le large)

theorem overflowBound_le_descFactorial {n r : ℕ} (le : r ≤ n) (large : largestFactorial < r) :
    overflowBound ≤ n.descFactorial r :=
  le_trans (overflowBound_le_factorial large) (factorial_le_descFactorial le)

theorem overflowBound_le_choose {n r : ℕ} (le : r ≤ n) (large : largestSelection < min r (n - r)) :
    overflowBound ≤ n.choose r := by
  rw [← choose_min le]
  generalize is : min r (n - r) = k at large
  have half : 2 * k ≤ n := by omega
  have large : 1024 ≤ k := large
  calc overflowBound ≤ 2 ^ 1024 := overflowBound_le_pow
    _ ≤ 2 ^ k := pow_le_pow_right₀ one_le_two large
    _ ≤ n.choose k := two_pow_le_choose half

/-! ## Arguments -/

/-- The double is a natural number. -/
def IsNatural (x : Float) (n : ℕ) : Prop :=
  x.isFinite = true ∧ exact x = n

theorem countingArgument_of_isNatural {x : Float} {n : ℕ} (natural : IsNatural x n)
    (name : String) : countingArgument name x = .ok n := by
  obtain ⟨finite, is⟩ := natural
  have whole : isWhole x = true := (isWhole_iff finite).mpr ⟨n, is.trans (Int.cast_natCast n).symm⟩
  have unsigned : (0 : Float) ≤ x := by
    rw [le_iff rfl finite, show exact 0 = 0 from exact_zero .positive, is]
    exact Nat.cast_nonneg n
  have value : toInteger x = n := by
    have same := (exact_eq_toInteger whole).symm.trans is
    exact_mod_cast same
  rw [countingArgument, whole, decide_eq_true unsigned, Bool.and_self, if_pos rfl, value,
    Int.toNat_natCast]

theorem countingArgument_of_not_isNatural {x : Float} (other : ∀ n, ¬IsNatural x n)
    (name : String) : countingArgument name x = refuse (.notCounting name x) := by
  unfold countingArgument
  refine if_neg fun accepted => ?_
  obtain ⟨whole, unsigned⟩ := Bool.and_eq_true_iff.mp accepted
  have finite : x.isFinite = true := (Bool.and_eq_true_iff.mp whole).1
  have is := exact_eq_toInteger whole
  have unsigned : (0 : ℚ) ≤ exact x := by
    have le := (le_iff rfl finite).mp (of_decide_eq_true unsigned)
    rwa [show exact 0 = 0 from exact_zero .positive] at le
  rw [is] at unsigned
  have unsigned : 0 ≤ toInteger x := by exact_mod_cast unsigned
  refine other (toInteger x).toNat ⟨finite, is.trans ?_⟩
  exact_mod_cast (Int.toNat_of_nonneg unsigned).symm

/-! ## Outcomes -/

/-- A count below the bound ends in the nearest double, another one in an overflow. -/
structure EndsRounded (count : ℕ) (outcome : Except Failure Float) : Prop where
  rounded : count < overflowBound → ∃ y, outcome = .ok y ∧ RoundsTo count y
  overflow : overflowBound ≤ count →
    (∃ cause, outcome = refuse cause ∧ cause.kind = .calculationError ∧ cause.code = "3026") ∨
      outcome = .error .overflow

/-- An argument is refused because it is no natural number. -/
def EndsRefused (outcome : Except Failure Float) : Prop :=
  ∃ cause, outcome = refuse cause ∧ cause.kind = .invalidArgument ∧ cause.code = "2005"

theorem endsRounded_ofCount (count : ℕ) : EndsRounded count (ofCount count) := by
  refine ⟨fun below => ?_, fun past => .inr ?_⟩
  · obtain ⟨y, is, rounds⟩ := exists_ofInteger? below
    rw [ofCount, is]
    exact ⟨y, rfl, rounds⟩
  · rw [ofCount, ofInteger?_eq_none past]

/-- An early refusal is right if the count is past the doubles. -/
theorem endsRounded_early {early : Prop} [Decidable early] {count : ℕ}
    (past : early → overflowBound ≤ count) :
    EndsRounded count (if early then refuse .numberTooLarge else ofCount count) := by
  by_cases large : early
  · rw [if_pos large]
    exact ⟨fun below => absurd below (Nat.not_lt_of_le (past large)),
      fun _ => .inl ⟨_, rfl, rfl, rfl⟩⟩
  · rw [if_neg large]
    exact endsRounded_ofCount count

theorem endsRounded_factorialOf {x : Float} {n : ℕ} (natural : IsNatural x n) :
    EndsRounded n ! (factorialOf x) := by
  rw [factorialOf, countingArgument_of_isNatural natural, Outcome.ok_bind, factorial_eq]
  exact endsRounded_early overflowBound_le_factorial

section Two

variable {x y : Float} {n r : ℕ} (first : IsNatural x n) (second : IsNatural y r)

include first second

theorem endsRounded_permutationOf : EndsRounded (n.descFactorial r) (permutationOf x y) := by
  rw [permutationOf, countingArgument_of_isNatural first, Outcome.ok_bind,
    countingArgument_of_isNatural second, Outcome.ok_bind, arrangements_eq]
  refine endsRounded_early fun early => ?_
  obtain ⟨le, large⟩ := Bool.and_eq_true_iff.mp early
  exact overflowBound_le_descFactorial (of_decide_eq_true le) (of_decide_eq_true large)

theorem endsRounded_combinationOf : EndsRounded (n.choose r) (combinationOf x y) := by
  rw [combinationOf, countingArgument_of_isNatural first, Outcome.ok_bind,
    countingArgument_of_isNatural second, Outcome.ok_bind, selections_eq]
  refine endsRounded_early fun early => ?_
  obtain ⟨le, large⟩ := Bool.and_eq_true_iff.mp early
  exact overflowBound_le_choose (of_decide_eq_true le) (of_decide_eq_true large)

end Two

theorem endsRefused_first {f : ℕ → Except Failure Float} {x : Float}
    (other : ∀ n, ¬IsNatural x n) (name : String) :
    EndsRefused (countingArgument name x >>= f) := by
  rw [countingArgument_of_not_isNatural other]
  exact ⟨_, rfl, rfl, rfl⟩

theorem endsRefused_either {f : ℕ → ℕ → Except Failure Float} {x y : Float}
    (other : (∀ n, ¬IsNatural x n) ∨ ∀ r, ¬IsNatural y r) (name : String) :
    EndsRefused (countingArgument name x >>= fun n => countingArgument name y >>= f n) := by
  by_cases natural : ∃ n, IsNatural x n
  · obtain ⟨n, first⟩ := natural
    rw [countingArgument_of_isNatural first, Outcome.ok_bind]
    exact endsRefused_first (other.resolve_left fun none => none n first) name
  · exact endsRefused_first (not_exists.mp natural) name

/-- **Counts are refused only if they are past the doubles.** For arguments that are natural numbers
of any size, factorials, arrangements and selections end in the double nearest to the exact count,
if the count is rounded to a finite one, and in an overflow otherwise. All other arguments are
refused. -/
theorem counts_rounded :
    (∀ {x : Float} {n : ℕ}, IsNatural x n → EndsRounded n ! (factorialOf x)) ∧
      (∀ {x y : Float} {n r : ℕ}, IsNatural x n → IsNatural y r →
        EndsRounded (if r ≤ n then n ! / (n - r)! else 0) (permutationOf x y) ∧
          EndsRounded (if r ≤ n then n ! / (r ! * (n - r)!) else 0) (combinationOf x y)) ∧
      (∀ {x : Float}, (∀ n, ¬IsNatural x n) → EndsRefused (factorialOf x)) ∧
      ∀ {x y : Float}, ((∀ n, ¬IsNatural x n) ∨ ∀ r, ¬IsNatural y r) →
        EndsRefused (permutationOf x y) ∧ EndsRefused (combinationOf x y) := by
  refine ⟨endsRounded_factorialOf, fun {x y n r} first second => ?_,
    fun other => endsRefused_first other _,
    fun other => ⟨endsRefused_either other _, endsRefused_either other _⟩⟩
  have permutation := endsRounded_permutationOf first second
  have combination := endsRounded_combinationOf first second
  by_cases le : r ≤ n
  · rw [if_pos le, if_pos le, ← Nat.descFactorial_eq_div le,
      ← Nat.choose_eq_factorial_div_factorial le]
    exact ⟨permutation, combination⟩
  · have few : n < r := Nat.lt_of_not_le le
    rw [Nat.descFactorial_of_lt few] at permutation
    rw [Nat.choose_eq_zero_of_lt few] at combination
    rw [if_neg le, if_neg le]
    exact ⟨permutation, combination⟩

/-- The largest factorial and the largest selection of a half, and an argument between two natural
numbers. -/
theorem counts_rounded_largest :
    (∃ y, factorialOf 170 = .ok y ∧ RoundsTo (170 ! : ℕ) y) ∧
      (∃ y, combinationOf 1029 514 = .ok y ∧
        RoundsTo (1029 ! / (514 ! * (1029 - 514)!) : ℕ) y) ∧
      EndsRefused (permutationOf 3 0.5) := by
  obtain ⟨factorials, others, -, refused⟩ := counts_rounded
  have between (r : ℕ) : ¬IsNatural 0.5 r := by
    rintro ⟨-, is⟩
    have value : exact 0.5 = 1 / 2 := by decide +kernel
    have double : (2 * r : ℚ) = 1 := by linarith
    norm_cast at double
    omega
  have product : 170 ! < overflowBound := by decide +kernel
  have quotient : 1029 ! / (514 ! * (1029 - 514)!) < overflowBound := by decide +kernel
  have whole : IsNatural 170 170 := ⟨rfl, by decide +kernel⟩
  have all : IsNatural 1029 1029 := ⟨rfl, by decide +kernel⟩
  have half : IsNatural 514 514 := ⟨rfl, by decide +kernel⟩
  have combination := (others all half).2
  rw [if_pos (by decide)] at combination
  exact ⟨(factorials whole).rounded product, combination.rounded quotient,
    (refused (.inr between)).1⟩

end Reckoner.Numeric
