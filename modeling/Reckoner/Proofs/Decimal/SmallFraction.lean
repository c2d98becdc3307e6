import Mathlib.Data.Rat.Lemmas
import Mathlib.Tactic.FieldSimp
import Mathlib.Tactic.Linarith
import Mathlib.Tactic.LinearCombination
import Mathlib.Tactic.Positivity
import Mathlib.Tactic.Ring
import Reckoner.Decimal.Fraction

/-!
# The nearest fraction with a small denominator

Two fractions `p / q` and `P / Q` with `p * Q - P * q = 1` are neighbours: a fraction between them
has a denominator of at least `q + Q`. The continued fraction is followed as long as denominators
are within the bound, so what is found at the end are two neighbours around the number whose
denominators exceed the bound together. The nearer one is nearest of all fractions with a
denominator within the bound (`Reckoner.Decimal.isClosest_limitDenominator`).
-/

namespace Reckoner.Decimal

/-- The fraction has a denominator within the bound, and is nearest to the number among all
fractions with such a denominator. -/
structure IsClosest (bound : ℕ) (r q : ℚ) : Prop where
  small : q.den ≤ bound
  closest : ∀ other : ℚ, other.den ≤ bound → |q - r| ≤ |other - r|

theorem abs_eq (x : ℚ) : x.abs = |x| := by
  rcases le_total 0 x with nonneg | nonpos
  · rw [abs_of_nonneg nonneg, Rat.abs_of_nonneg nonneg]
  · rw [abs_of_nonpos nonpos, Rat.abs_of_nonpos nonpos]

/-! ## Neighbours -/

section Neighbours

variable {p q P Q : ℤ} (pos : 0 < q) (posQ : 0 < Q) (neighbours : p * Q - P * q = 1)

include pos posQ neighbours

/-- A fraction between two neighbours has a denominator of at least the sum of theirs. -/
theorem add_le_den_of_between {s : ℚ} (above : (P / Q : ℚ) < s) (below : s < p / q) :
    q + Q ≤ s.den := by
  have den : (0 : ℚ) < s.den := by exact_mod_cast s.den_pos
  rw [← Rat.num_div_den s] at above below
  rw [div_lt_div_iff₀ (by exact_mod_cast posQ) den] at above
  rw [div_lt_div_iff₀ den (by exact_mod_cast pos)] at below
  have first : P * s.den + 1 ≤ s.num * Q := by
    have strict : P * s.den < s.num * Q := by exact_mod_cast above
    omega
  have second : s.num * q + 1 ≤ p * s.den := by
    have strict : s.num * q < p * s.den := by exact_mod_cast below
    omega
  have same : (s.den : ℤ) = q * (s.num * Q - P * s.den) + Q * (p * s.den - s.num * q) := by
    linear_combination (-(s.den : ℤ)) * neighbours
  nlinarith

/-- A fraction with a smaller denominator is no nearer to a number between two neighbours than one
of them. -/
theorem near_of_neighbours {r : ℚ} (above : (P / Q : ℚ) ≤ r) (below : r ≤ p / q) {s : ℚ}
    (small : (s.den : ℤ) < q + Q) :
    |(P / Q : ℚ) - r| ≤ |s - r| ∨ |(p / q : ℚ) - r| ≤ |s - r| := by
  rcases le_or_gt s (P / Q) with low | inside
  · left
    rw [abs_of_nonpos (by linarith), abs_of_nonpos (by linarith)]
    linarith
  · right
    have high : (p / q : ℚ) ≤ s := by
      by_contra between
      have large := add_le_den_of_between pos posQ neighbours inside (not_le.mp between)
      omega
    rw [abs_of_nonneg (by linarith), abs_of_nonneg (by linarith)]
    linarith

end Neighbours

/-! ## The continued fraction -/

/-- The continued fraction of `r` has been followed up to two convergents: they are neighbours with
denominators within the bound, and `n / d` is what is left of the number. -/
structure Approaches (bound : ℕ) (r : ℚ) (n : ℤ) (d : ℕ) (c : Convergents) : Prop where
  numerator : c.p₀ * d + c.p₁ * n = r.num
  denominator : c.q₀ * d + c.q₁ * n = r.den
  neighbours : c.p₁ * c.q₀ - c.p₀ * c.q₁ = 1 ∨ c.p₀ * c.q₁ - c.p₁ * c.q₀ = 1
  left : (d : ℤ) < n
  nonneg : 0 ≤ c.q₀
  pos : 0 < c.q₁
  small₀ : c.q₀ ≤ bound
  small₁ : c.q₁ ≤ bound

theorem fmod_eq {d : ℕ} (some : d ≠ 0) (n : ℤ) :
    ((n.fmod d).toNat : ℤ) = n - d * n.fdiv d ∧ n - d * n.fdiv d < d ∧ 0 ≤ n - d * n.fdiv d := by
  have pos : (0 : ℤ) < d := by omega
  have parts := Int.mul_fdiv_add_fmod n d
  have nonneg := Int.fmod_nonneg_of_pos n pos
  have below := Int.fmod_lt_of_pos n pos
  omega

/-- The continued fraction starts with the integer part of the number. -/
theorem approaches_start {bound : ℕ} (some : 0 < bound) (r : ℚ) :
    Approaches bound r r.den (r.num.fmod r.den).toNat ⟨1, 0, r.num.fdiv r.den, 1⟩ := by
  obtain ⟨rest, below, _⟩ := fmod_eq r.den_ne_zero r.num
  refine ⟨?_, ?_, .inr ?_, ?_, le_rfl, Int.one_pos, ?_, ?_⟩
  · dsimp only
    rw [rest]
    ring
  · dsimp only
    ring
  · dsimp only
    ring
  · omega
  · dsimp only
    omega
  · dsimp only
    omega

/-- One more convergent. -/
theorem Approaches.step {bound : ℕ} {r : ℚ} {n : ℤ} {d : ℕ} {c : Convergents}
    (approaches : Approaches bound r n d c) (some : d ≠ 0)
    (within : c.q₀ + n.fdiv d * c.q₁ ≤ bound) :
    Approaches bound r d (n.fmod d).toNat
      ⟨c.p₁, c.q₁, c.p₀ + n.fdiv d * c.p₁, c.q₀ + n.fdiv d * c.q₁⟩ := by
  obtain ⟨rest, below, _⟩ := fmod_eq some n
  have left := approaches.left
  have whole : 0 < n.fdiv d := by
    by_contra none
    nlinarith
  refine ⟨?_, ?_, ?_, ?_, approaches.pos.le, ?_, approaches.small₁, within⟩
  · dsimp only
    rw [rest, ← approaches.numerator]
    ring
  · dsimp only
    rw [rest, ← approaches.denominator]
    ring
  · rcases approaches.neighbours with first | second
    · exact .inr (by linear_combination first)
    · exact .inl (by linear_combination second)
  · omega
  · have nonneg := approaches.nonneg
    have pos := approaches.pos
    dsimp only
    positivity

/-- The continued fraction is followed until the next denominator exceeds the bound, or the number
is reached. -/
theorem exists_approaches {bound : ℕ} {r : ℚ} {n : ℤ} {d : ℕ} {c : Convergents}
    (approaches : Approaches bound r n d c) :
    ∃ n' d', Approaches bound r n' d' (convergents bound n d c) ∧
      (d' = 0 ∨ (bound : ℤ) < (convergents bound n d c).q₀ +
        n'.fdiv d' * (convergents bound n d c).q₁) := by
  fun_induction convergents bound n d c with
  | case1 n c => exact ⟨n, 0, approaches, .inl rfl⟩
  | case2 n d c some _ a q exceeds => exact ⟨n, d, approaches, .inr exceeds⟩
  | case3 n d c some _ a q within ih => exact ih (approaches.step some (not_lt.mp within))

section Approaches

variable {bound : ℕ} {r : ℚ} {n : ℤ} {d : ℕ} {c : Convergents}
  (approaches : Approaches bound r n d c)

include approaches

/-- A number with a denominator past the bound is not reached. -/
theorem Approaches.ne_zero (large : bound < r.den) : d ≠ 0 := by
  rintro rfl
  have numerator := approaches.numerator
  have denominator := approaches.denominator
  have left := approaches.left
  have small := approaches.small₁
  rw [Nat.cast_zero, mul_zero, zero_add] at numerator denominator
  rw [Nat.cast_zero] at left
  have one : n.natAbs ∣ 1 := by
    have ofNumerator : n ∣ r.num := ⟨c.p₁, by rw [← numerator, mul_comm]⟩
    have ofDenominator : n ∣ (r.den : ℤ) := ⟨c.q₁, by rw [← denominator, mul_comm]⟩
    rw [← Nat.Coprime.gcd_eq_one r.reduced]
    exact Nat.dvd_gcd (Int.natAbs_dvd_natAbs.mpr ofNumerator)
      (Int.natAbs_dvd_natAbs.mpr ofDenominator)
  have is : n = 1 := by
    have := Nat.dvd_one.mp one
    omega
  rw [is, mul_one] at denominator
  omega

/-- The number in terms of the last two convergents. -/
theorem Approaches.eq_div (k : ℤ) :
    r = ((c.p₀ + k * c.p₁) * d + c.p₁ * (n - k * d) : ℤ) /
      ((c.q₀ + k * c.q₁) * d + c.q₁ * (n - k * d) : ℤ) := by
  have numerator : (c.p₀ + k * c.p₁) * d + c.p₁ * (n - k * d) = r.num := by
    linear_combination approaches.numerator
  have denominator : (c.q₀ + k * c.q₁) * d + c.q₁ * (n - k * d) = r.den := by
    linear_combination approaches.denominator
  rw [numerator, denominator]
  exact (Rat.num_div_den r).symm

end Approaches

/-! ## The nearer neighbour -/

/-- A mean of two fractions lies between them. -/
theorem between_of_mean {p q P Q : ℤ} (pos : 0 < q) (posQ : 0 < Q) (le : P * q ≤ p * Q)
    {a b : ℤ} (nonneg : 0 ≤ a) (nonneg' : 0 ≤ b) (total : 0 < Q * b + q * a) :
    (P / Q : ℚ) ≤ (P * b + p * a : ℤ) / (Q * b + q * a : ℤ) ∧
      ((P * b + p * a : ℤ) / (Q * b + q * a : ℤ) : ℚ) ≤ p / q := by
  rw [div_le_div_iff₀ (by exact_mod_cast posQ) (by exact_mod_cast total),
    div_le_div_iff₀ (by exact_mod_cast total) (by exact_mod_cast pos)]
  constructor
  · exact_mod_cast (by nlinarith : P * (Q * b + q * a) ≤ (P * b + p * a) * Q)
  · exact_mod_cast (by nlinarith : (P * b + p * a) * q ≤ p * (Q * b + q * a))

theorem den_mkRat_le (p : ℤ) {q : ℤ} (pos : 0 < q) : ((mkRat p q.toNat).den : ℤ) ≤ q := by
  have some : q.toNat ≠ 0 := by omega
  have divides : (mkRat p q.toNat).den ∣ q.toNat := by
    have divides := Rat.den_dvd p q.toNat
    rw [Rat.divInt_ofNat] at divides
    exact_mod_cast divides
  have small := Nat.le_of_dvd (by omega) divides
  omega

theorem mkRat_eq (p : ℤ) {q : ℤ} (pos : 0 < q) : mkRat p q.toNat = (p / q : ℚ) := by
  have same : (q.toNat : ℤ) = q := Int.toNat_of_nonneg pos.le
  rw [Rat.mkRat_eq_div, ← Int.cast_natCast, same]

/-- Two neighbours with denominators within the bound that exceed it together, and a number that is
a mean of them: the nearer one is nearest to the number of all fractions within the bound. -/
theorem near_of_mean {bound : ℕ} {r : ℚ} {p q P Q a b : ℤ} (pos : 0 < q) (posQ : 0 < Q)
    (neighbours : p * Q - P * q = 1 ∨ P * q - p * Q = 1) (exceeds : (bound : ℤ) < q + Q)
    (nonneg : 0 ≤ a) (nonneg' : 0 ≤ b) (mean : r = (P * b + p * a : ℤ) / (Q * b + q * a : ℤ))
    (total : 0 < Q * b + q * a) {s : ℚ} (small : s.den ≤ bound) :
    |(P / Q : ℚ) - r| ≤ |s - r| ∨ |(p / q : ℚ) - r| ≤ |s - r| := by
  have less : (s.den : ℤ) < q + Q := by omega
  rcases neighbours with above | below
  · have le : P * q ≤ p * Q := by linarith
    obtain ⟨low, high⟩ := between_of_mean pos posQ le nonneg nonneg' total
    rw [← mean] at low high
    exact near_of_neighbours pos posQ above low high less
  · have le : p * Q ≤ P * q := by linarith
    obtain ⟨low, high⟩ := between_of_mean posQ pos le nonneg' nonneg (by linarith)
    rw [add_comm (p * a), add_comm (q * a), ← mean] at low high
    exact (near_of_neighbours posQ pos below low high (by linarith)).symm

section Last

variable {bound : ℕ} {r : ℚ} {n : ℤ} {d : ℕ} {c : Convergents}
  (approaches : Approaches bound r n d c)

include approaches

/-- The most steps of the last convergent from the one before it that the bound admits. -/
theorem Approaches.steps_within :
    0 < c.q₀ + (bound - c.q₀).fdiv c.q₁ * c.q₁ ∧
      c.q₀ + (bound - c.q₀).fdiv c.q₁ * c.q₁ ≤ bound ∧
      bound < c.q₁ + (c.q₀ + (bound - c.q₀).fdiv c.q₁ * c.q₁) := by
  have parts := Int.mul_fdiv_add_fmod (bound - c.q₀) c.q₁
  have nonneg := Int.fmod_nonneg_of_pos ((bound : ℤ) - c.q₀) approaches.pos
  have below := Int.fmod_lt_of_pos ((bound : ℤ) - c.q₀) approaches.pos
  have small := approaches.small₁
  rw [mul_comm] at parts
  omega

/-- The last convergent, or the fraction after the most steps, is as near to the number as any
fraction within the bound. -/
theorem Approaches.near (zero : d ≠ 0) (ends : bound < c.q₀ + n.fdiv d * c.q₁) {k : ℤ}
    (posQ : 0 < c.q₀ + k * c.q₁) (within : c.q₀ + k * c.q₁ ≤ bound)
    (most : bound < c.q₁ + (c.q₀ + k * c.q₁)) {s : ℚ} (small : s.den ≤ bound) :
    |((c.p₀ + k * c.p₁ : ℤ) / (c.q₀ + k * c.q₁ : ℤ) : ℚ) - r| ≤ |s - r| ∨
      |(c.p₁ / c.q₁ : ℚ) - r| ≤ |s - r| := by
  have pos := approaches.pos
  have posD : (0 : ℤ) < d := by omega
  have fewer : k < n.fdiv d := by
    by_contra more
    nlinarith
  have left : 0 ≤ n - k * d := by
    have parts := Int.mul_fdiv_add_fmod n d
    have rest := Int.fmod_nonneg_of_pos n posD
    nlinarith
  have total : 0 < (c.q₀ + k * c.q₁) * d + c.q₁ * (n - k * d) := by positivity
  refine near_of_mean pos posQ ?_ most left posD.le (approaches.eq_div k) total small
  rcases approaches.neighbours with first | second
  · exact .inl (by linear_combination first)
  · exact .inr (by linear_combination second)

end Last

/-- The last two convergents of a number with a denominator past the bound: the next denominator
exceeds the bound. -/
theorem exists_last {bound : ℕ} {r : ℚ} (some : 0 < bound) (large : bound < r.den) :
    ∃ n d, d ≠ 0 ∧ Approaches bound r n d (convergents bound r.num r.den ⟨0, 1, 1, 0⟩) ∧
      (bound : ℤ) < (convergents bound r.num r.den ⟨0, 1, 1, 0⟩).q₀ +
        n.fdiv d * (convergents bound r.num r.den ⟨0, 1, 1, 0⟩).q₁ := by
  have first : convergents bound r.num r.den ⟨0, 1, 1, 0⟩ =
      convergents bound r.den (r.num.fmod r.den).toNat ⟨1, 0, r.num.fdiv r.den, 1⟩ := by
    rw [convergents, dif_neg r.den_ne_zero, if_neg (by simp; omega)]
    simp
  rw [first]
  obtain ⟨n, d, approaches, ends⟩ := exists_approaches (approaches_start some r)
  have zero := approaches.ne_zero large
  exact ⟨n, d, zero, approaches, ends.resolve_left zero⟩

/-- The fraction found is nearest to the number of all with a denominator within the bound. -/
theorem isClosest_limitDenominator {bound : ℕ} (some : 0 < bound) (r : ℚ) :
    IsClosest bound r (limitDenominator bound r) := by
  rw [limitDenominator]
  split
  case isTrue within => exact ⟨within, by simp⟩
  case isFalse exceeds =>
    obtain ⟨n, d, zero, approaches, ends⟩ := exists_last some (not_le.mp exceeds)
    generalize convergents bound r.num r.den ⟨0, 1, 1, 0⟩ = c at approaches ends ⊢
    dsimp only
    obtain ⟨posQ, within, most⟩ := approaches.steps_within
    generalize ((bound : ℤ) - c.q₀).fdiv c.q₁ = k at posQ within most ⊢
    have near : ∀ s : ℚ, s.den ≤ bound →
        |mkRat (c.p₀ + k * c.p₁) (c.q₀ + k * c.q₁).toNat - r| ≤ |s - r| ∨
          |mkRat c.p₁ c.q₁.toNat - r| ≤ |s - r| := by
      intro s small
      rw [mkRat_eq _ approaches.pos, mkRat_eq _ posQ]
      exact approaches.near zero ends posQ within most small
    have small := den_mkRat_le (c.p₀ + k * c.p₁) posQ
    have small' := den_mkRat_le c.p₁ approaches.pos
    have within' := approaches.small₁
    rw [abs_eq, abs_eq]
    split
    case isTrue nearer => exact ⟨by omega, fun s small => (near s small).elim nearer.trans id⟩
    case isFalse farther =>
      exact ⟨by omega, fun s small => (near s small).elim id (not_le.mp farther).le.trans⟩

end Reckoner.Decimal
