import Reckoner.Proofs.Decimal.Double

/-!
# The nearest double

Doubles are rounded to the nearest, from a tie to an even mantissa. The rounding keeps a mantissa
with two more digits, which stand for the digits that have been dropped
(`Reckoner.Decimal.Stands`). A rational in the interval around a double rounds to this double
(`Reckoner.Decimal.roundWithAccuracy_of_around`).
-/

namespace Reckoner.Decimal

open Float.Model Float.Model.UnpackedFloat

/-- The mantissa with its residual digits stands for a rational. -/
def Stands : ExtendedMantissa → ℚ → Prop
  | ⟨k, false, false⟩, x => x = k
  | ⟨k, false, true⟩, x => k < x ∧ x < k + 1 / 2
  | ⟨k, true, false⟩, x => x = k + 1 / 2
  | ⟨k, true, true⟩, x => k + 1 / 2 < x ∧ x < k + 1

/-- The natural number is nearest to the rational, and even if another one is as near. -/
def IsNearest (n : ℕ) (x : ℚ) : Prop :=
  n - 1 / 2 ≤ x ∧ x ≤ n + 1 / 2 ∧ (n % 2 = 0 ∨ n - 1 / 2 < x ∧ x < n + 1 / 2)

/-- A fraction is its quotient and what the rest adds to it. -/
theorem div_eq_quotient_add_rest (numerator : ℕ) {denominator : ℕ} (pos : 0 < denominator) :
    (numerator : ℚ) / denominator =
      (numerator / denominator : ℕ) + (numerator % denominator : ℕ) / denominator := by
  have positive : (0 : ℚ) < denominator := by exact_mod_cast pos
  rw [div_eq_iff positive.ne', add_mul, div_mul_cancel₀ _ positive.ne']
  exact_mod_cast (Nat.div_add_mod' numerator denominator).symm

/-! ## Dropping digits -/

theorem stands_shiftRightOne {em : ExtendedMantissa} {x : ℚ} (stands : Stands em x) :
    Stands em.shiftRightOne (x / 2) := by
  obtain ⟨k, roundBit, stickyBit⟩ := em
  obtain ⟨j, rfl | rfl⟩ := Nat.even_or_odd' k
  · have shifted : (⟨2 * j, roundBit, stickyBit⟩ : ExtendedMantissa).shiftRightOne =
        ⟨j, false, roundBit || stickyBit⟩ := by
      simp [ExtendedMantissa.shiftRightOne]
    rw [shifted]
    cases roundBit <;> cases stickyBit <;> simp [Stands] at stands ⊢
    · linarith
    · constructor <;> linarith
    · constructor <;> linarith
    · constructor <;> linarith
  · have half : (2 * j + 1) / 2 = j := by omega
    have shifted : (⟨2 * j + 1, roundBit, stickyBit⟩ : ExtendedMantissa).shiftRightOne =
        ⟨j, true, roundBit || stickyBit⟩ := by
      simp [ExtendedMantissa.shiftRightOne, half]
    rw [shifted]
    cases roundBit <;> cases stickyBit <;> simp [Stands] at stands ⊢
    · linarith
    · constructor <;> linarith
    · constructor <;> linarith
    · constructor <;> linarith

theorem stands_shiftRight {em : ExtendedMantissa} {x : ℚ} (stands : Stands em x) (count : ℕ) :
    Stands (em >>> count) (x / 2 ^ count) := by
  induction count with
  | zero => rwa [pow_zero, div_one]
  | succ count ih =>
      rw [pow_succ, ← div_div]
      exact stands_shiftRightOne ih

theorem stands_bounds {em : ExtendedMantissa} {x : ℚ} (stands : Stands em x) :
    em.mantissa ≤ x ∧ x < em.mantissa + 1 := by
  obtain ⟨k, roundBit, stickyBit⟩ := em
  cases roundBit <;> cases stickyBit <;> simp only [Stands] at stands <;>
    constructor <;> linarith

/-- The digits that are kept tell the nearest natural number. -/
theorem roundedMantissa_of_isNearest {em : ExtendedMantissa} {x : ℚ} {n : ℕ}
    (stands : Stands em x) (nearest : IsNearest n x) : em.roundedMantissa = n := by
  obtain ⟨k, roundBit, stickyBit⟩ := em
  obtain ⟨low, high, tie⟩ := nearest
  cases roundBit <;> cases stickyBit <;> simp only [Stands] at stands
  · have above : (k : ℚ) < n + 1 := by linarith
    have below : (n : ℚ) < k + 1 := by linarith
    norm_cast at above below
    change k = n
    omega
  · have above : (k : ℚ) < n + 1 := by linarith
    have below : (n : ℚ) < k + 1 := by linarith
    norm_cast at above below
    change k = n
    omega
  · have above : (k : ℚ) ≤ n := by linarith
    have below : (n : ℚ) ≤ k + 1 := by linarith
    norm_cast at above below
    change k + k % 2 = n
    rcases tie with even | ⟨strictLow, strictHigh⟩
    · omega
    · have above : (k : ℚ) < n := by linarith
      have below : (n : ℚ) < k + 1 := by linarith
      norm_cast at above below
      omega
  · have above : (k : ℚ) < n := by linarith
    have below : (n : ℚ) < k + 2 := by linarith
    norm_cast at above below
    change k + 1 = n
    omega

/-! ## Rounding to a double -/

/-- The rational lies among those that round to the double: from half way to the double below to
half way to the double above, the ends included for an even mantissa. Below a power of two the
doubles are twice as close. -/
structure Around (mantissa : ℕ) (exponent : ℤ) (x : ℚ) : Prop where
  low : mantissa - (if mantissa = 2 ^ 52 ∧ -1074 < exponent then 1 / 4 else 1 / 2) ≤
    x / 2 ^ exponent
  high : x / 2 ^ exponent ≤ mantissa + 1 / 2
  tie : mantissa % 2 = 0 ∨
    mantissa - (if mantissa = 2 ^ 52 ∧ -1074 < exponent then 1 / 4 else 1 / 2) < x / 2 ^ exponent ∧
      x / 2 ^ exponent < mantissa + 1 / 2

theorem targetExponent_eq (total : ℤ) :
    Format.binary64.targetExponent total = max (total - 53) (-1074) :=
  rfl

theorem mantissa_ofMantissaAndAccuracy (mantissa : ℕ) (accuracy : Accuracy) :
    (ExtendedMantissa.ofMantissaAndAccuracy mantissa accuracy).mantissa = mantissa := by
  cases accuracy with
  | exact => rfl
  | inexact side => cases side <;> rfl

theorem shiftToTargetExponent_eq {mantissa : ℕ} {exponent target : ℤ} (accuracy : Accuracy)
    (is : Format.binary64.targetExponent (totalExponent mantissa exponent) = target)
    (le : exponent ≤ target) :
    shiftToTargetExponent Format.binary64 mantissa exponent accuracy =
      (ExtendedMantissa.ofMantissaAndAccuracy mantissa accuracy >>> (target - exponent).toNat,
        target) := by
  unfold shiftToTargetExponent shiftToExponent
  rw [is]
  refine Prod.ext rfl ?_
  change exponent + ((target - exponent).toNat : ℤ) = target
  omega

theorem log2_of_full {mantissa : ℕ} (full : 2 ^ 52 ≤ mantissa) (small : mantissa < 2 ^ 53) :
    mantissa.log2 = 52 :=
  (Nat.log2_eq_iff (by omega)).mpr ⟨full, small⟩

/-- A canonical mantissa has no digit to drop. -/
theorem shiftToTargetExponent_canonical {mantissa : ℕ} {exponent : ℤ}
    (canonical : Canonical mantissa exponent) :
    shiftToTargetExponent Format.binary64 mantissa exponent .exact =
      (⟨mantissa, false, false⟩, exponent) := by
  have ⟨pos, small, least, greatest, full⟩ := canonical
  have is : Format.binary64.targetExponent (totalExponent mantissa exponent) = exponent := by
    rw [targetExponent_eq, totalExponent]
    by_cases normal : 2 ^ 52 ≤ mantissa
    · have length := log2_of_full normal small
      omega
    · have length := (Nat.log2_lt (Nat.ne_of_gt pos)).mpr (Nat.lt_of_not_le normal)
      omega
  rw [shiftToTargetExponent_eq .exact is (Int.le_refl _), Int.sub_self]
  rfl

/-- A mantissa that has been rounded up to a power of two has one digit to drop. -/
theorem shiftToTargetExponent_carry {exponent : ℤ} (least : -1074 < exponent) :
    shiftToTargetExponent Format.binary64 (2 ^ 53) (exponent - 1) .exact =
      (⟨2 ^ 52, false, false⟩, exponent) := by
  have is : Format.binary64.targetExponent (totalExponent (2 ^ 53) (exponent - 1)) = exponent := by
    rw [targetExponent_eq, totalExponent, Nat.log2_two_pow]
    omega
  have one : (exponent - (exponent - 1)).toNat = 1 := by omega
  rw [shiftToTargetExponent_eq .exact is (by omega), one]
  rfl

theorem roundWithAccuracy_of_shifts (sign : Sign) {mantissa fine : ℕ}
    {exponent fineExponent target : ℤ} {accuracy : Accuracy} {kept : ExtendedMantissa}
    (first : shiftToTargetExponent Format.binary64 fine fineExponent accuracy = (kept, target))
    (second : shiftToTargetExponent Format.binary64 kept.roundedMantissa target .exact =
      (⟨mantissa, false, false⟩, exponent)) (pos : 0 < mantissa) :
    roundWithAccuracy Format.binary64 sign fine fineExponent accuracy =
      .finite sign mantissa exponent pos := by
  unfold roundWithAccuracy
  rw [first]
  dsimp only
  rw [second]
  exact dif_neg (Nat.ne_of_gt pos)

theorem isNearest_of_around {mantissa : ℕ} {exponent : ℤ} {x : ℚ}
    (around : Around mantissa exponent x) : IsNearest mantissa (x / 2 ^ exponent) := by
  obtain ⟨low, high, tie⟩ := around
  split at low
  · exact ⟨by linarith, high, by omega⟩
  · rename_i wide
    rw [if_neg wide] at tie
    exact ⟨low, high, tie⟩

/-- The leading digit of what a mantissa and its residual digits stand for. -/
theorem leading_digit {fine : ℕ} {fineExponent : ℤ} {accuracy : Accuracy} {x : ℚ} (pos : 0 < fine)
    (stands : Stands (.ofMantissaAndAccuracy fine accuracy) (x / 2 ^ fineExponent)) :
    2 ^ (totalExponent fine fineExponent - 1) ≤ x ∧ x < 2 ^ totalExponent fine fineExponent := by
  have ⟨low, high⟩ := stands_bounds stands
  rw [mantissa_ofMantissaAndAccuracy] at low high
  have unit : (0 : ℚ) < 2 ^ fineExponent := by positivity
  have full := Nat.log2_self_le (Nat.ne_of_gt pos)
  have small : fine + 1 ≤ 2 ^ (fine.log2 + 1) := Nat.lt_log2_self
  have full : (2 : ℚ) ^ fine.log2 ≤ fine := by exact_mod_cast full
  have small : (fine : ℚ) + 1 ≤ 2 ^ (fine.log2 + 1) := by exact_mod_cast small
  have first : totalExponent fine fineExponent - 1 = (fine.log2 : ℤ) + fineExponent := by
    unfold totalExponent
    omega
  have second : totalExponent fine fineExponent = ((fine.log2 + 1 : ℕ) : ℤ) + fineExponent := by
    unfold totalExponent
    omega
  rw [first, second, zpow_add₀ two_ne_zero, zpow_add₀ two_ne_zero, zpow_natCast, zpow_natCast]
  rw [le_div_iff₀ unit] at low
  rw [div_lt_iff₀ unit] at high
  constructor
  · exact le_trans (mul_le_mul_of_nonneg_right full unit.le) low
  · exact lt_of_lt_of_le high (mul_le_mul_of_nonneg_right small unit.le)

/-- The exponent that a rational around a double is rounded for: that of the double, or one less
where the rational is below the power of two that the double is. -/
theorem targetExponent_of_leading {mantissa fine : ℕ} {exponent fineExponent : ℤ}
    {accuracy : Accuracy} {x : ℚ} (canonical : Canonical mantissa exponent) (pos : 0 < fine)
    (stands : Stands (.ofMantissaAndAccuracy fine accuracy) (x / 2 ^ fineExponent))
    (around : Around mantissa exponent x) :
    Format.binary64.targetExponent (totalExponent fine fineExponent) = exponent ∨
      mantissa = 2 ^ 52 ∧ -1074 < exponent ∧ x / 2 ^ exponent < 2 ^ 52 ∧
        Format.binary64.targetExponent (totalExponent fine fineExponent) = exponent - 1 := by
  obtain ⟨below, above⟩ := leading_digit pos stands
  obtain ⟨_, small, least, greatest, full⟩ := canonical
  have nearest := isNearest_of_around around
  have unit : (0 : ℚ) < 2 ^ exponent := by positivity
  generalize totalExponent fine fineExponent = total at below above ⊢
  rw [targetExponent_eq]
  have shifted (digits : ℕ) : (2 : ℚ) ^ (digits + exponent) = 2 ^ digits * 2 ^ exponent := by
    rw [zpow_add₀ two_ne_zero, zpow_natCast]
  -- A bound on the digits of the rational bounds its exponent.
  have atMost (digits : ℕ) (lt : x / 2 ^ exponent < 2 ^ digits) :
      total - 1 < digits + exponent := by
    rw [div_lt_iff₀ unit, ← shifted] at lt
    exact (zpow_lt_zpow_iff_right₀ one_lt_two).mp (lt_of_le_of_lt below lt)
  have atLeast (digits : ℕ) (le : 2 ^ digits ≤ x / 2 ^ exponent) : digits + exponent < total := by
    rw [le_div_iff₀ unit, ← shifted] at le
    exact (zpow_lt_zpow_iff_right₀ one_lt_two).mp (lt_of_le_of_lt le above)
  by_cases normal : 2 ^ 52 ≤ mantissa
  · have small : (mantissa : ℚ) + 1 ≤ 2 ^ 53 := by exact_mod_cast small
    have most := atMost 53 (by linarith [nearest.2.1])
    by_cases reached : 2 ^ 52 ≤ x / 2 ^ exponent
    · have fits := atLeast 52 reached
      omega
    · have power : mantissa = 2 ^ 52 := by
        by_contra other
        have larger : 2 ^ 52 + 1 ≤ mantissa := by omega
        have larger : (2 : ℚ) ^ 52 + 1 ≤ mantissa := by exact_mod_cast larger
        linarith [nearest.1]
      have most := atMost 52 (lt_of_not_ge reached)
      have fits := atLeast 51 (by
        have := nearest.1
        rw [power] at this
        norm_num at this ⊢
        linarith)
      rcases Int.lt_or_eq_of_le least with lt | is
      · exact .inr ⟨power, lt, lt_of_not_ge reached, by omega⟩
      · omega
  · have small : mantissa + 1 ≤ 2 ^ 52 := Nat.lt_of_not_le normal
    have small : (mantissa : ℚ) + 1 ≤ 2 ^ 52 := by exact_mod_cast small
    have most := atMost 52 (by linarith [nearest.2.1])
    omega

/-- The rationals around a double are at least half of the least double. -/
theorem least_of_around {mantissa : ℕ} {exponent : ℤ} {x : ℚ}
    (canonical : Canonical mantissa exponent) (around : Around mantissa exponent x) :
    2 ^ (-1075 : ℤ) ≤ x := by
  have unit : (0 : ℚ) < 2 ^ exponent := by positivity
  have low := (isNearest_of_around around).1
  have one : (1 : ℚ) ≤ mantissa := by exact_mod_cast canonical.pos
  have half : (1 / 2 : ℚ) ≤ x / 2 ^ exponent := by linarith
  rw [le_div_iff₀ unit] at half
  calc (2 : ℚ) ^ (-1074 - 1 : ℤ) = 1 / 2 * 2 ^ (-1074 : ℤ) := by
        rw [zpow_sub_one₀ two_ne_zero, mul_comm, one_div]
    _ ≤ 1 / 2 * 2 ^ exponent :=
      mul_le_mul_of_nonneg_left (zpow_le_zpow_right₀ one_le_two canonical.least) (by norm_num)
    _ ≤ x := half

/-- A mantissa of zero is fine enough for the least double only. -/
theorem targetExponent_of_zero {mantissa : ℕ} {exponent fineExponent : ℤ}
    {accuracy : Accuracy} {x : ℚ} (canonical : Canonical mantissa exponent)
    (least : fineExponent ≤ -1074)
    (stands : Stands (.ofMantissaAndAccuracy 0 accuracy) (x / 2 ^ fineExponent))
    (around : Around mantissa exponent x) :
    Format.binary64.targetExponent (totalExponent 0 fineExponent) = exponent := by
  have high := (stands_bounds stands).2
  rw [mantissa_ofMantissaAndAccuracy, Nat.cast_zero, zero_add,
    div_lt_one (by positivity)] at high
  have target : Format.binary64.targetExponent (totalExponent 0 fineExponent) = -1074 := by
    rw [targetExponent_eq, totalExponent, Nat.log2_zero]
    omega
  rw [target]
  rcases canonical.full with full | same
  · have unit : (0 : ℚ) < 2 ^ exponent := by positivity
    have low := (isNearest_of_around around).1
    have full : (2 : ℚ) ^ 52 ≤ mantissa := by exact_mod_cast full
    have one : 1 ≤ x / 2 ^ exponent := by linarith
    rw [one_le_div unit] at one
    have below := (zpow_lt_zpow_iff_right₀ one_lt_two).mp (lt_of_le_of_lt one high)
    have := canonical.least
    omega
  · exact same.symm

/-- The exponent that a rational around a double is rounded for. -/
theorem targetExponent_of_around {mantissa fine : ℕ} {exponent fineExponent : ℤ}
    {accuracy : Accuracy} {x : ℚ} (canonical : Canonical mantissa exponent)
    (enough : 0 < fine ∨ fineExponent ≤ -1074)
    (stands : Stands (.ofMantissaAndAccuracy fine accuracy) (x / 2 ^ fineExponent))
    (around : Around mantissa exponent x) :
    Format.binary64.targetExponent (totalExponent fine fineExponent) = exponent ∨
      mantissa = 2 ^ 52 ∧ -1074 < exponent ∧ x / 2 ^ exponent < 2 ^ 52 ∧
        Format.binary64.targetExponent (totalExponent fine fineExponent) = exponent - 1 := by
  rcases Nat.eq_zero_or_pos fine with rfl | pos
  · have least := enough.resolve_left (Nat.lt_irrefl 0)
    exact .inl (targetExponent_of_zero canonical least stands around)
  · exact targetExponent_of_leading canonical pos stands around

/-- **Rounding finds the double.** A rational in the interval around a double is rounded to this
double, from any mantissa that is fine enough with residual digits that stand for the rational. -/
theorem roundWithAccuracy_of_around (sign : Sign) {mantissa fine : ℕ}
    {exponent fineExponent : ℤ} {accuracy : Accuracy} {x : ℚ}
    (canonical : Canonical mantissa exponent) (enough : 2 ^ 52 ≤ fine ∨ fineExponent ≤ -1074)
    (stands : Stands (.ofMantissaAndAccuracy fine accuracy) (x / 2 ^ fineExponent))
    (around : Around mantissa exponent x) :
    roundWithAccuracy Format.binary64 sign fine fineExponent accuracy =
      .finite sign mantissa exponent canonical.pos := by
  have le : fineExponent ≤ Format.binary64.targetExponent (totalExponent fine fineExponent) := by
    rw [targetExponent_eq, totalExponent]
    rcases enough with full | least
    · have length := (Nat.le_log2 (by omega)).mpr full
      omega
    · omega
  generalize is : Format.binary64.targetExponent (totalExponent fine fineExponent) = target at le
  have kept := stands_shiftRight stands (target - fineExponent).toNat
  have unit : (2 : ℚ) ^ fineExponent * 2 ^ (target - fineExponent).toNat = 2 ^ target := by
    rw [← zpow_natCast, ← zpow_add₀ two_ne_zero]
    congr 1
    omega
  rw [div_div, unit] at kept
  refine roundWithAccuracy_of_shifts sign (shiftToTargetExponent_eq accuracy is le) ?_ canonical.pos
  have enough := enough.imp_left (Nat.lt_of_lt_of_le (Nat.two_pow_pos 52))
  rcases targetExponent_of_around canonical enough stands around with
    same | ⟨power, least, lt, less⟩
  · obtain rfl : target = exponent := is.symm.trans same
    rw [roundedMantissa_of_isNearest kept (isNearest_of_around around)]
    exact shiftToTargetExponent_canonical canonical
  · obtain rfl : target = exponent - 1 := is.symm.trans less
    have low := around.low
    rw [if_pos ⟨power, least⟩, power] at low
    have twice : x / 2 ^ (exponent - 1) = 2 * (x / 2 ^ exponent) := by
      rw [zpow_sub_one₀ two_ne_zero]
      field_simp
    have nearest : IsNearest (2 ^ 53) (x / 2 ^ (exponent - 1)) := by
      rw [twice]
      refine ⟨?_, ?_, .inl rfl⟩ <;> push_cast at low ⊢ <;> linarith
    rw [roundedMantissa_of_isNearest kept nearest, power]
    exact shiftToTargetExponent_carry least

end Reckoner.Decimal
