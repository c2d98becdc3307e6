import Reckoner.Decimal.Shortest
import Reckoner.Proofs.Decimal.Nearest

/-!
# The search for the shortest decimal

The test of the search tells the decimals around a double (`Reckoner.Decimal.readsBack_iff`), and
with seventeen digits the search finds one (`Reckoner.Decimal.around_search`): the grid is then
finer than the interval around the double is wide.
-/

namespace Reckoner.Decimal

variable {mantissa : ℕ} {exponent : ℤ}

/-- The exact value of a positive double, with the nearness of the double below. -/
def binaryOf (mantissa : ℕ) (exponent : ℤ) : Binary :=
  ⟨mantissa, exponent, decide (mantissa = 2 ^ 52 ∧ -1074 < exponent)⟩

/-- An integer power is a quotient of two natural ones. -/
theorem zpow_eq_div (base : ℚ) (power : ℤ) :
    base ^ power = base ^ power.toNat / base ^ (-power).toNat := by
  rcases le_total 0 power with whole | negative
  · have none : (-power).toNat = 0 := by omega
    rw [none, pow_zero, div_one, ← zpow_natCast, Int.toNat_of_nonneg whole]
  · have none : power.toNat = 0 := by omega
    rw [none, pow_zero, one_div, ← zpow_natCast, Int.toNat_of_nonneg (by omega), zpow_neg, inv_inv]

theorem denominator_pos (b : Binary) : 0 < b.denominator :=
  Nat.two_pow_pos _

theorem numerator_div_denominator (b : Binary) :
    (b.numerator : ℚ) / b.denominator = b.mantissa * 2 ^ b.exponent := by
  have numerator : b.numerator = b.mantissa * 2 ^ b.exponent.toNat := rfl
  have denominator : b.denominator = 2 ^ (-b.exponent).toNat := rfl
  rw [numerator, denominator, zpow_eq_div 2 b.exponent]
  push_cast
  rw [mul_div_assoc]

/-- A fraction over a power of ten. -/
theorem overPower_div (numerator denominator : ℕ) (grid : ℤ) :
    ((overPower numerator denominator grid).1 : ℚ) / (overPower numerator denominator grid).2 =
      numerator / denominator / 10 ^ grid := by
  have first : (overPower numerator denominator grid).1 = numerator * 10 ^ (-grid).toNat := rfl
  have second : (overPower numerator denominator grid).2 = denominator * 10 ^ grid.toNat := rfl
  rw [first, second, zpow_eq_div 10 grid]
  push_cast
  field_simp

theorem overPower_pos {numerator denominator : ℕ} (pos : 0 < denominator) (grid : ℤ) :
    0 < (overPower numerator denominator grid).2 :=
  Nat.mul_pos pos (Nat.pow_pos (by decide))

/-! ## The test -/

/-- **The test of the search.** A decimal passes for a double exactly if it is around it. -/
theorem readsBack_iff (canonical : Canonical mantissa exponent) (digits : ℕ) (grid : ℤ) :
    (binaryOf mantissa exponent).readsBack digits grid = true ↔
      Around mantissa exponent (digits * 10 ^ grid) := by
  have pos := canonical.pos
  generalize narrowIs : (if decide (mantissa = 2 ^ 52 ∧ -1074 < exponent) = true then 1 else 2) =
    quarters
  -- The test compares four times the decimal, in units of the mantissa.
  generalize fractionIs : overPower (digits * 4 * 2 ^ (-exponent).toNat) (2 ^ exponent.toNat)
    (-grid) = fraction
  have test : (binaryOf mantissa exponent).readsBack digits grid =
      if mantissa % 2 == 0 then
        decide ((4 * mantissa - quarters) * fraction.2 ≤ fraction.1) &&
          decide (fraction.1 ≤ (4 * mantissa + 2) * fraction.2)
      else
        decide ((4 * mantissa - quarters) * fraction.2 < fraction.1) &&
          decide (fraction.1 < (4 * mantissa + 2) * fraction.2) := by
    rw [← narrowIs, ← fractionIs]
    rfl
  have positive : 0 < fraction.2 := fractionIs ▸ overPower_pos (Nat.two_pow_pos _) _
  have positive : (0 : ℚ) < fraction.2 := by exact_mod_cast positive
  have four : (fraction.1 : ℚ) / fraction.2 = 4 * (digits * 10 ^ grid / 2 ^ exponent) := by
    rw [← fractionIs, overPower_div, zpow_neg, zpow_eq_div 2 exponent]
    push_cast
    field_simp
  have le_iff (k : ℕ) (bound : ℚ) (is : (k : ℚ) = 4 * bound) :
      k * fraction.2 ≤ fraction.1 ↔ bound ≤ digits * 10 ^ grid / 2 ^ exponent := by
    rw [← @Nat.cast_le ℚ, Nat.cast_mul, is, ← le_div_iff₀ positive, four]
    constructor <;> intro le <;> linarith
  have ge_iff (k : ℕ) (bound : ℚ) (is : (k : ℚ) = 4 * bound) :
      fraction.1 ≤ k * fraction.2 ↔ digits * 10 ^ grid / 2 ^ exponent ≤ bound := by
    rw [← @Nat.cast_le ℚ, Nat.cast_mul, is, ← div_le_iff₀ positive, four]
    constructor <;> intro le <;> linarith
  have lower : ((4 * mantissa - quarters : ℕ) : ℚ) =
      4 * (mantissa - if mantissa = 2 ^ 52 ∧ -1074 < exponent then 1 / 4 else 1 / 2) := by
    simp only [decide_eq_true_eq] at narrowIs
    rw [← narrowIs]
    split
    · rw [Nat.cast_sub (by omega)]
      push_cast
      ring
    · rw [Nat.cast_sub (by omega)]
      push_cast
      ring
  have upper : ((4 * mantissa + 2 : ℕ) : ℚ) = 4 * (mantissa + 1 / 2) := by
    push_cast
    ring
  rw [test]
  by_cases even : mantissa % 2 = 0
  · rw [if_pos (beq_iff_eq.mpr even), Bool.and_eq_true, decide_eq_true_eq, decide_eq_true_eq,
      le_iff _ _ lower, ge_iff _ _ upper]
    exact ⟨fun ⟨low, high⟩ => ⟨low, high, .inl even⟩, fun around => ⟨around.low, around.high⟩⟩
  · rw [if_neg (by rw [beq_iff_eq]; exact even), Bool.and_eq_true, decide_eq_true_eq,
      decide_eq_true_eq, ← Nat.not_le, ge_iff _ _ lower, ← Nat.not_le, le_iff _ _ upper, not_le,
      not_le]
    exact ⟨fun ⟨low, high⟩ => ⟨low.le, high.le, .inr ⟨low, high⟩⟩,
      fun around => around.tie.resolve_left even⟩

/-! ## The search -/

theorem roundDiv_eq (numerator denominator : ℕ) :
    roundDiv numerator denominator = numerator / denominator ∨
      roundDiv numerator denominator = numerator / denominator + 1 := by
  unfold roundDiv
  dsimp only
  split
  · exact .inl rfl
  · split
    · exact .inr rfl
    · split
      · exact .inl rfl
      · exact .inr rfl

theorem readsBack_of_onGrid {b : Binary} {grid : ℤ} {digits : ℕ}
    (found : b.onGrid? grid = some digits) : b.readsBack digits grid = true := by
  unfold Binary.onGrid? at found
  dsimp only at found
  split at found
  · rename_i low high
    cases found
    rcases roundDiv_eq (overPower b.numerator b.denominator grid).1
      (overPower b.numerator b.denominator grid).2 with is | is
    · rwa [is]
    · rwa [is]
  · rename_i low high
    cases found
    exact low
  · rename_i low high
    cases found
    exact high
  · cases found

/-- A search that reaches a grid with a decimal of the double finds one. -/
theorem readsBack_search {b : Binary} {steps : ℕ} {grid : ℤ}
    (reached : ∃ k < steps, (b.onGrid? (grid - k)).isSome = true) :
    b.readsBack (b.search steps grid).1 (b.search steps grid).2 = true := by
  induction steps generalizing grid with
  | zero =>
      obtain ⟨k, lt, _⟩ := reached
      exact absurd lt (Nat.not_lt_zero k)
  | succ steps ih =>
      unfold Binary.search
      split
      · rename_i digits found
        exact readsBack_of_onGrid found
      · rename_i none
        obtain ⟨k, lt, some⟩ := reached
        cases k with
        | zero =>
            rw [Nat.cast_zero, sub_zero, none] at some
            cases some
        | succ k =>
            refine ih ⟨k, Nat.lt_of_succ_lt_succ lt, ?_⟩
            have same : grid - 1 - (k : ℤ) = grid - ((k + 1 : ℕ) : ℤ) := by
              push_cast
              ring
            rwa [same]

/-- Of two neighbours of the double that are nearer to each other than the interval around the
double is wide, one lies in the interval. -/
theorem around_of_neighbours (canonical : Canonical mantissa exponent) {low : ℕ} {grid : ℤ}
    (fine : 10 ^ (grid + 16) ≤ (mantissa * 2 ^ exponent : ℚ))
    (below : low * 10 ^ grid ≤ (mantissa * 2 ^ exponent : ℚ))
    (above : (mantissa * 2 ^ exponent : ℚ) < (low + 1 : ℕ) * 10 ^ grid) :
    Around mantissa exponent (low * 10 ^ grid) ∨
      Around mantissa exponent ((low + 1 : ℕ) * 10 ^ grid) := by
  have unit : (0 : ℚ) < 2 ^ exponent := by positivity
  have small : (mantissa : ℚ) < 2 ^ 53 := by exact_mod_cast canonical.small
  have first : (low * 10 ^ grid / 2 ^ exponent : ℚ) = low * (10 ^ grid / 2 ^ exponent) := by ring
  have second : ((low + 1 : ℕ) * 10 ^ grid / 2 ^ exponent : ℚ) =
      low * (10 ^ grid / 2 ^ exponent) + 10 ^ grid / 2 ^ exponent := by
    push_cast
    ring
  rw [← div_le_iff₀ unit, first] at below
  rw [← lt_div_iff₀ unit, second] at above
  rw [zpow_add₀ (by norm_num), ← div_le_iff₀ unit] at fine
  have spacing : (10 : ℚ) ^ grid / 2 ^ exponent * 10 ^ 16 ≤ mantissa := by
    refine le_trans (le_of_eq ?_) fine
    rw [div_mul_eq_mul_div]
    rfl
  -- The width of the interval in units of the mantissa.
  have narrow : (10 : ℚ) ^ grid / 2 ^ exponent <
      (if mantissa = 2 ^ 52 ∧ -1074 < exponent then 1 / 4 else 1 / 2) + 1 / 2 := by
    split
    · rename_i power
      rw [power.1] at spacing
      push_cast at spacing
      linarith
    · linarith
  generalize (10 : ℚ) ^ grid / 2 ^ exponent = step at *
  by_cases reached : mantissa - (if mantissa = 2 ^ 52 ∧ -1074 < exponent then 1 / 4 else 1 / 2) <
      low * step
  · left
    rw [← first] at below reached
    exact ⟨reached.le, by linarith, .inr ⟨reached, by linarith⟩⟩
  · right
    have quarter : (0 : ℚ) <
        if mantissa = 2 ^ 52 ∧ -1074 < exponent then 1 / 4 else 1 / 2 := by
      split <;> norm_num
    have above : (mantissa : ℚ) -
        (if mantissa = 2 ^ 52 ∧ -1074 < exponent then 1 / 4 else 1 / 2) < low * step + step := by
      linarith
    have high : low * step + step < mantissa + 1 / 2 := by linarith
    rw [← second] at above high
    exact ⟨above.le, high.le, .inr ⟨above, high⟩⟩

theorem onGrid_isSome (canonical : Canonical mantissa exponent) {grid : ℤ}
    (fine : 10 ^ (grid + 16) ≤ (mantissa * 2 ^ exponent : ℚ)) :
    ((binaryOf mantissa exponent).onGrid? grid).isSome = true := by
  have value := overPower_div (binaryOf mantissa exponent).numerator
    (binaryOf mantissa exponent).denominator grid
  rw [numerator_div_denominator] at value
  have pos := @overPower_pos (binaryOf mantissa exponent).numerator _
    (denominator_pos (binaryOf mantissa exponent)) grid
  have positive : (0 : ℚ) < (overPower (binaryOf mantissa exponent).numerator
    (binaryOf mantissa exponent).denominator grid).2 := by exact_mod_cast pos
  unfold Binary.onGrid?
  dsimp only
  generalize (overPower _ _ _).1 = n at *
  generalize (overPower _ _ _).2 = d at *
  have tens : (0 : ℚ) < 10 ^ grid := by positivity
  have below : ((n / d : ℕ) : ℚ) ≤ mantissa * 2 ^ exponent / 10 ^ grid := by
    refine le_of_le_of_eq ?_ value
    rw [le_div_iff₀ positive]
    exact_mod_cast Nat.div_mul_le_self n d
  have above : (mantissa * 2 ^ exponent / 10 ^ grid : ℚ) < (n / d + 1 : ℕ) := by
    refine lt_of_eq_of_lt value.symm ?_
    rw [div_lt_iff₀ positive, mul_comm]
    exact_mod_cast Nat.lt_mul_div_succ n pos
  rw [le_div_iff₀ tens] at below
  rw [div_lt_iff₀ tens] at above
  have found := around_of_neighbours canonical fine below above
  rw [← readsBack_iff canonical, ← readsBack_iff canonical] at found
  split
  · rfl
  · rfl
  · rfl
  · rename_i low high
    rw [low, high] at found
    exact absurd found (by decide)

/-! ## The estimate of a decimal length

The estimate takes 30103 decimal digits for a hundred thousand binary ones. The two powers are within a
factor of two, and the lengths of doubles are too small for this factor to come to a decimal digit. -/

/-- Where two numbers are within a factor of two, their powers are within a power of two. -/
theorem zpow_le_of_near {x y : ℚ} (posX : 0 < x) (posY : 0 < y) (first : x ≤ 2 * y)
    (second : y ≤ 2 * x) {power : ℤ} {bound : ℕ} (low : -bound ≤ power) (high : power ≤ bound) :
    x ^ power ≤ 2 ^ bound * y ^ power := by
  have natural {x y : ℚ} (posX : 0 < x) (posY : 0 < y) (near : x ≤ 2 * y) {n : ℕ}
      (small : n ≤ bound) : x ^ n ≤ 2 ^ bound * y ^ n := by
    calc x ^ n ≤ (2 * y) ^ n := pow_le_pow_left₀ posX.le near n
      _ = 2 ^ n * y ^ n := mul_pow 2 y n
      _ ≤ 2 ^ bound * y ^ n :=
          mul_le_mul_of_nonneg_right (pow_le_pow_right₀ one_le_two small) (by positivity)
  cases power with
  | ofNat n => exact natural posX posY first (by simpa using high)
  | negSucc n =>
      have powers := natural posY posX second (n := n + 1) (by omega)
      rw [zpow_negSucc, zpow_negSucc, ← div_eq_mul_inv, inv_eq_one_div,
        div_le_div_iff₀ (by positivity) (by positivity), one_mul]
      exact powers

theorem zpow_pow_eq (base : ℚ) (power : ℤ) (n : ℕ) : (base ^ power) ^ n = base ^ (n * power) := by
  rw [mul_comm, zpow_mul, zpow_natCast]

theorem two_pow_le_ten_pow {m n : ℕ} (le : m ≤ n) : (2 : ℚ) ^ m ≤ 10 ^ n :=
  (pow_le_pow_left₀ (by norm_num) (by norm_num) m).trans (pow_le_pow_right₀ (by norm_num) le)

/-- A hundred thousand binary digits are 30103 decimal ones, within a factor of two. -/
theorem binary_decimal_digits :
    (2 : ℚ) ^ 100000 ≤ 10 ^ 30103 ∧ (10 : ℚ) ^ 30103 ≤ 2 * 2 ^ 100000 := by
  have least : 2 ^ 100000 ≤ 10 ^ 30103 := by decide +kernel
  have greatest : 10 ^ 30103 ≤ 2 * 2 ^ 100000 := by decide +kernel
  exact ⟨by exact_mod_cast least, by exact_mod_cast greatest⟩

section Estimate

variable {length : ℤ} (low : -1100 ≤ length) (high : length < 1100)

include low high

theorem decimal_le_binary : (10 : ℚ) ^ (30103 * length) ≤ 2 ^ 1100 * 2 ^ (100000 * length) := by
  obtain ⟨least, greatest⟩ := binary_decimal_digits
  rw [zpow_mul, zpow_mul]
  exact zpow_le_of_near (by positivity) (by positivity) greatest
    (least.trans (le_mul_of_one_le_left (by positivity) one_le_two)) low high.le

theorem binary_le_decimal : (2 : ℚ) ^ (100000 * length) ≤ 2 ^ 1100 * 10 ^ (30103 * length) := by
  obtain ⟨least, greatest⟩ := binary_decimal_digits
  rw [zpow_mul, zpow_mul]
  exact zpow_le_of_near (by positivity) (by positivity)
    (least.trans (le_mul_of_one_le_left (by positivity) one_le_two)) greatest low high.le

/-- The estimate of a decimal length from a binary one, for all lengths that doubles have. -/
theorem pow_estimate_le : (10 : ℚ) ^ (length * 30103 / 100000 - 1) ≤ 2 ^ length := by
  generalize is : length * 30103 / 100000 - 1 = decade
  -- In the hundred-thousandth powers no division is left.
  refine le_of_pow_le_pow_left₀ (n := 100000) (by decide) (by positivity) ?_
  rw [zpow_pow_eq, zpow_pow_eq]
  refine le_of_mul_le_mul_right ?_ (show (0 : ℚ) < 10 ^ 100000 by positivity)
  calc (10 : ℚ) ^ ((100000 : ℕ) * decade) * 10 ^ 100000
      = 10 ^ ((100000 : ℕ) * decade + (100000 : ℕ)) := by
        rw [zpow_add₀ (by norm_num), zpow_natCast]
    _ ≤ 10 ^ (30103 * length) := zpow_le_zpow_right₀ (by norm_num) (by omega)
    _ ≤ 2 ^ 1100 * 2 ^ (100000 * length) := decimal_le_binary low high
    _ ≤ 10 ^ 100000 * 2 ^ (100000 * length) :=
        mul_le_mul_of_nonneg_right (two_pow_le_ten_pow (by norm_num)) (by positivity)
    _ = 2 ^ ((100000 : ℕ) * length) * 10 ^ 100000 := mul_comm _ _

/-- The estimate of a decimal length is at most a few steps too low. -/
theorem le_pow_estimate : (2 : ℚ) ^ (length + 2) ≤ 10 ^ (length * 30103 / 100000 - 1 + 6 + 1) := by
  generalize is : length * 30103 / 100000 - 1 + 6 + 1 = decade
  refine le_of_pow_le_pow_left₀ (n := 100000) (by decide) (by positivity) ?_
  rw [zpow_pow_eq, zpow_pow_eq]
  calc (2 : ℚ) ^ ((100000 : ℕ) * (length + 2))
      = 2 ^ (100000 * length) * 2 ^ 200000 := by
        rw [← zpow_natCast _ 200000, ← zpow_add₀ (by norm_num)]
        exact congrArg _ (by omega)
    _ ≤ 2 ^ 1100 * 10 ^ (30103 * length) * 2 ^ 200000 :=
        mul_le_mul_of_nonneg_right (binary_le_decimal low high) (by positivity)
    _ = 2 ^ (1100 + 200000) * 10 ^ (30103 * length) := by rw [mul_right_comm, ← pow_add]
    _ ≤ 10 ^ 500000 * 10 ^ (30103 * length) :=
        mul_le_mul_of_nonneg_right (two_pow_le_ten_pow (by norm_num)) (by positivity)
    _ = 10 ^ ((500000 : ℕ) + 30103 * length) := by rw [zpow_add₀ (by norm_num), zpow_natCast]
    _ ≤ 10 ^ ((100000 : ℕ) * decade) := zpow_le_zpow_right₀ (by norm_num) (by omega)

end Estimate

/-! ## The leading digit -/

theorem belowPower_iff {numerator denominator : ℕ} (pos : 0 < denominator) (power : ℤ) :
    belowPower numerator denominator power = true ↔
      (numerator : ℚ) / denominator < 10 ^ power := by
  have positive := @overPower_pos numerator _ pos power
  have positive : (0 : ℚ) < (overPower numerator denominator power).2 := by exact_mod_cast positive
  have tens : (0 : ℚ) < 10 ^ power := by positivity
  have value := overPower_div numerator denominator power
  change decide ((overPower numerator denominator power).1 <
    (overPower numerator denominator power).2) = true ↔ _
  rw [decide_eq_true_eq, ← @Nat.cast_lt ℚ, ← div_lt_one positive, value, div_lt_one tens]

theorem pow_climbDecade_le {numerator denominator : ℕ} (pos : 0 < denominator) (steps : ℕ)
    {decade : ℤ} (start : 10 ^ decade ≤ (numerator : ℚ) / denominator) :
    10 ^ climbDecade numerator denominator steps decade ≤ (numerator : ℚ) / denominator := by
  induction steps generalizing decade with
  | zero => exact start
  | succ steps ih =>
      unfold climbDecade
      split
      · exact start
      · rename_i reached
        rw [belowPower_iff pos, not_lt] at reached
        exact ih reached

theorem pow_decade_le {numerator denominator : ℕ} (some : 0 < numerator) (pos : 0 < denominator)
    (low : -1099 ≤ (numerator.log2 : ℤ) - denominator.log2)
    (high : (numerator.log2 : ℤ) - denominator.log2 < 1100) :
    10 ^ decade numerator denominator ≤ (numerator : ℚ) / denominator := by
  refine pow_climbDecade_le pos 6 (le_trans (pow_estimate_le (by omega) (by omega)) ?_)
  have first := Nat.log2_self_le (Nat.ne_of_gt some)
  have second : denominator < 2 ^ (denominator.log2 + 1) := Nat.lt_log2_self
  have first : (2 : ℚ) ^ numerator.log2 ≤ numerator := by exact_mod_cast first
  have second : (denominator : ℚ) ≤ 2 ^ (denominator.log2 + 1) := by
    exact_mod_cast Nat.le_of_lt second
  have positive : (0 : ℚ) < denominator := by exact_mod_cast pos
  have exponents : (numerator.log2 : ℤ) - denominator.log2 - 1 =
      numerator.log2 - ((denominator.log2 + 1 : ℕ) : ℤ) := by
    push_cast
    ring
  rw [exponents, zpow_sub₀ two_ne_zero, zpow_natCast, zpow_natCast]
  exact div_le_div₀ (by positivity) first positive second

theorem lt_pow_climbDecade {numerator denominator : ℕ} (pos : 0 < denominator) (steps : ℕ)
    {decade : ℤ} (last : (numerator : ℚ) / denominator < 10 ^ (decade + steps + 1)) :
    (numerator : ℚ) / denominator < 10 ^ (climbDecade numerator denominator steps decade + 1) := by
  induction steps generalizing decade with
  | zero =>
      rw [Nat.cast_zero, add_zero] at last
      exact last
  | succ steps ih =>
      unfold climbDecade
      split
      · rename_i reached
        exact (belowPower_iff pos _).mp reached
      · refine ih ?_
        have same : decade + 1 + (steps : ℤ) + 1 = decade + ((steps + 1 : ℕ) : ℤ) + 1 := by
          push_cast
          ring
        rwa [same]

theorem lt_pow_decade {numerator denominator : ℕ} (pos : 0 < denominator)
    (low : -1099 ≤ (numerator.log2 : ℤ) - denominator.log2)
    (high : (numerator.log2 : ℤ) - denominator.log2 < 1100) :
    (numerator : ℚ) / denominator < 10 ^ (decade numerator denominator + 1) := by
  refine lt_pow_climbDecade pos 6 (lt_of_lt_of_le ?_ (le_pow_estimate (by omega) (by omega)))
  have first : numerator < 2 ^ (numerator.log2 + 1) := Nat.lt_log2_self
  have second := Nat.log2_self_le (Nat.ne_of_gt pos)
  have first : (numerator : ℚ) < 2 ^ (numerator.log2 + 1) := by exact_mod_cast first
  have second : (2 : ℚ) ^ denominator.log2 ≤ denominator := by exact_mod_cast second
  have exponents : (numerator.log2 : ℤ) - denominator.log2 - 1 + 2 =
      ((numerator.log2 + 1 : ℕ) : ℤ) - denominator.log2 := by
    push_cast
    ring
  rw [exponents, zpow_sub₀ two_ne_zero, zpow_natCast, zpow_natCast]
  exact div_lt_div₀ first second (by positivity) (by positivity)

/-! ## The digits that are found -/

/-- The binary lengths of the value of a double are in the range of the estimate. -/
theorem lengths_binaryOf (canonical : Canonical mantissa exponent) :
    -1099 ≤ ((binaryOf mantissa exponent).numerator.log2 : ℤ) -
        (binaryOf mantissa exponent).denominator.log2 ∧
      ((binaryOf mantissa exponent).numerator.log2 : ℤ) -
        (binaryOf mantissa exponent).denominator.log2 < 1100 := by
  have ⟨pos, small, least, greatest, full⟩ := canonical
  have length := (Nat.log2_lt (Nat.ne_of_gt pos)).mpr small
  have denominator : (binaryOf mantissa exponent).denominator.log2 = (-exponent).toNat :=
    Nat.log2_two_pow
  have numerator : (binaryOf mantissa exponent).numerator.log2 =
      mantissa.log2 + exponent.toNat := by
    refine (Nat.log2_eq_iff (Nat.ne_of_gt (Nat.mul_pos pos (Nat.two_pow_pos _)))).mpr ⟨?_, ?_⟩
    · rw [Nat.pow_add]
      exact Nat.mul_le_mul_right _ (Nat.log2_self_le (Nat.ne_of_gt pos))
    · rw [Nat.add_right_comm, Nat.pow_add]
      exact Nat.mul_lt_mul_of_pos_right Nat.lt_log2_self (Nat.two_pow_pos _)
  omega

/-- The power of ten of the leading digit of a double. -/
theorem decade_bounds (canonical : Canonical mantissa exponent) :
    10 ^ decade (binaryOf mantissa exponent).numerator (binaryOf mantissa exponent).denominator ≤
        (mantissa * 2 ^ exponent : ℚ) ∧
      (mantissa * 2 ^ exponent : ℚ) < 10 ^ (decade (binaryOf mantissa exponent).numerator
        (binaryOf mantissa exponent).denominator + 1) := by
  have ⟨low, high⟩ := lengths_binaryOf canonical
  have some : 0 < (binaryOf mantissa exponent).numerator :=
    Nat.mul_pos canonical.pos (Nat.two_pow_pos _)
  have below := pow_decade_le some (denominator_pos _) low high
  have above := lt_pow_decade (denominator_pos _) low high
  rw [numerator_div_denominator] at below above
  exact ⟨below, above⟩

/-- **The search succeeds.** It finds a decimal in the interval around the double. -/
theorem around_search (canonical : Canonical mantissa exponent) {found : ℕ × ℤ}
    (is : found = (binaryOf mantissa exponent).search 17
      (decade (binaryOf mantissa exponent).numerator (binaryOf mantissa exponent).denominator)) :
    Around mantissa exponent (found.1 * 10 ^ found.2) := by
  rw [← readsBack_iff canonical, is]
  refine readsBack_search ⟨16, by decide, onGrid_isSome canonical ?_⟩
  have last (grid : ℤ) : grid - (16 : ℕ) + 16 = grid := by
    push_cast
    ring
  rw [last]
  exact (decade_bounds canonical).1

end Reckoner.Decimal
