import Reckoner.Proofs.Decimal.Search

/-!
# The closest double

Every positive rational in the range of the doubles is around one of them
(`Reckoner.Decimal.exists_around`), and no double is closer to a rational than the one it is around
(`Reckoner.Decimal.closest_of_around`). The rounding of fractions to natural numbers finds the
nearest one, and there is only one that is nearest.
-/

namespace Reckoner.Decimal

/-! ## The nearest natural number -/

/-- The rounding of fractions finds the nearest natural number. -/
theorem isNearest_roundDiv (numerator : ℕ) {denominator : ℕ} (pos : 0 < denominator) :
    IsNearest (roundDiv numerator denominator) (numerator / denominator) := by
  have positive : (0 : ℚ) < denominator := by exact_mod_cast pos
  have below : ((numerator % denominator : ℕ) : ℚ) / denominator < 1 := by
    rw [div_lt_one positive]
    exact_mod_cast Nat.mod_lt numerator pos
  have some : (0 : ℚ) ≤ ((numerator % denominator : ℕ) : ℚ) / denominator := by positivity
  have less : 2 * (numerator % denominator) < denominator →
      ((numerator % denominator : ℕ) : ℚ) / denominator < 1 / 2 := by
    rw [div_lt_div_iff₀ positive two_pos, one_mul, mul_comm]
    exact fun lt => by exact_mod_cast lt
  have more : denominator < 2 * (numerator % denominator) →
      (1 / 2 : ℚ) < (numerator % denominator : ℕ) / denominator := by
    rw [div_lt_div_iff₀ two_pos positive, one_mul, mul_comm]
    exact fun lt => by exact_mod_cast lt
  have same : 2 * (numerator % denominator) = denominator →
      ((numerator % denominator : ℕ) : ℚ) / denominator = 1 / 2 := by
    rw [div_eq_div_iff positive.ne' two_ne_zero, one_mul, mul_comm]
    exact fun is => by exact_mod_cast is
  rw [div_eq_quotient_add_rest numerator pos]
  unfold roundDiv
  generalize numerator / denominator = quotient at *
  generalize numerator % denominator = rest at *
  generalize (rest : ℚ) / denominator = part at *
  dsimp only
  split
  · rename_i first
    have first := less first
    exact ⟨by linarith, by linarith, .inr ⟨by linarith, by linarith⟩⟩
  · split
    · rename_i second
      have second := more second
      refine ⟨?_, ?_, .inr ⟨?_, ?_⟩⟩ <;> push_cast <;> linarith
    · rename_i first second
      have tie := same (by omega)
      split
      · rename_i even
        exact ⟨by linarith, by linarith, .inl (beq_iff_eq.mp even)⟩
      · rename_i odd
        have even : (quotient + 1) % 2 = 0 := by
          rw [beq_iff_eq] at odd
          omega
        refine ⟨?_, ?_, .inl even⟩ <;> push_cast <;> linarith

/-- Only one natural number is nearest. -/
theorem IsNearest.unique {m n : ℕ} {x : ℚ} (first : IsNearest m x) (second : IsNearest n x) :
    m = n := by
  obtain ⟨low, high, tie⟩ := first
  obtain ⟨low', high', tie'⟩ := second
  have above : (m : ℚ) ≤ n + 1 := by linarith
  have below : (n : ℚ) ≤ m + 1 := by linarith
  norm_cast at above below
  rcases tie with even | ⟨strictLow, strictHigh⟩
  · rcases tie' with even' | ⟨strictLow', strictHigh'⟩
    · omega
    · have above : (m : ℚ) < n + 1 := by linarith
      have below : (n : ℚ) < m + 1 := by linarith
      norm_cast at above below
      omega
  · have above : (m : ℚ) < n + 1 := by linarith
    have below : (n : ℚ) < m + 1 := by linarith
    norm_cast at above below
    omega

theorem IsNearest.of_abs_lt {n : ℕ} {x : ℚ} (near : |x - n| < 1 / 2) : IsNearest n x := by
  have ⟨low, high⟩ := abs_lt.mp near
  exact ⟨by linarith, by linarith, .inr ⟨by linarith, by linarith⟩⟩

/-- A multiple of a unit that is closer than half of it is the nearest one. -/
theorem IsNearest.of_multiple {n : ℕ} {x unit : ℚ} (pos : 0 < unit)
    (near : |n * unit - x| < 1 / 2 * unit) : IsNearest n (x / unit) := by
  apply IsNearest.of_abs_lt
  rwa [div_sub' pos.ne', abs_div, abs_of_pos pos, div_lt_iff₀ pos, mul_comm unit, abs_sub_comm]

theorem isNearest_self (n : ℕ) : IsNearest n n :=
  .of_abs_lt (by norm_num)

theorem IsNearest.abs_sub_le {n : ℕ} {x : ℚ} (nearest : IsNearest n x) : |x - n| ≤ 1 / 2 :=
  abs_le.mpr ⟨by linarith [nearest.1], by linarith [nearest.2.1]⟩

/-- What is as close to the nearest natural number has the same one. -/
theorem IsNearest.of_closer {n : ℕ} {x y : ℚ} (nearest : IsNearest n x)
    (closer : |y - n| ≤ |x - n|) : IsNearest n y := by
  have ⟨left, right⟩ := abs_le.mp (le_trans closer nearest.abs_sub_le)
  refine ⟨by linarith, by linarith, nearest.2.2.imp_right fun ⟨strictLow, strictHigh⟩ => ?_⟩
  have strict : |x - n| < 1 / 2 := abs_lt.mpr ⟨by linarith, by linarith⟩
  have ⟨left, right⟩ := abs_lt.mp (lt_of_le_of_lt closer strict)
  exact ⟨by linarith, by linarith⟩

theorem exists_isNearest {x : ℚ} (nonneg : 0 ≤ x) : ∃ n, IsNearest n x := by
  refine ⟨roundDiv x.num.toNat x.den, ?_⟩
  have same : ((x.num.toNat : ℕ) : ℚ) / x.den = x := by
    have numerator : ((x.num.toNat : ℕ) : ℚ) = x.num := by
      exact_mod_cast Int.toNat_of_nonneg (Rat.num_nonneg.mpr nonneg)
    rw [numerator, Rat.num_div_den]
  have nearest := isNearest_roundDiv x.num.toNat x.den_pos
  rwa [same] at nearest

/-! ## The doubles next to a double -/

/-- How far below a double, in units of its mantissa, the rationals around it reach. -/
def reach (mantissa : ℕ) (exponent : ℤ) : ℚ :=
  if mantissa = 2 ^ 52 ∧ -1074 < exponent then 1 / 4 else 1 / 2

variable {mantissa mantissa' : ℕ} {exponent exponent' : ℤ} {x : ℚ}

theorem reach_bounds (mantissa : ℕ) (exponent : ℤ) :
    0 < reach mantissa exponent ∧ reach mantissa exponent ≤ 1 / 2 := by
  unfold reach
  split <;> norm_num

/-- A double in units of a power of two is an integer if its own unit is not finer. -/
theorem units_of_le (mantissa : ℕ) {exponent unit : ℤ} (le : unit ≤ exponent) :
    (mantissa * 2 ^ exponent / 2 ^ unit : ℚ) = (mantissa * 2 ^ (exponent - unit).toNat : ℕ) := by
  have split : exponent = ((exponent - unit).toNat : ℤ) + unit := by omega
  have positive : (2 : ℚ) ^ unit ≠ 0 := by positivity
  rw [split, zpow_add₀ two_ne_zero, zpow_natCast, Int.add_sub_cancel, Int.toNat_natCast,
    ← mul_assoc, mul_div_cancel_right₀ _ positive]
  push_cast
  rfl

/-- A double with a finer unit has fewer than so many units of another one. -/
theorem units_of_lt (canonical : Canonical mantissa exponent) {unit : ℤ} (lt : exponent < unit) :
    (mantissa * 2 ^ exponent / 2 ^ unit : ℚ) ≤ 2 ^ 52 - 1 / 2 := by
  have small : (mantissa : ℚ) + 1 ≤ 2 ^ 53 := by exact_mod_cast canonical.small
  have le : exponent ≤ unit - 1 := by omega
  have powers : (2 : ℚ) ^ exponent ≤ 2 ^ (unit - 1) := zpow_le_zpow_right₀ one_le_two le
  rw [zpow_sub_one₀ two_ne_zero] at powers
  rw [div_le_iff₀ (by positivity)]
  calc (mantissa * 2 ^ exponent : ℚ) ≤ (2 ^ 53 - 1) * (2 ^ unit * 2⁻¹) :=
        mul_le_mul (by linarith) powers (by positivity) (by norm_num)
    _ = (2 ^ 52 - 1 / 2) * 2 ^ unit := by ring

/-- Every other double is at least a unit above a double, or twice as far below it as the rationals
around it reach. -/
theorem separated (canonical : Canonical mantissa exponent)
    (canonical' : Canonical mantissa' exponent') :
    (mantissa' * 2 ^ exponent' / 2 ^ exponent : ℚ) ≤ mantissa - 2 * reach mantissa exponent ∨
      (mantissa' * 2 ^ exponent' / 2 ^ exponent : ℚ) = mantissa ∨
        mantissa + 1 ≤ (mantissa' * 2 ^ exponent' / 2 ^ exponent : ℚ) := by
  have half := (reach_bounds mantissa exponent).2
  rcases Int.lt_or_le exponent' exponent with finer | coarser
  · left
    have below := units_of_lt canonical' finer
    have normal : 2 ^ 52 ≤ mantissa := canonical.full.resolve_right (by
      have := canonical'.least
      omega)
    have least := canonical'.least
    rcases Nat.eq_or_lt_of_le normal with power | larger
    · have quarter : reach mantissa exponent = 1 / 4 := if_pos ⟨power.symm, by omega⟩
      rw [quarter, ← power]
      push_cast
      linarith
    · have larger : (2 ^ 52 + 1 : ℚ) ≤ mantissa := by exact_mod_cast larger
      linarith
  · rw [units_of_le mantissa' coarser]
    generalize mantissa' * 2 ^ (exponent' - exponent).toNat = units
    rcases Nat.lt_trichotomy units mantissa with less | same | more
    · left
      have less : (units + 1 : ℚ) ≤ mantissa := by exact_mod_cast less
      linarith
    · exact .inr (.inl (by exact_mod_cast same))
    · exact .inr (.inr (by exact_mod_cast more))

section Apart

variable {m r y other : ℚ} (bounds : 0 < r ∧ r ≤ 1 / 2)
  (apart : other ≤ m - 2 * r ∨ other = m ∨ m + 1 ≤ other)

include bounds apart

/-- What is so far apart from a number is no closer to what is near the number. -/
theorem near_of_apart (low : m - r ≤ y) (high : y ≤ m + 1 / 2) : |m - y| ≤ |other - y| := by
  obtain ⟨pos, half⟩ := bounds
  rcases apart with below | rfl | above
  · have distance : |other - y| = y - other := by
      rw [abs_sub_comm, abs_of_nonneg (by linarith)]
    rw [distance]
    exact abs_le.mpr ⟨by linarith, by linarith⟩
  · exact le_refl _
  · have distance : |other - y| = other - y := abs_of_nonneg (by linarith)
    rw [distance]
    exact abs_le.mpr ⟨by linarith, by linarith⟩

theorem nearer_of_apart (low : m - r < y) (high : y < m + 1 / 2) (ne : other ≠ m) :
    |m - y| < |other - y| := by
  obtain ⟨pos, half⟩ := bounds
  rcases apart with below | same | above
  · have distance : |other - y| = y - other := by
      rw [abs_sub_comm, abs_of_nonneg (by linarith)]
    rw [distance]
    exact abs_lt.mpr ⟨by linarith, by linarith⟩
  · exact absurd same ne
  · have distance : |other - y| = other - y := abs_of_nonneg (by linarith)
    rw [distance]
    exact abs_lt.mpr ⟨by linarith, by linarith⟩

end Apart

/-- **No double is closer** to a rational than the one that the rational is around. -/
theorem closest_of_around (canonical : Canonical mantissa exponent)
    (canonical' : Canonical mantissa' exponent') (around : Around mantissa exponent x) :
    |(mantissa * 2 ^ exponent : ℚ) - x| ≤ |mantissa' * 2 ^ exponent' - x| := by
  have unit : (0 : ℚ) < 2 ^ exponent := by positivity
  have low : mantissa - reach mantissa exponent ≤ x / 2 ^ exponent := around.low
  have apart := separated canonical canonical'
  have inUnits (value : ℚ) : value = value / 2 ^ exponent * 2 ^ exponent :=
    (div_mul_cancel₀ _ unit.ne').symm
  rw [inUnits x, inUnits (mantissa' * 2 ^ exponent'), ← sub_mul, ← sub_mul, abs_mul, abs_mul]
  refine mul_le_mul_of_nonneg_right ?_ (abs_nonneg _)
  exact near_of_apart (reach_bounds mantissa exponent) apart low around.high

/-! ## The double around which a rational is -/

/-- A mantissa that is nearest is that of the double, unless the double below is nearer. -/
theorem around_of_isNearest (nearest : IsNearest mantissa (x / 2 ^ exponent))
    (above : mantissa = 2 ^ 52 → -1074 < exponent → 2 ^ 52 ≤ x / 2 ^ exponent) :
    Around mantissa exponent x := by
  obtain ⟨low, high, tie⟩ := nearest
  by_cases power : mantissa = 2 ^ 52 ∧ -1074 < exponent
  · have above := above power.1 power.2
    have low : (mantissa : ℚ) - 1 / 4 ≤ x / 2 ^ exponent := by
      rw [power.1]
      push_cast
      linarith
    exact ⟨by rwa [if_pos power], high, .inl (by omega)⟩
  · exact ⟨by rwa [if_neg power], high, by rwa [if_neg power]⟩

/-- A mantissa that is nearest may be the power of two above. -/
theorem around_of_carry (nearest : IsNearest (2 ^ 53) (x / 2 ^ exponent))
    (below : x / 2 ^ exponent < 2 ^ 53) : Around (2 ^ 52) (exponent + 1) x := by
  have low := nearest.1
  push_cast at low
  have half : x / 2 ^ (exponent + 1) = x / 2 ^ exponent / 2 := by
    rw [zpow_add_one₀ two_ne_zero, div_div]
  refine ⟨?_, ?_, .inl rfl⟩
  · rw [half]
    push_cast
    split <;> linarith
  · rw [half]
    push_cast
    linarith

/-- There is a power of two in units of which a rational has the length of a mantissa, unless it is
too small for a mantissa of full length. -/
theorem exists_scale (pos : 0 < x) (wide : x < 2 ^ (1024 : ℤ)) :
    ∃ unit : ℤ, -1074 ≤ unit ∧ unit ≤ 971 ∧ x / 2 ^ unit < 2 ^ 53 ∧
      (unit = -1074 ∨ 2 ^ 52 ≤ x / 2 ^ unit) := by
  have lower := Int.zpow_log_le_self (b := 2) one_lt_two pos
  have upper := Int.lt_zpow_succ_log_self (b := 2) one_lt_two x
  push_cast at lower upper
  generalize Int.log 2 x = leading at lower upper
  have top : leading < 1024 :=
    (zpow_lt_zpow_iff_right₀ one_lt_two).mp (lt_of_le_of_lt lower wide)
  obtain ⟨unit, is⟩ : ∃ unit, unit = max (leading - 52) (-1074) := ⟨_, rfl⟩
  have positive : (0 : ℚ) < 2 ^ unit := by positivity
  refine ⟨unit, by omega, by omega, ?_, ?_⟩
  · rw [div_lt_iff₀ positive, ← zpow_natCast, ← zpow_add₀ two_ne_zero]
    exact lt_of_lt_of_le upper (zpow_le_zpow_right₀ one_le_two (by push_cast; omega))
  · rcases Int.le_total (leading - 52) (-1074) with least | more
    · exact .inl (by omega)
    · right
      rw [le_div_iff₀ positive, ← zpow_natCast, ← zpow_add₀ two_ne_zero]
      exact le_trans (zpow_le_zpow_right₀ one_le_two (by push_cast; omega)) lower

/-- **Every positive rational in the range of the doubles is around a double.** -/
theorem exists_around (least : 2 ^ (-1075 : ℤ) < x)
    (greatest : x < (2 ^ 53 - 1 / 2) * 2 ^ (971 : ℤ)) :
    ∃ mantissa exponent, ∃ _ : Canonical mantissa exponent, Around mantissa exponent x := by
  have pos : 0 < x := lt_trans (by positivity) least
  have wide : x < 2 ^ (1024 : ℤ) := by
    calc x < (2 ^ 53 - 1 / 2) * 2 ^ (971 : ℤ) := greatest
      _ ≤ 2 ^ 53 * 2 ^ (971 : ℤ) := mul_le_mul_of_nonneg_right (by norm_num) (by positivity)
      _ = 2 ^ ((53 : ℕ) + (971 : ℤ)) := by rw [zpow_add₀ two_ne_zero, zpow_natCast]
  obtain ⟨unit, notLess, notMore, below, normal⟩ := exists_scale pos wide
  have positive : (0 : ℚ) < 2 ^ unit := by positivity
  obtain ⟨nearest, isNearest⟩ := exists_isNearest (div_pos pos positive).le
  have some : 0 < nearest := by
    refine Nat.pos_of_ne_zero fun none => ?_
    have high := isNearest.2.1
    rw [none, Nat.cast_zero, zero_add] at high
    rcases normal with rfl | full
    · rw [div_le_iff₀ positive] at high
      have half : (1 / 2 : ℚ) * 2 ^ (-1074 : ℤ) = 2 ^ (-1075 : ℤ) := by
        rw [show (-1075 : ℤ) = -1074 - 1 from rfl, zpow_sub_one₀ two_ne_zero]
        ring
      linarith
    · norm_num at full
      linarith
  have small : nearest ≤ 2 ^ 53 := by
    by_contra large
    have large : (2 ^ 53 + 1 : ℚ) ≤ nearest := by exact_mod_cast Nat.lt_of_not_le large
    linarith [isNearest.1]
  have full : 2 ^ 52 ≤ nearest ∨ unit = -1074 := by
    refine normal.symm.imp_left fun full => ?_
    by_contra less
    have less : (nearest + 1 : ℚ) ≤ 2 ^ 52 := by exact_mod_cast Nat.lt_of_not_le less
    linarith [isNearest.2.1]
  rcases Nat.eq_or_lt_of_le small with rfl | small
  · have notTop : unit ≠ 971 := by
      refine fun is => absurd greatest (not_le_of_gt · ?_)
      rw [← is, ← le_div_iff₀ positive]
      exact_mod_cast isNearest.1
    exact ⟨2 ^ 52, unit + 1, ⟨by decide, by decide, by omega, by omega, .inl (Nat.le_refl _)⟩,
      around_of_carry isNearest below⟩
  · refine ⟨nearest, unit, ⟨some, small, by omega, by omega, full⟩,
      around_of_isNearest isNearest fun _ more => ?_⟩
    exact normal.resolve_left (by omega)

end Reckoner.Decimal
