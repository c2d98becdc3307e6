import Reckoner.Decimal.Fixed
import Reckoner.Proofs.Decimal.Order

/-!
# Rounding to decimal places

A double is rounded to the nearest multiple of a power of ten, and this decimal to the nearest
double. That double rounds to the same multiple (`Reckoner.Decimal.unitsOf_roundTo`), since no
double is closer to it: where doubles are coarser than the decimals the double itself comes back,
and a tie stays a tie or is decided for the multiple that it went to.
-/

namespace Reckoner.Decimal

open Float.Model Float.Model.UnpackedFloat

variable {mantissa : ℕ} {exponent : ℤ}

/-! ## The nearest multiple -/

theorem isNearest_unitsOf (places : ℕ) (x : Float) :
    IsNearest (unitsOf places x) (|exact x| * 10 ^ places) := by
  have nearest := isNearest_roundDiv ((Binary.ofFloat x).numerator * 10 ^ places)
    (denominator_pos (Binary.ofFloat x))
  rw [abs_exact]
  push_cast at nearest
  rwa [mul_div_right_comm] at nearest

/-- What is a multiple needs no rounding. -/
theorem unitsOf_of_multiple {places units : ℕ} {x : Float}
    (is : |exact x| * 10 ^ places = units) : unitsOf places x = units := by
  have nearest := isNearest_unitsOf places x
  rw [is] at nearest
  exact nearest.unique (isNearest_self units)

/-! ## The nearest double to the nearest multiple -/

/-- Past the places that rounding could change, the nearest multiple is around the double. -/
theorem around_of_fine (canonical : Canonical mantissa exponent) {places units : ℕ}
    (fine : roundedPlaces < places)
    (nearest : IsNearest units (mantissa * 2 ^ exponent * 10 ^ places)) :
    Around mantissa exponent (units / 10 ^ places) := by
  have unit : (0 : ℚ) < 2 ^ exponent := by positivity
  have tens : (0 : ℚ) < 10 ^ places := by positivity
  -- The multiples are more than twice as close as any two doubles.
  have close : (2 : ℚ) < 2 ^ exponent * 10 ^ places := by
    have powers : (2 : ℚ) ^ 1075 < 10 ^ 324 := by
      have lt : 2 ^ 1075 < 10 ^ 324 := by decide +kernel
      exact_mod_cast lt
    have least : (2 : ℚ) ^ (-1074 : ℤ) ≤ 2 ^ exponent :=
      zpow_le_zpow_right₀ one_le_two canonical.least
    calc (2 : ℚ) = 2 ^ (-1074 : ℤ) * 2 ^ 1075 := by
          rw [← zpow_natCast, ← zpow_add₀ two_ne_zero]
          rfl
      _ < 2 ^ (-1074 : ℤ) * 10 ^ 324 := mul_lt_mul_of_pos_left powers (by positivity)
      _ ≤ 2 ^ exponent * 10 ^ places :=
        mul_le_mul least (pow_le_pow_right₀ (by norm_num) fine) (by positivity) unit.le
  have near : |(units : ℚ) / 10 ^ places / 2 ^ exponent - mantissa| < 1 / 4 := by
    have spread : (0 : ℚ) < 2 ^ exponent * 10 ^ places := by positivity
    have distance := nearest.abs_sub_le
    rw [abs_sub_comm, mul_assoc] at distance
    rw [div_div, mul_comm (10 ^ places : ℚ), div_sub' spread.ne', abs_div, abs_of_pos spread,
      div_lt_iff₀ spread, mul_comm _ (mantissa : ℚ)]
    linarith
  have ⟨low, high⟩ := abs_lt.mp near
  have quarter : (1 / 4 : ℚ) ≤ reach mantissa exponent := by
    unfold reach
    split <;> norm_num
  have below : mantissa - reach mantissa exponent < (units : ℚ) / 10 ^ places / 2 ^ exponent := by
    linarith
  exact ⟨below.le, by linarith, .inr ⟨below, by linarith⟩⟩

/-- The nearest multiple, other than zero, is around a double. -/
theorem exists_around_units (canonical : Canonical mantissa exponent) (fractional : exponent < 0)
    {places units : ℕ} (coarse : places ≤ roundedPlaces) (some : 0 < units)
    (nearest : IsNearest units (mantissa * 2 ^ exponent * 10 ^ places)) :
    ∃ mantissa' exponent', ∃ _ : Canonical mantissa' exponent',
      Around mantissa' exponent' (units / 10 ^ places) := by
  have tens : (0 : ℚ) < 10 ^ places := by positivity
  apply exists_around
  · have one : (1 : ℚ) ≤ units := by exact_mod_cast some
    have powers : (10 : ℚ) ^ 323 < 2 ^ 1075 := by
      have lt : 10 ^ 323 < 2 ^ 1075 := by decide +kernel
      exact_mod_cast lt
    rw [lt_div_iff₀ tens]
    calc (2 : ℚ) ^ (-1075 : ℤ) * 10 ^ places ≤ 2 ^ (-1075 : ℤ) * 10 ^ 323 :=
          mul_le_mul_of_nonneg_left (pow_le_pow_right₀ (by norm_num) coarse) (by positivity)
      _ < 2 ^ (-1075 : ℤ) * 2 ^ 1075 := mul_lt_mul_of_pos_left powers (by positivity)
      _ = 1 := by
        rw [← zpow_natCast, ← zpow_add₀ two_ne_zero]
        rfl
      _ ≤ units := one
  · have small : (mantissa : ℚ) < 2 ^ 53 := by exact_mod_cast canonical.small
    have powers : (2 : ℚ) ^ exponent ≤ 1 :=
      zpow_le_one_of_nonpos₀ one_le_two (Int.le_of_lt fractional)
    have size : (mantissa * 2 ^ exponent : ℚ) < 2 ^ 53 :=
      lt_of_le_of_lt (mul_le_of_le_one_right (Nat.cast_nonneg _) powers) small
    have one : (1 : ℚ) ≤ 10 ^ places := one_le_pow₀ (by norm_num)
    rw [div_lt_iff₀ tens]
    calc (units : ℚ) ≤ mantissa * 2 ^ exponent * 10 ^ places + 1 / 2 := by linarith [nearest.1]
      _ ≤ 2 ^ 53 * 10 ^ places + 1 / 2 * 10 ^ places := by
        have scaled := mul_le_mul_of_nonneg_right size.le tens.le
        linarith
      _ = (2 ^ 53 + 1 / 2) * 10 ^ places := by ring
      _ < (2 ^ 53 - 1 / 2) * 2 ^ (971 : ℤ) * 10 ^ places := by
        have wide : (2 : ℚ) ^ (1 : ℤ) ≤ 2 ^ (971 : ℤ) :=
          zpow_le_zpow_right₀ one_le_two (by decide)
        refine mul_lt_mul_of_pos_right ?_ tens
        rw [zpow_one] at wide
        generalize (2 : ℚ) ^ (971 : ℤ) = range at wide ⊢
        linarith

/-- A double that is not whole is rounded to a zero with its sign, or to the double with its sign
around which the nearest multiple is. -/
theorem roundTo_ofForm (sign : Sign) (canonical : Canonical mantissa exponent)
    (fractional : exponent < 0) {places units : ℕ}
    (is : unitsOf places (ofForm (.finite sign mantissa exponent canonical.pos)) = units) :
    units = 0 ∧ roundTo places (ofForm (.finite sign mantissa exponent canonical.pos)) =
        ofForm (.zero sign) ∨
      ∃ mantissa' exponent', ∃ canonical' : Canonical mantissa' exponent',
        Around mantissa' exponent' (units / 10 ^ places) ∧
          roundTo places (ofForm (.finite sign mantissa exponent canonical.pos)) =
            ofForm (.finite sign mantissa' exponent' canonical'.pos) := by
  have nearest := isNearest_unitsOf places (ofForm (.finite sign mantissa exponent canonical.pos))
  rw [is, size_ofForm sign canonical] at nearest
  unfold roundTo
  by_cases fine : roundedPlaces < places
  · rw [if_pos fine]
    exact .inr ⟨_, _, canonical, around_of_fine canonical fine nearest, rfl⟩
  · rw [if_neg fine, is, signBit_ofForm sign canonical]
    dsimp only
    rcases Nat.eq_zero_or_pos units with rfl | some
    · left
      rw [ofScientific_zero]
      cases sign with
      | positive => exact ⟨rfl, rfl⟩
      | negative => exact ⟨rfl, neg_ofForm (.zero .positive)⟩
    · right
      obtain ⟨mantissa', exponent', canonical', around⟩ :=
        exists_around_units canonical fractional (Nat.le_of_not_lt fine) some nearest
      refine ⟨_, _, canonical', around, ?_⟩
      have power : (units / 10 ^ places : ℚ) = units * 10 ^ (-places : ℤ) := by
        rw [zpow_neg, zpow_natCast, div_eq_mul_inv]
      rw [power] at around
      rw [ofScientific_of_around canonical' around (if_pos rfl)]
      cases sign with
      | positive => rfl
      | negative => exact neg_ofForm (.finite .positive canonical')

section Rounding

variable {x : Float} (finite : x.isFinite = true) (notWhole : isWhole x = false) (places : ℕ)

include finite notWhole

theorem isFinite_roundTo : (roundTo places x).isFinite = true := by
  obtain ⟨sign, mantissa, exponent, canonical, fractional, rfl⟩ :=
    exists_fractional_form finite notWhole
  rcases roundTo_ofForm sign canonical fractional rfl with
    ⟨_, is⟩ | ⟨mantissa', exponent', canonical', _, is⟩
  · rw [is]
    exact isFinite_ofForm (.zero sign)
  · rw [is]
    exact isFinite_ofForm (.finite sign canonical')

theorem signBit_roundTo : signBit (roundTo places x) = signBit x := by
  obtain ⟨sign, mantissa, exponent, canonical, fractional, rfl⟩ :=
    exists_fractional_form finite notWhole
  rw [signBit_ofForm sign canonical]
  rcases roundTo_ofForm sign canonical fractional rfl with
    ⟨_, is⟩ | ⟨mantissa', exponent', canonical', _, is⟩
  · rw [is]
    cases sign <;> rfl
  · rw [is, signBit_ofForm sign canonical']

/-- **Rounding twice is harmless.** The double nearest to the nearest multiple has the same nearest
multiple. -/
theorem unitsOf_roundTo : unitsOf places (roundTo places x) = unitsOf places x := by
  have nearest := isNearest_unitsOf places x
  obtain ⟨sign, mantissa, exponent, canonical, fractional, rfl⟩ :=
    exists_fractional_form finite notWhole
  rcases roundTo_ofForm sign canonical fractional rfl with
    ⟨none, is⟩ | ⟨mantissa', exponent', canonical', around, is⟩
  · rw [is, none]
    refine unitsOf_of_multiple ?_
    rw [exact_zero sign, abs_zero, zero_mul, Nat.cast_zero]
  · have tens : (0 : ℚ) < 10 ^ places := by positivity
    have closest := closest_of_around canonical' canonical around
    have scaled (value : ℚ) (units : ℕ) :
        |value * 10 ^ places - units| = |value - units / 10 ^ places| * 10 ^ places := by
      rw [← abs_of_pos tens, ← abs_mul, abs_of_pos tens, sub_mul, div_mul_cancel₀ _ tens.ne']
    have closer := mul_le_mul_of_nonneg_right closest tens.le
    rw [← scaled, ← scaled] at closer
    rw [size_ofForm sign canonical] at nearest
    have rounded := isNearest_unitsOf places (roundTo places
      (ofForm (.finite sign mantissa exponent canonical.pos)))
    rw [is, size_ofForm sign canonical'] at rounded
    rw [is]
    exact rounded.unique (nearest.of_closer closer)

/-- Printing the rounded double prints the double itself. -/
theorem fixed_roundTo : fixed places (roundTo places x) = fixed places x := by
  unfold fixed
  rw [unitsOf_roundTo finite notWhole, signBit_roundTo finite notWhole]

end Rounding

/-! ## Digits in front of the point -/

/-- So many digits are enough exactly below a power of ten. -/
theorem wholeDigits_le_iff (x : Float) (count : ℕ) :
    wholeDigits x ≤ count ↔ |exact x| < 10 ^ count := by
  have pos := denominator_pos (Binary.ofFloat x)
  have whole : (toInteger x).natAbs =
      (Binary.ofFloat x).numerator / (Binary.ofFloat x).denominator := by
    unfold toInteger
    dsimp only
    split
    · rw [Int.natAbs_neg, Int.natAbs_natCast]
    · rw [Int.natAbs_natCast]
  have below : |exact x| < 10 ^ count ↔ (toInteger x).natAbs < 10 ^ count := by
    rw [abs_exact, div_lt_iff₀ (by exact_mod_cast pos), whole, Nat.div_lt_iff_lt_mul pos]
    exact_mod_cast Iff.rfl
  rw [below, wholeDigits]
  generalize (toInteger x).natAbs = n
  split
  · rename_i none
    rw [none]
    exact iff_of_true (Nat.zero_le _) (by positivity)
  · rename_i some
    cases count with
    | zero =>
        have digits := @Nat.length_toDigits_pos 10 n
        exact iff_of_false (Nat.not_le.mpr digits) (by omega)
    | succ count => exact Nat.length_toDigits_le_iff (by decide) (Nat.succ_pos count)

theorem wholeDigits_le_of_isFinite {x : Float} (finite : x.isFinite = true) :
    wholeDigits x ≤ 309 := by
  rw [wholeDigits_le_iff]
  have powers : (2 : ℚ) ^ 1024 ≤ 10 ^ 309 := by
    have le : 2 ^ 1024 ≤ 10 ^ 309 := by decide +kernel
    exact_mod_cast le
  obtain ⟨unpacked, form, rfl⟩ := exists_form finite
  cases form with
  | zero sign =>
      rw [exact_zero sign, abs_zero]
      positivity
  | @finite sign mantissa exponent canonical =>
      rw [size_ofForm sign canonical]
      have small : (mantissa : ℚ) < 2 ^ 53 := by exact_mod_cast canonical.small
      calc (mantissa * 2 ^ exponent : ℚ) < 2 ^ 53 * 2 ^ exponent :=
            mul_lt_mul_of_pos_right small (by positivity)
        _ ≤ 2 ^ 53 * 2 ^ (971 : ℤ) := mul_le_mul_of_nonneg_left
            (zpow_le_zpow_right₀ one_le_two canonical.greatest) (by positivity)
        _ = 2 ^ 1024 := by
            rw [← zpow_natCast, ← zpow_natCast, ← zpow_add₀ two_ne_zero]
            rfl
        _ ≤ 10 ^ 309 := powers

/-! ## The text -/

/-- From so many places on all digits of a double are zeros. -/
theorem exists_multiple {x : Float} (finite : x.isFinite = true) {places : ℕ}
    (enough : 1074 ≤ places) : ∃ units : ℕ, |exact x| * 10 ^ places = units := by
  obtain ⟨unpacked, form, rfl⟩ := exists_form finite
  cases form with
  | zero sign => exact ⟨0, by rw [exact_zero sign, abs_zero, zero_mul, Nat.cast_zero]⟩
  | @finite sign mantissa exponent canonical =>
      have least := canonical.least
      refine ⟨mantissa * 2 ^ (exponent + places).toNat * 5 ^ places, ?_⟩
      have tens : (10 : ℚ) ^ places = 2 ^ places * 5 ^ places := by
        rw [← mul_pow]
        norm_num
      have twos : (2 : ℚ) ^ exponent * 2 ^ places = 2 ^ (exponent + places).toNat := by
        rw [← zpow_natCast, ← zpow_natCast, ← zpow_add₀ two_ne_zero]
        congr 1
        omega
      rw [size_ofForm sign canonical, tens]
      push_cast
      rw [← twos]
      ring

/-- Once a double is a multiple, more places are zeros at the end. -/
theorem fixed_add {places units : ℕ} {x : Float} (some : 0 < units) (pos : 0 < places)
    (is : |exact x| * 10 ^ places = units) (more : ℕ) :
    fixed (places + more) x = fixed places x ++ List.replicate more '0' := by
  have finer : |exact x| * 10 ^ (places + more) = (units * 10 ^ more : ℕ) := by
    rw [pow_add, ← mul_assoc, is]
    push_cast
    rfl
  unfold fixed
  rw [unitsOf_of_multiple is, unitsOf_of_multiple finer, toDigits_mul_pow some]
  dsimp only
  have zeros : places + more + 1 - (Nat.toDigits 10 units ++ List.replicate more '0').length =
      places + 1 - (Nat.toDigits 10 units).length := by
    rw [List.length_append, List.length_replicate]
    omega
  rw [zeros, ← List.append_assoc]
  generalize List.replicate _ '0' ++ Nat.toDigits 10 units = padded
  have whole : (padded ++ List.replicate more '0').length - (places + more) =
      padded.length - places := by
    rw [List.length_append, List.length_replicate]
    omega
  have inside : padded.length - places ≤ padded.length := Nat.sub_le _ _
  have notNone (count : ℕ) (some : 0 < count) : (count == 0) = false := by
    rw [beq_eq_false_iff_ne]
    omega
  rw [whole, List.take_append_of_le_length inside, List.drop_append_of_le_length inside,
    notNone places pos, notNone (places + more) (by omega)]
  simp only [Bool.false_eq_true, if_false]
  split <;> simp only [List.cons_append, List.append_assoc]

end Reckoner.Decimal
