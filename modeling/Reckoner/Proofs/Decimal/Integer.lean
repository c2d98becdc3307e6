import Reckoner.Proofs.Decimal.Order

/-!
# Doubles nearest to natural numbers

A natural number is rounded once, to the nearest double and from a tie to an even mantissa
(`Reckoner.Decimal.exists_ofInteger?`). From half way between the largest double and the next power
of two on there is no double for it (`Reckoner.Decimal.ofInteger?_eq_none`).
-/

namespace Reckoner.Decimal

open Float.Model Float.Model.UnpackedFloat

variable {mantissa : ℕ} {exponent : ℤ} {x : ℚ}

/-- The double is nearest to a rational, with an even mantissa if another one is as near. It has the
sign of the rational. -/
structure RoundsTo (x : ℚ) (y : Float) : Prop where
  finite : y.isFinite = true
  nearest : ∀ z : Float, z.isFinite = true → |exact y - x| ≤ |exact z - x|
  even : ∀ z : Float, z.isFinite = true → exact z ≠ exact y → |exact z - x| = |exact y - x| →
    (Binary.ofFloat y).mantissa % 2 = 0
  sign : signBit y = decide (x < 0)

/-! ## Within the doubles -/

/-- What keeps other doubles apart from a positive one keeps zero and the negative ones apart. -/
theorem apart_of_isFinite (canonical : Canonical mantissa exponent) {z : Float}
    (finite : z.isFinite = true) :
    exact z / 2 ^ exponent ≤ mantissa - 2 * reach mantissa exponent ∨
      exact z / 2 ^ exponent = mantissa ∨ mantissa + 1 ≤ exact z / 2 ^ exponent := by
  have half := (reach_bounds mantissa exponent).2
  have one : (1 : ℚ) ≤ mantissa := by exact_mod_cast canonical.pos
  obtain ⟨unpacked, form, rfl⟩ := exists_form finite
  cases form with
  | zero sign =>
      left
      rw [exact_zero sign, zero_div]
      linarith
  | @finite sign mantissa' exponent' canonical' =>
      rw [exact_ofForm sign canonical']
      split
      · left
        have size : 0 ≤ (mantissa' * 2 ^ exponent' / 2 ^ exponent : ℚ) := by positivity
        rw [neg_div]
        linarith
      · exact separated canonical canonical'

theorem roundsTo_of_around (canonical : Canonical mantissa exponent)
    (around : Around mantissa exponent x) :
    RoundsTo x (ofForm (.finite .positive mantissa exponent canonical.pos)) := by
  have unit : (0 : ℚ) < 2 ^ exponent := by positivity
  have value : exact (ofForm (.finite .positive mantissa exponent canonical.pos)) =
      mantissa * 2 ^ exponent := exact_ofForm .positive canonical
  have distance (z : Float) :
      |exact z - x| = |exact z / 2 ^ exponent - x / 2 ^ exponent| * 2 ^ exponent := by
    rw [← sub_div, abs_div, abs_of_pos unit, div_mul_cancel₀ _ unit.ne']
  have own : exact (ofForm (.finite .positive mantissa exponent canonical.pos)) / 2 ^ exponent =
      mantissa := by
    rw [value, mul_div_cancel_right₀ _ unit.ne']
  have low : mantissa - reach mantissa exponent ≤ x / 2 ^ exponent := around.low
  refine ⟨isFinite_ofForm (.finite _ canonical), fun z finite => ?_, fun z finite other same => ?_,
    ?_⟩
  · rw [distance, distance z, own]
    refine mul_le_mul_of_nonneg_right ?_ unit.le
    exact near_of_apart (reach_bounds mantissa exponent) (apart_of_isFinite canonical finite) low
      around.high
  · rw [ofFloat_ofForm .positive canonical]
    rcases around.tie with even | ⟨strictLow, strictHigh⟩
    · exact even
    · have ne : exact z / 2 ^ exponent ≠ mantissa := by
        rwa [← own, Ne, div_left_inj' unit.ne']
      have nearer := nearer_of_apart (reach_bounds mantissa exponent)
        (apart_of_isFinite canonical finite) strictLow strictHigh ne
      rw [distance z, distance (ofForm _), own, mul_left_inj' unit.ne'] at same
      exact absurd same nearer.ne'
  · have pos : 0 < x :=
      lt_of_lt_of_le (by positivity) (least_of_around canonical around)
    rw [signBit_ofForm .positive canonical, decide_eq_false (not_lt_of_ge pos.le)]
    rfl

theorem roundsTo_zero : RoundsTo 0 0 := by
  have zero : exact 0 = 0 := exact_zero .positive
  refine ⟨rfl, fun z _ => ?_, fun z _ other same => ?_, rfl⟩
  · rw [zero, sub_zero, abs_zero]
    exact abs_nonneg _
  · rw [zero, sub_zero, sub_zero, abs_zero, abs_eq_zero] at same
    exact absurd (same.trans zero.symm) other

/-! ## Natural numbers -/

/-- Half way between the largest double and the next power of two. -/
def overflowBound : ℕ := 2 ^ 1024 - 2 ^ 970

theorem cast_overflowBound : (overflowBound : ℚ) = (2 ^ 53 - 1 / 2) * 2 ^ 971 := by
  have le : 2 ^ 970 ≤ 2 ^ 1024 := pow_le_pow_right₀ one_le_two (by decide)
  have top : (2 : ℚ) ^ 1024 = 2 ^ 53 * 2 ^ 971 := by rw [← pow_add]
  have half : (2 : ℚ) ^ 971 = 2 ^ 970 * 2 := pow_succ 2 970
  rw [overflowBound, Nat.cast_sub le, Nat.cast_pow, Nat.cast_pow, Nat.cast_ofNat, top, half]
  generalize (2 : ℚ) ^ 970 = unit
  ring

theorem pow_le_overflowBound : 2 ^ 1023 ≤ overflowBound := by
  have le : 2 ^ 970 ≤ 2 ^ 1023 := pow_le_pow_right₀ one_le_two (by decide)
  have twice : 2 ^ 1024 = 2 ^ 1023 + 2 ^ 1023 := by rw [← Nat.mul_two, ← pow_succ]
  rw [overflowBound, twice]
  exact Nat.le_sub_of_add_le (Nat.add_le_add_left le _)

theorem overflowBound_le_pow : overflowBound ≤ 2 ^ 1024 := by
  rw [overflowBound]
  exact tsub_le_self

-- The bound is too large to be computed whenever two terms with it are compared.
attribute [irreducible] overflowBound

/-- A natural number below the bound is rounded to the nearest double. -/
theorem exists_ofInteger? {n : ℕ} (below : n < overflowBound) :
    ∃ y, ofInteger? n = some y ∧ RoundsTo n y := by
  have lengths : n.log2 < 1024 := by
    rcases Nat.eq_zero_or_pos n with rfl | pos
    · decide
    · have shorter (k : ℕ) (lt : n < 2 ^ k) : n.log2 < k := (Nat.log2_lt pos.ne').mpr lt
      exact shorter 1024 (lt_of_lt_of_le below overflowBound_le_pow)
  have converted {y : Float} (is : Float.ofScientific n false 0 = y) (rounds : RoundsTo n y) :
      ofInteger? n = some y := by
    have unsigned : ¬((n : ℤ) < 0) := by omega
    rw [ofInteger?, Int.natAbs_natCast, if_neg (by omega), is]
    dsimp only
    rw [rounds.finite, if_pos rfl, if_neg unsigned]
  rcases Nat.eq_zero_or_pos n with rfl | pos
  · have rounds : RoundsTo (0 : ℕ) 0 := by
      rw [Nat.cast_zero]
      exact roundsTo_zero
    exact ⟨0, converted (ofScientific_zero false 0) rounds, rounds⟩
  · have least : (2 : ℚ) ^ (-1075 : ℤ) < n := by
      have one : (1 : ℚ) ≤ n := by exact_mod_cast pos
      have small : (2 : ℚ) ^ (-1075 : ℤ) < 1 := zpow_lt_one_of_neg₀ one_lt_two (by decide)
      linarith
    have greatest : (n : ℚ) < (2 ^ 53 - 1 / 2) * 2 ^ ((971 : ℕ) : ℤ) := by
      rw [zpow_natCast, ← cast_overflowBound]
      exact_mod_cast below
    obtain ⟨mantissa, exponent, canonical, around⟩ := exists_around least greatest
    have rounds := roundsTo_of_around canonical around
    have scaled : Around mantissa exponent (n * 10 ^ (0 : ℤ)) := by
      rwa [zpow_zero, mul_one]
    exact ⟨_, converted (ofScientific_of_around canonical scaled rfl) rounds, rounds⟩

theorem log2_mul_pow {n : ℕ} (some : n ≠ 0) (count : ℕ) :
    (n * 2 ^ count).log2 = n.log2 + count := by
  rw [Nat.log2_eq_iff (Nat.mul_ne_zero some (Nat.two_pow_pos count).ne'), Nat.add_right_comm,
    pow_add, pow_add]
  exact ⟨Nat.mul_le_mul_right _ (Nat.log2_self_le some),
    Nat.mul_lt_mul_of_pos_right Nat.lt_log2_self (Nat.two_pow_pos count)⟩

/-- From the bound on the mantissa is rounded up to a power of two, for which there is no
exponent. -/
theorem unpacked_of_overflow {n : ℕ} (past : overflowBound ≤ n) (length : n.log2 = 1023) :
    UnpackedFloat.ofScientific Format.binary64 n 0 =
      .finite .positive (2 ^ 52) 972 (Nat.two_pow_pos 52) := by
  have some : n ≠ 0 := fun none => by
    rw [none] at length
    cases length
  have below : (n : ℚ) < 2 ^ (1023 + 1) := by
    rw [← length]
    exact_mod_cast Nat.lt_log2_self
  have digits : n <<< 53 * 10 ^ 0 = n * 2 ^ 53 := by
    rw [Nat.shiftLeft_eq, pow_zero, Nat.mul_one]
  have target : Format.binary64.targetExponent (totalExponent (n * 2 ^ 53) (-53 + 0)) = 971 := by
    rw [targetExponent_eq, totalExponent, log2_mul_pow some, length]
    rfl
  have stands := stands_shiftRight (stands_exact (n * 2 ^ 53)) (53 + 971)
  have nearest : IsNearest (2 ^ 53) (((n * 2 ^ 53 : ℕ) : ℚ) / 2 ^ (53 + 971)) := by
    have unit : (0 : ℚ) < 2 ^ 971 := by positivity
    have low : (2 ^ 53 - 1 / 2 : ℚ) ≤ n / 2 ^ 971 := by
      rw [le_div_iff₀ unit, ← cast_overflowBound]
      exact_mod_cast past
    have high : (n / 2 ^ 971 : ℚ) < 2 ^ 53 := by
      rw [div_lt_iff₀ unit, ← pow_add]
      exact below
    have units : ((n * 2 ^ 53 : ℕ) : ℚ) / 2 ^ (53 + 971) = n / 2 ^ 971 := by
      rw [Nat.cast_mul, Nat.cast_pow, Nat.cast_ofNat, pow_add, mul_comm,
        mul_div_mul_left _ _ (by positivity)]
    rw [units]
    generalize (n / 2 ^ 971 : ℚ) = y at low high
    refine ⟨?_, ?_, .inl rfl⟩ <;> push_cast <;> linarith
  have rounded : roundWithAccuracy Format.binary64 (.positive * .positive) (n * 2 ^ 53) (-53 + 0)
      .exact = .finite .positive (2 ^ 52) 972 (Nat.two_pow_pos 52) := by
    refine roundWithAccuracy_of_shifts _ (shiftToTargetExponent_eq .exact target (by decide)) ?_
      (Nat.two_pow_pos 52)
    have count : ((971 : ℤ) - (-53 + 0)).toNat = 53 + 971 := rfl
    rw [count, roundedMantissa_of_isNearest stands nearest]
    exact @shiftToTargetExponent_carry 972 (by decide)
  unfold UnpackedFloat.ofScientific
  rw [dif_neg some]
  change (if (2048 : ℤ) < 0 then _ else if 0 < -(2048 + (n.log2 : ℤ)) then _ else _) = _
  rw [length, if_neg (by decide), if_neg (by decide), if_pos (Int.le_refl 0), ← rounded, ← digits]
  rfl

/-- A natural number from the bound on has no double. -/
theorem ofInteger?_eq_none {n : ℕ} (past : overflowBound ≤ n) : ofInteger? n = none := by
  have large : 2 ^ 1023 ≤ n := le_trans pow_le_overflowBound past
  have some : n ≠ 0 := (lt_of_lt_of_le (pow_pos two_pos 1023) large).ne'
  rw [ofInteger?, Int.natAbs_natCast]
  by_cases long : 1024 ≤ n.log2
  · rw [if_pos long]
  · have longer (k : ℕ) (le : 2 ^ k ≤ n) : k ≤ n.log2 := (Nat.le_log2 some).mpr le
    have length : n.log2 = 1023 :=
      Nat.le_antisymm (Nat.le_of_lt_succ (Nat.lt_of_not_le long)) (longer 1023 large)
    have notShort : ¬(n < 2 ^ 53 ∧ 0 ≤ 22) := fun short => by
      have few := (Nat.log2_lt some).mpr short.1
      rw [length] at few
      exact absurd few (by decide)
    have infinite : (Float.ofScientific n false 0).isFinite = false := by
      unfold Float.ofScientific
      rw [dif_neg notShort]
      change (Float.ofModel (Float.Model.pack
        (UnpackedFloat.ofScientific Format.binary64 n 0))).isFinite = false
      rw [unpacked_of_overflow past length]
      rfl
    rw [if_neg long]
    dsimp only
    rw [infinite, if_neg Bool.false_ne_true]

end Reckoner.Decimal
