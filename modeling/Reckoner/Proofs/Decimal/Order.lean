import Reckoner.Proofs.Decimal.Closest
import Reckoner.Proofs.Decimal.Significant

/-!
# Doubles in the order of their exact values

Doubles are compared by their exponents first and then by their mantissas, which is the order of the
exact values (`Reckoner.Decimal.compare_eq`). Only the two zeros have the same exact value. A double
is whole if its exact value is an integer (`Reckoner.Decimal.isWhole_iff`).
-/

namespace Reckoner.Decimal

open Float.Model Float.Model.UnpackedFloat

variable {mantissa mantissa' : ℕ} {exponent exponent' : ℤ}

/-! ## Comparing -/

theorem size_pos (canonical : Canonical mantissa exponent) :
    (0 : ℚ) < mantissa * 2 ^ exponent := by
  have pos : (0 : ℚ) < mantissa := by exact_mod_cast canonical.pos
  positivity

theorem size_ofForm (sign : Sign) (canonical : Canonical mantissa exponent) :
    |exact (ofForm (.finite sign mantissa exponent canonical.pos))| = mantissa * 2 ^ exponent := by
  have pos := size_pos canonical
  rw [exact_ofForm sign canonical]
  split
  · rw [abs_neg, abs_of_pos pos]
  · exact abs_of_pos pos

theorem size_lt_of_exponent_lt (canonical : Canonical mantissa exponent)
    (canonical' : Canonical mantissa' exponent') (lt : exponent < exponent') :
    (mantissa * 2 ^ exponent : ℚ) < mantissa' * 2 ^ exponent' := by
  have unit : (0 : ℚ) < 2 ^ exponent' := by positivity
  have below := units_of_lt canonical lt
  have full : 2 ^ 52 ≤ mantissa' := canonical'.full.resolve_right (by
    have := canonical.least
    omega)
  have full : (2 ^ 52 : ℚ) ≤ mantissa' := by exact_mod_cast full
  rw [← div_lt_iff₀ unit]
  linarith

/-- The sizes of doubles are in the lexicographic order of their exponents and mantissas. -/
theorem compare_sizes (canonical : Canonical mantissa exponent)
    (canonical' : Canonical mantissa' exponent') :
    ((compare exponent exponent').then (compare mantissa mantissa')) =
      compare (mantissa * 2 ^ exponent : ℚ) (mantissa' * 2 ^ exponent') := by
  rcases Int.lt_trichotomy exponent exponent' with less | rfl | more
  · rw [Int.compare_eq_lt.mpr less,
      compare_lt_iff_lt.mpr (size_lt_of_exponent_lt canonical canonical' less)]
    rfl
  · have unit : (0 : ℚ) < 2 ^ exponent := by positivity
    rw [Int.compare_eq_eq.mpr rfl]
    change compare mantissa mantissa' = _
    rcases Nat.lt_trichotomy mantissa mantissa' with less | rfl | more
    · rw [Nat.compare_eq_lt.mpr less, eq_comm, compare_lt_iff_lt]
      exact mul_lt_mul_of_pos_right (by exact_mod_cast less) unit
    · rw [Nat.compare_eq_eq.mpr rfl, eq_comm, compare_eq_iff_eq]
    · rw [Nat.compare_eq_gt.mpr more, eq_comm, compare_gt_iff_gt]
      exact mul_lt_mul_of_pos_right (by exact_mod_cast more) unit
  · rw [Int.compare_eq_gt.mpr more,
      compare_gt_iff_gt.mpr (size_lt_of_exponent_lt canonical' canonical more)]
    rfl

theorem eq_of_size_eq (canonical : Canonical mantissa exponent)
    (canonical' : Canonical mantissa' exponent')
    (same : (mantissa * 2 ^ exponent : ℚ) = mantissa' * 2 ^ exponent') :
    mantissa = mantissa' ∧ exponent = exponent' := by
  have order := compare_sizes canonical canonical'
  rw [compare_eq_iff_eq.mpr same, Ordering.then_eq_eq] at order
  exact ⟨Nat.compare_eq_eq.mp order.2, Int.compare_eq_eq.mp order.1⟩

theorem compare_neg (x y : ℚ) : compare (-x) (-y) = (compare x y).swap := by
  rcases lt_trichotomy x y with less | rfl | more
  · rw [compare_lt_iff_lt.mpr less, compare_gt_iff_gt.mpr (neg_lt_neg less)]
    rfl
  · rw [compare_eq_iff_eq.mpr rfl, compare_eq_iff_eq.mpr rfl]
    rfl
  · rw [compare_gt_iff_gt.mpr more, compare_lt_iff_lt.mpr (neg_lt_neg more)]
    rfl

/-- **Doubles are compared by their exact values.** -/
theorem compare_eq {first second : UnpackedFloat} (ofFirst : Form first) (ofSecond : Form second) :
    first.compare second = some (compare (exact (ofForm first)) (exact (ofForm second))) := by
  cases ofFirst with
  | zero sign =>
      rw [exact_zero sign]
      cases ofSecond with
      | zero other =>
          rw [exact_zero other, compare_eq_iff_eq.mpr rfl]
          rfl
      | finite other canonical =>
          have pos := size_pos canonical
          rw [exact_ofForm other canonical]
          cases other with
          | positive => exact congrArg some (compare_lt_iff_lt.mpr pos).symm
          | negative => exact congrArg some (compare_gt_iff_gt.mpr (neg_neg_of_pos pos)).symm
  | finite sign canonical =>
      have pos := size_pos canonical
      rw [exact_ofForm sign canonical]
      cases ofSecond with
      | zero other =>
          rw [exact_zero other]
          cases sign with
          | positive => exact congrArg some (compare_gt_iff_gt.mpr pos).symm
          | negative => exact congrArg some (compare_lt_iff_lt.mpr (neg_neg_of_pos pos)).symm
      | finite other canonical' =>
          have pos' := size_pos canonical'
          have sizes := compare_sizes canonical canonical'
          rw [exact_ofForm other canonical']
          cases sign with
          | positive =>
              cases other with
              | positive => exact congrArg some sizes
              | negative =>
                  refine congrArg some (compare_gt_iff_gt.mpr ?_).symm
                  exact lt_trans (neg_neg_of_pos pos') pos
          | negative =>
              cases other with
              | positive =>
                  refine congrArg some (compare_lt_iff_lt.mpr ?_).symm
                  exact lt_trans (neg_neg_of_pos pos) pos'
              | negative =>
                  exact congrArg some ((congrArg Ordering.swap sizes).trans (compare_neg _ _).symm)

/-- What is not finite stands in one order with all finite doubles. -/
theorem compare_special {finite special : UnpackedFloat} (form : Form finite)
    (infinite : special.isFinite = false) :
    finite.compare special = (zero .positive).compare special ∧
      special.compare finite = special.compare (zero .positive) := by
  cases special with
  | notANumber => cases form <;> exact ⟨rfl, rfl⟩
  | infinity sign => cases sign <;> cases form <;> exact ⟨rfl, rfl⟩
  | zero sign | finite sign mantissa exponent pos => cases infinite

section Finite

variable {x y : Float} (finite : x.isFinite = true) (finite' : y.isFinite = true)

include finite finite'

theorem beq_iff : (x == y) = true ↔ exact x = exact y := by
  obtain ⟨first, ofFirst, rfl⟩ := exists_form finite
  obtain ⟨second, ofSecond, rfl⟩ := exists_form finite'
  change ((Float.Model.pack first).unpack.compare (Float.Model.pack second).unpack ==
    some .eq) = true ↔ _
  rw [unpack_pack ofFirst, unpack_pack ofSecond, compare_eq ofFirst ofSecond, beq_iff_eq,
    Option.some.injEq, compare_eq_iff_eq]

theorem lt_iff : x < y ↔ exact x < exact y := by
  obtain ⟨first, ofFirst, rfl⟩ := exists_form finite
  obtain ⟨second, ofSecond, rfl⟩ := exists_form finite'
  change decide (((Float.Model.pack first).unpack.compare (Float.Model.pack second).unpack ==
    some .lt) = true) = true ↔ _
  rw [decide_eq_true_iff, unpack_pack ofFirst, unpack_pack ofSecond,
    compare_eq ofFirst ofSecond, beq_iff_eq, Option.some.injEq, compare_lt_iff_lt]

theorem le_iff : x ≤ y ↔ exact x ≤ exact y := by
  obtain ⟨first, ofFirst, rfl⟩ := exists_form finite
  obtain ⟨second, ofSecond, rfl⟩ := exists_form finite'
  change decide (((Float.Model.pack first).unpack.compare (Float.Model.pack second).unpack).any
    Ordering.isLE = true) = true ↔ _
  rw [decide_eq_true_iff, unpack_pack ofFirst, unpack_pack ofSecond, compare_eq ofFirst ofSecond,
    Option.any_some, Ordering.isLE_iff_ne_gt, ← compare_le_iff_le]

omit finite' in
/-- What is not finite is compared with a finite double as with zero. -/
theorem le_special (infinite : y.isFinite = false) : (x ≤ y ↔ 0 < y) ∧ (y ≤ x ↔ y < 0) := by
  obtain ⟨unpacked, form, rfl⟩ := exists_form finite
  obtain ⟨above, below⟩ := @compare_special _ y.toModel.unpack form infinite
  have zero : (0 : Float).toModel.unpack = .zero .positive := rfl
  have least : ofForm unpacked ≤ y ↔ (0 : Float) ≤ y := by
    change decide (((Float.Model.pack unpacked).unpack.compare y.toModel.unpack).any
      Ordering.isLE = true) = true ↔ decide (((0 : Float).toModel.unpack.compare
        y.toModel.unpack).any Ordering.isLE = true) = true
    rw [unpack_pack form, above, zero]
  have greatest : y ≤ ofForm unpacked ↔ y ≤ (0 : Float) := by
    change decide ((y.toModel.unpack.compare (Float.Model.pack unpacked).unpack).any
      Ordering.isLE = true) = true ↔ decide ((y.toModel.unpack.compare
        (0 : Float).toModel.unpack).any Ordering.isLE = true) = true
    rw [unpack_pack form, below, zero]
  rw [least, greatest]
  rcases eq_special infinite with rfl | rfl | rfl <;> decide

/-- Only the zeros share their exact value. -/
theorem eq_of_exact_eq (same : exact x = exact y) (some : exact x ≠ 0) : x = y := by
  obtain ⟨first, ofFirst, rfl⟩ := exists_form finite
  obtain ⟨second, ofSecond, rfl⟩ := exists_form finite'
  cases ofFirst with
  | zero sign => exact absurd (exact_zero sign) some
  | finite sign canonical =>
      cases ofSecond with
      | zero other => exact absurd (same.trans (exact_zero other)) some
      | finite other canonical' =>
          have pos := size_pos canonical
          have pos' := size_pos canonical'
          rw [exact_ofForm sign canonical, exact_ofForm other canonical'] at same
          cases sign with
          | positive =>
              cases other with
              | positive =>
                  obtain ⟨rfl, rfl⟩ := eq_of_size_eq canonical canonical' same
                  rfl
              | negative => exact absurd same (lt_trans (neg_neg_of_pos pos') pos).ne'
          | negative =>
              cases other with
              | positive => exact absurd same (lt_trans (neg_neg_of_pos pos) pos').ne
              | negative =>
                  obtain ⟨rfl, rfl⟩ := eq_of_size_eq canonical canonical' (neg_injective same)
                  rfl

end Finite

/-! ## Whole doubles -/

theorem abs_exact (x : Float) :
    |exact x| = (Binary.ofFloat x).numerator / (Binary.ofFloat x).denominator := by
  have size : (0 : ℚ) ≤ (Binary.ofFloat x).numerator / (Binary.ofFloat x).denominator := by
    positivity
  unfold exact
  dsimp only
  rw [Rat.mkRat_eq_div]
  push_cast
  split
  · rw [abs_neg, abs_of_nonneg size]
  · rw [abs_of_nonneg size]

/-- A whole double is its integer. -/
theorem exact_eq_toInteger {x : Float} (whole : isWhole x = true) : exact x = toInteger x := by
  have divides : (Binary.ofFloat x).denominator ∣ (Binary.ofFloat x).numerator :=
    Nat.dvd_of_mod_eq_zero (beq_iff_eq.mp (Bool.and_eq_true_iff.mp whole).2)
  have pos : ((Binary.ofFloat x).denominator : ℚ) ≠ 0 := by
    exact_mod_cast (denominator_pos (Binary.ofFloat x)).ne'
  unfold exact toInteger
  dsimp only
  rw [Rat.mkRat_eq_div, Int.cast_natCast, ← Nat.cast_div divides pos]
  split
  · push_cast
    rfl
  · rfl

/-- **A finite double is whole if its exact value is an integer.** -/
theorem isWhole_iff {x : Float} (finite : x.isFinite = true) :
    isWhole x = true ↔ ∃ n : ℤ, exact x = n := by
  refine ⟨fun whole => ⟨_, exact_eq_toInteger whole⟩, fun ⟨n, is⟩ => ?_⟩
  have pos : (0 : ℚ) < (Binary.ofFloat x).denominator := by
    exact_mod_cast denominator_pos (Binary.ofFloat x)
  have size := abs_exact x
  rw [is, ← Int.cast_abs, eq_div_iff pos.ne', Int.abs_eq_natAbs] at size
  have multiple : n.natAbs * (Binary.ofFloat x).denominator = (Binary.ofFloat x).numerator := by
    exact_mod_cast size
  unfold isWhole
  dsimp only
  rw [finite, ← multiple, Nat.mul_mod_left]
  rfl

/-- A double that is not whole has binary digits behind the point. -/
theorem exists_fractional_form {x : Float} (finite : x.isFinite = true)
    (notWhole : isWhole x = false) : ∃ sign mantissa exponent,
      ∃ canonical : Canonical mantissa exponent,
        exponent < 0 ∧ x = ofForm (.finite sign mantissa exponent canonical.pos) := by
  have noInteger : ¬∃ n : ℤ, exact x = n := by
    rw [← isWhole_iff finite, notWhole]
    exact Bool.false_ne_true
  obtain ⟨unpacked, form, rfl⟩ := exists_form finite
  cases form with
  | zero sign => exact absurd ⟨0, by rw [exact_zero sign]; rfl⟩ noInteger
  | @finite sign mantissa exponent canonical =>
      refine ⟨sign, mantissa, exponent, canonical, ?_, rfl⟩
      by_contra whole
      obtain ⟨power, rfl⟩ := Int.eq_ofNat_of_zero_le (Int.not_lt.mp whole)
      refine noInteger ⟨(if sign == .negative then -1 else 1) * (mantissa * 2 ^ power), ?_⟩
      rw [exact_ofForm sign canonical]
      push_cast
      rw [zpow_natCast]
      split
      · rw [neg_one_mul]
      · rw [one_mul]

end Reckoner.Decimal
