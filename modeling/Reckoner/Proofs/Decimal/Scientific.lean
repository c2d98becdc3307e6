import Reckoner.Proofs.Decimal.Nearest

/-!
# Doubles from decimals

A decimal in the interval around a positive double is converted into this double
(`Reckoner.Decimal.ofScientific_of_around`). Large and small decimals are a product or a quotient
that is rounded once; short ones are a product or a quotient of two doubles, both of them exact.
-/

namespace Reckoner.Decimal

open Float.Model Float.Model.UnpackedFloat

variable {mantissa : ℕ} {exponent : ℤ}

/-! ## Products and quotients -/

theorem stands_exact (n : ℕ) : Stands (.ofMantissaAndAccuracy n .exact) n :=
  rfl

/-- A quotient with the accuracy that its rest tells stands for the fraction. -/
theorem stands_quotient {numerator denominator : ℕ} (pos : 0 < denominator) :
    Stands (.ofMantissaAndAccuracy (numerator / denominator)
      (accuracyOfFraction (numerator % denominator) denominator)) (numerator / denominator) := by
  have positive : (0 : ℚ) < denominator := by exact_mod_cast pos
  have small := Nat.mod_lt numerator pos
  rw [div_eq_quotient_add_rest numerator pos]
  generalize numerator / denominator = quotient
  generalize numerator % denominator = rest at small ⊢
  unfold accuracyOfFraction
  by_cases none : rest = 0
  · rw [if_pos none, none, Nat.cast_zero, zero_div, add_zero]
    exact stands_exact quotient
  · rw [if_neg none]
    have some : (0 : ℚ) < rest / denominator := by
      have : (0 : ℚ) < rest := by exact_mod_cast Nat.pos_of_ne_zero none
      positivity
    have below : (rest : ℚ) / denominator < 1 := by
      rw [div_lt_one positive]
      exact_mod_cast small
    cases side : compare (2 * rest) denominator with
    | lt =>
        have less : (2 * rest : ℚ) < denominator := by
          exact_mod_cast Nat.compare_eq_lt.mp side
        have half : (rest : ℚ) / denominator < 1 / 2 := by
          rw [div_lt_div_iff₀ positive two_pos]
          linarith
        exact ⟨by linarith, by linarith⟩
    | eq =>
        have same : (2 * rest : ℚ) = denominator := by
          exact_mod_cast Nat.compare_eq_eq.mp side
        have half : (rest : ℚ) / denominator = 1 / 2 := by
          rw [div_eq_div_iff positive.ne' two_ne_zero]
          linarith
        change _ = _
        rw [half]
    | gt =>
        have more : (denominator : ℚ) < 2 * rest := by
          exact_mod_cast Nat.compare_eq_gt.mp side
        have half : 1 / 2 < (rest : ℚ) / denominator := by
          rw [div_lt_div_iff₀ two_pos positive]
          linarith
        exact ⟨by linarith, by linarith⟩

section Operations

variable {m₁ m₂ : ℕ} {e₁ e₂ : ℤ} {pos₁ : 0 < m₁} {pos₂ : 0 < m₂}

theorem mul_of_around (canonical : Canonical mantissa exponent) (full : 2 ^ 52 ≤ m₁ * m₂)
    (around : Around mantissa exponent (m₁ * 2 ^ e₁ * (m₂ * 2 ^ e₂))) :
    UnpackedFloat.mul Format.binary64 (.finite .positive m₁ e₁ pos₁)
        (.finite .positive m₂ e₂ pos₂) =
      .finite .positive mantissa exponent canonical.pos := by
  have scaled : (m₁ * 2 ^ e₁ * (m₂ * 2 ^ e₂) : ℚ) / 2 ^ (e₁ + e₂) = (m₁ * m₂ : ℕ) := by
    rw [zpow_add₀ two_ne_zero, Nat.cast_mul]
    field_simp
  refine roundWithAccuracy_of_around _ canonical (.inl full) ?_ around
  rw [scaled]
  exact stands_exact _

/-- A quotient is computed with all digits of a mantissa, or to the digits of the least double. -/
theorem divCore_fine (pos₁ : 0 < m₁) (pos₂ : 0 < m₂) :
    2 ^ 52 ≤ (divCore Format.binary64 m₁ e₁ m₂ e₂).1 ∨
      (divCore Format.binary64 m₁ e₁ m₂ e₂).2.1 ≤ -1074 := by
  unfold divCore
  dsimp only
  rw [targetExponent_eq, totalExponent, totalExponent, Nat.shiftLeft_eq]
  generalize shifted :
    min (e₁ - e₂) (max (m₁.log2 + 1 + e₁ - (m₂.log2 + 1 + e₂) - 53) (-1074)) = target
  by_cases fine : target ≤ -1074
  · exact .inr fine
  · left
    rw [Nat.le_div_iff_mul_le pos₂]
    have first := Nat.log2_self_le (Nat.ne_of_gt pos₁)
    have second : m₂ < 2 ^ (m₂.log2 + 1) := Nat.lt_log2_self
    calc 2 ^ 52 * m₂ ≤ 2 ^ 52 * 2 ^ (m₂.log2 + 1) := Nat.mul_le_mul_left _ (Nat.le_of_lt second)
      _ = 2 ^ (52 + (m₂.log2 + 1)) := (Nat.pow_add ..).symm
      _ ≤ 2 ^ (m₁.log2 + (e₁ - e₂ - target).toNat) :=
        Nat.pow_le_pow_right Nat.two_pos (by omega)
      _ = 2 ^ m₁.log2 * 2 ^ (e₁ - e₂ - target).toNat := Nat.pow_add ..
      _ ≤ m₁ * 2 ^ (e₁ - e₂ - target).toNat := Nat.mul_le_mul_right _ first

theorem div_of_around (canonical : Canonical mantissa exponent)
    (around : Around mantissa exponent (m₁ * 2 ^ e₁ / (m₂ * 2 ^ e₂))) :
    UnpackedFloat.div Format.binary64 (.finite .positive m₁ e₁ pos₁)
        (.finite .positive m₂ e₂ pos₂) =
      .finite .positive mantissa exponent canonical.pos := by
  have fine := @divCore_fine m₁ m₂ e₁ e₂ pos₁ pos₂
  refine roundWithAccuracy_of_around _ canonical fine ?_ around
  generalize shifted : min (e₁ - e₂) _ = target
  have le : target ≤ e₁ - e₂ := by
    rw [← shifted]
    exact Int.min_le_left ..
  have positive : (0 : ℚ) < m₂ := by exact_mod_cast pos₂
  have unit : (2 : ℚ) ^ (e₁ - e₂ - target).toNat * (2 ^ e₂ * 2 ^ target) = 2 ^ e₁ := by
    rw [← zpow_natCast, ← zpow_add₀ two_ne_zero, ← zpow_add₀ two_ne_zero]
    congr 1
    omega
  have scaled : (m₁ * 2 ^ e₁ / (m₂ * 2 ^ e₂) : ℚ) / 2 ^ target =
      (m₁ <<< (e₁ - e₂ - target).toNat : ℕ) / m₂ := by
    rw [Nat.shiftLeft_eq, Nat.cast_mul, Nat.cast_pow, Nat.cast_two, ← unit]
    field_simp
  rw [scaled]
  exact stands_quotient pos₂

end Operations

/-! ## Exact doubles -/

/-- A double that is exactly a natural number. -/
def IsExactly (x : Float) (n : ℕ) : Prop :=
  ∃ (mantissa : ℕ) (exponent : ℤ) (canonical : Canonical mantissa exponent),
    2 ^ 52 ≤ mantissa ∧ (mantissa * 2 ^ exponent : ℚ) = n ∧
      x = ofForm (.finite .positive mantissa exponent canonical.pos)

theorem isExactly_toFloat {n : ℕ} (pos : 0 < n) (small : n < 2 ^ 53) :
    IsExactly n.toUInt64.toFloat n := by
  have length : n.log2 < 53 := (Nat.log2_lt (Nat.ne_of_gt pos)).mpr small
  have low := Nat.log2_self_le (Nat.ne_of_gt pos)
  have high : n < 2 ^ (n.log2 + 1) := Nat.lt_log2_self
  have split : 2 ^ n.log2 * 2 ^ (52 - n.log2) = 2 ^ 52 := by
    rw [← Nat.pow_add]
    congr 1
    omega
  have full : 2 ^ 52 ≤ n * 2 ^ (52 - n.log2) := split ▸ Nat.mul_le_mul_right _ low
  have below : n * 2 ^ (52 - n.log2) < 2 ^ 53 := by
    have := Nat.mul_lt_mul_of_pos_right high (Nat.two_pow_pos (52 - n.log2))
    rw [Nat.pow_succ, Nat.mul_right_comm, split] at this
    exact this
  have canonical : Canonical (n * 2 ^ (52 - n.log2)) (n.log2 - 52) :=
    ⟨by omega, below, by omega, by omega, .inl full⟩
  refine ⟨_, _, canonical, full, ?_, ?_⟩
  · have shift : (n.log2 : ℤ) - 52 = -(52 - n.log2 : ℕ) := by omega
    rw [shift, zpow_neg, zpow_natCast, Nat.cast_mul, Nat.cast_pow, Nat.cast_two]
    field_simp
  · have word : n.toUInt64.toNat = n := UInt64.toNat_ofNat_of_lt' (by
      change n < 2 ^ 64
      omega)
    have positive : compare (n : ℤ) 0 = .gt := Int.compare_eq_gt.mpr (by omega)
    have target : Format.binary64.targetExponent (totalExponent n 0) = n.log2 - 52 := by
      rw [targetExponent_eq, totalExponent]
      omega
    have shift : (0 - ((n.log2 : ℤ) - 52)).toNat = 52 - n.log2 := by omega
    have back : (0 : ℤ) - (52 - n.log2 : ℕ) = n.log2 - 52 := by omega
    have shifted : UnpackedFloat.ofNat Format.binary64 n = roundWithAccuracy Format.binary64
        .positive (n * 2 ^ (52 - n.log2)) (n.log2 - 52) .exact := by
      unfold UnpackedFloat.ofNat UnpackedFloat.ofInt UnpackedFloat.normalize UnpackedFloat.round
        decreaseExponent
      simp only [positive, Int.toNat_natCast, target, shift, back, Nat.shiftLeft_eq]
    have kept := shiftToTargetExponent_canonical canonical
    change Float.ofModel (Float.Model.pack (UnpackedFloat.ofNat _ n.toUInt64.toNat)) = _
    rw [word, shifted, roundWithAccuracy_of_shifts _ kept kept canonical.pos]
    rfl

/-- The powers of ten up to the twenty-second are doubles. -/
theorem isExactly_power {k : ℕ} (small : k < Float.exactlyRepresentablePowersOfTen.size) :
    IsExactly Float.exactlyRepresentablePowersOfTen[k] (10 ^ k) := by
  have each : ∀ k < 23, 2 ^ 52 ≤ 10 ^ k * 2 ^ 52 / 2 ^ (10 ^ k).log2 ∧
      10 ^ k * 2 ^ 52 / 2 ^ (10 ^ k).log2 < 2 ^ 53 ∧ (10 ^ k).log2 < 100 ∧
      10 ^ k * 2 ^ 52 / 2 ^ (10 ^ k).log2 * 2 ^ (10 ^ k).log2 = 10 ^ k * 2 ^ 52 := by
    decide
  obtain ⟨full, below, length, same⟩ := each k small
  have canonical :
      Canonical (10 ^ k * 2 ^ 52 / 2 ^ (10 ^ k).log2) ((10 ^ k).log2 - 52) :=
    ⟨by omega, below, by omega, by omega, .inl full⟩
  refine ⟨_, _, canonical, full, ?_, ?_⟩
  · have same : ((10 ^ k * 2 ^ 52 / 2 ^ (10 ^ k).log2 : ℕ) : ℚ) * 2 ^ (10 ^ k).log2 =
        (10 ^ k : ℕ) * 2 ^ 52 := by
      exact_mod_cast same
    rw [zpow_sub₀ two_ne_zero, zpow_natCast, mul_div_assoc', same]
    exact mul_div_cancel_right₀ _ (by positivity)
  · change k < 23 at small
    clear each full below length same
    interval_cases k <;> rfl

theorem mul_ofForm {first second : UnpackedFloat} (ofFirst : Form first) (ofSecond : Form second) :
    ofForm first * ofForm second = ofForm (UnpackedFloat.mul Format.binary64 first second) := by
  change Float.ofModel (Float.Model.pack (UnpackedFloat.mul _ (Float.Model.pack first).unpack
    (Float.Model.pack second).unpack)) = _
  rw [unpack_pack ofFirst, unpack_pack ofSecond]
  rfl

theorem div_ofForm {first second : UnpackedFloat} (ofFirst : Form first) (ofSecond : Form second) :
    ofForm first / ofForm second = ofForm (UnpackedFloat.div Format.binary64 first second) := by
  change Float.ofModel (Float.Model.pack (UnpackedFloat.div _ (Float.Model.pack first).unpack
    (Float.Model.pack second).unpack)) = _
  rw [unpack_pack ofFirst, unpack_pack ofSecond]
  rfl

section Exact

variable {x y : Float} {m n : ℕ} (exactX : IsExactly x m) (exactY : IsExactly y n)
  (canonical : Canonical mantissa exponent)

include exactX exactY

theorem mul_of_isExactly (around : Around mantissa exponent (m * n)) :
    x * y = ofForm (.finite .positive mantissa exponent canonical.pos) := by
  obtain ⟨m₁, e₁, canonical₁, full₁, is₁, rfl⟩ := exactX
  obtain ⟨m₂, e₂, canonical₂, full₂, is₂, rfl⟩ := exactY
  rw [← is₁, ← is₂] at around
  have full : 2 ^ 52 ≤ m₁ * m₂ := Nat.le_trans full₁ (Nat.le_mul_of_pos_right _ canonical₂.pos)
  rw [mul_ofForm (.finite _ canonical₁) (.finite _ canonical₂), mul_of_around canonical full around]

theorem div_of_isExactly (around : Around mantissa exponent (m / n)) :
    x / y = ofForm (.finite .positive mantissa exponent canonical.pos) := by
  obtain ⟨m₁, e₁, canonical₁, full₁, is₁, rfl⟩ := exactX
  obtain ⟨m₂, e₂, canonical₂, full₂, is₂, rfl⟩ := exactY
  rw [← is₁, ← is₂] at around
  rw [div_ofForm (.finite _ canonical₁) (.finite _ canonical₂), div_of_around canonical around]

end Exact

/-! ## Decimals -/

/-- The rationals around a double are below twice the next power of two. -/
theorem lt_of_around {x : ℚ} (canonical : Canonical mantissa exponent)
    (around : Around mantissa exponent x) : x < 2 ^ (1024 : ℤ) := by
  have unit : (0 : ℚ) < 2 ^ exponent := by positivity
  have small : (mantissa : ℚ) + 1 ≤ 2 ^ 53 := by exact_mod_cast canonical.small
  have high := around.high
  rw [div_le_iff₀ unit] at high
  calc x ≤ (mantissa + 1 / 2) * 2 ^ exponent := high
    _ < 2 ^ 53 * 2 ^ exponent := mul_lt_mul_of_pos_right (by linarith) unit
    _ ≤ 2 ^ 53 * 2 ^ (971 : ℤ) :=
      mul_le_mul_of_nonneg_left (zpow_le_zpow_right₀ one_le_two canonical.greatest) (by positivity)
    _ = 2 ^ ((53 : ℕ) + (971 : ℤ)) := by rw [zpow_add₀ two_ne_zero, zpow_natCast]

section Decimals

variable {digits : ℕ} {power : ℤ} (canonical : Canonical mantissa exponent)
  (around : Around mantissa exponent (digits * 10 ^ power))

include canonical around

theorem digits_pos_of_around : 0 < digits := by
  have least := least_of_around canonical around
  refine Nat.pos_of_ne_zero fun none => ?_
  rw [none, Nat.cast_zero, zero_mul] at least
  exact absurd least (not_le_of_gt (by positivity))

theorem power_le_of_around : power ≤ 2048 := by
  by_contra large
  have large : 1024 ≤ power := by omega
  have pos : (1 : ℚ) ≤ digits := by exact_mod_cast digits_pos_of_around canonical around
  have below := lt_of_around canonical around
  refine absurd below (not_lt_of_ge ?_)
  calc (2 : ℚ) ^ (1024 : ℤ) ≤ 2 ^ power := zpow_le_zpow_right₀ one_le_two large
    _ ≤ 10 ^ power := zpow_le_zpow_left₀ (by omega) (by norm_num) (by norm_num)
    _ ≤ digits * 10 ^ power := le_mul_of_one_le_left (by positivity) pos

theorem le_power_of_around : -(2048 + (digits.log2 : ℤ)) ≤ power := by
  by_contra small
  have least := least_of_around canonical around
  have high : digits < 2 ^ (digits.log2 + 1) := Nat.lt_log2_self
  have high : (digits : ℚ) ≤ 2 ^ (digits.log2 + 1) := by exact_mod_cast Nat.le_of_lt high
  refine absurd least (not_le_of_gt ?_)
  have tens : (10 : ℚ) ^ power ≤ 2 ^ power := by
    have powers : (2 : ℚ) ^ (-power) ≤ 10 ^ (-power) :=
      zpow_le_zpow_left₀ (by omega) (by norm_num) (by norm_num)
    have inverse := inv_anti₀ (by positivity) powers
    rwa [← zpow_neg, ← zpow_neg, neg_neg] at inverse
  calc (digits * 10 ^ power : ℚ) ≤ 2 ^ (digits.log2 + 1) * 2 ^ power :=
        mul_le_mul high tens (by positivity) (by positivity)
    _ = 2 ^ ((digits.log2 + 1 : ℕ) + power) := by rw [zpow_add₀ two_ne_zero, zpow_natCast]
    _ < 2 ^ (-1075 : ℤ) := zpow_lt_zpow_right₀ one_lt_two (by omega)

/-- The conversion of a decimal by the model of the doubles. -/
theorem unpacked_ofScientific_of_around :
    UnpackedFloat.ofScientific Format.binary64 digits power =
      .finite .positive mantissa exponent canonical.pos := by
  have pos := digits_pos_of_around canonical around
  have high := power_le_of_around canonical around
  have low := le_power_of_around canonical around
  unfold UnpackedFloat.ofScientific
  rw [dif_neg (Nat.ne_of_gt pos)]
  change (if 2048 < power then _ else if power < -(2048 + (digits.log2 : ℤ)) then _ else _) = _
  rw [if_neg (by omega), if_neg (by omega)]
  by_cases whole : 0 ≤ power
  · rw [if_pos whole]
    refine mul_of_around canonical ?_ ?_
    · rw [Nat.shiftLeft_eq]
      have one := Nat.one_le_pow power.toNat 10 (by decide)
      calc 2 ^ 52 ≤ 1 * 2 ^ 53 * 1 := by decide
        _ ≤ digits * 2 ^ 53 * 10 ^ power.toNat :=
          Nat.mul_le_mul (Nat.mul_le_mul_right _ pos) one
    · have same : (((digits <<< Format.binary64.mantissaBits : ℕ) : ℚ) *
          2 ^ (-(Format.binary64.mantissaBits : ℤ)) * ((10 ^ power.toNat : ℕ) * 2 ^ (0 : ℤ))) =
          digits * 10 ^ power := by
        have tens : (10 : ℚ) ^ power = 10 ^ power.toNat := by
          rw [← zpow_natCast, Int.toNat_of_nonneg whole]
        change (((digits <<< 53 : ℕ) : ℚ) * 2 ^ (-(53 : ℕ) : ℤ) * _) = _
        rw [Nat.shiftLeft_eq, tens, zpow_neg, zpow_natCast, zpow_zero, mul_one, Nat.cast_mul,
          Nat.cast_pow, Nat.cast_pow, Nat.cast_ofNat, Nat.cast_ofNat]
        field_simp
      rw [same]
      exact around
  · rw [if_neg whole]
    refine div_of_around canonical ?_
    have same : ((digits : ℚ) * 2 ^ (0 : ℤ) / ((10 ^ (-power).toNat : ℕ) * 2 ^ (0 : ℤ))) =
        digits * 10 ^ power := by
      have tens : (10 : ℚ) ^ power = (10 ^ (-power).toNat)⁻¹ := by
        rw [← zpow_natCast, ← zpow_neg, Int.toNat_of_nonneg (by omega), neg_neg]
      rw [tens, zpow_zero, mul_one, mul_one, Nat.cast_pow, Nat.cast_ofNat, div_eq_mul_inv]
    rw [same]
    exact around

/-- **Decimals around a double are converted into it**, whichever sign a power of zero has. -/
theorem ofScientific_of_around {negative : Bool} {size : ℕ}
    (is : (if negative then -(size : ℤ) else size) = power) :
    Float.ofScientific digits negative size =
      ofForm (.finite .positive mantissa exponent canonical.pos) := by
  subst is
  unfold Float.ofScientific
  split
  · rename_i short
    have exactDigits := isExactly_toFloat (digits_pos_of_around canonical around) short.1
    have exactPower := @isExactly_power size (by
      change _ < 23
      omega)
    cases negative with
    | true =>
        rw [if_pos rfl] at around ⊢
        refine div_of_isExactly exactDigits exactPower canonical ?_
        rwa [div_eq_mul_inv, Nat.cast_pow, Nat.cast_ofNat, ← zpow_natCast, ← zpow_neg]
    | false =>
        rw [if_neg Bool.false_ne_true] at around ⊢
        refine mul_of_isExactly exactDigits exactPower canonical ?_
        rwa [Nat.cast_pow, Nat.cast_ofNat, ← zpow_natCast]
  · have same : (if negative = true then Int.negOfNat size else Int.ofNat size) =
        if negative then -(size : ℤ) else size := by
      rw [Int.negOfNat_eq]
      rfl
    dsimp only
    rw [same]
    change Float.ofModel (Float.Model.pack (UnpackedFloat.ofScientific _ _ _)) = _
    rw [unpacked_ofScientific_of_around canonical around]
    rfl

end Decimals

theorem ofScientific_zero (negative : Bool) (size : ℕ) :
    Float.ofScientific 0 negative size = ofForm (.zero .positive) := by
  have zero : (Nat.toUInt64 0).toFloat = ofForm (.zero .positive) := rfl
  unfold Float.ofScientific
  split
  · rename_i short
    have small : size < Float.exactlyRepresentablePowersOfTen.size := Nat.lt_succ_of_le short.2
    obtain ⟨mantissa, exponent, canonical, _, _, power⟩ := isExactly_power small
    dsimp only
    rw [zero]
    cases negative with
    | true =>
        refine (congrArg (ofForm (.zero .positive) / ·) power).trans ?_
        exact div_ofForm (.zero _) (.finite _ canonical)
    | false =>
        refine (congrArg (ofForm (.zero .positive) * ·) power).trans ?_
        exact mul_ofForm (.zero _) (.finite _ canonical)
  · dsimp only
    change Float.ofModel (Float.Model.pack (UnpackedFloat.ofScientific _ 0 _)) = _
    unfold UnpackedFloat.ofScientific
    rw [dif_pos rfl]
    rfl

end Reckoner.Decimal
