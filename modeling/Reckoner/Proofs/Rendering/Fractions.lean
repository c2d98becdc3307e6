import Reckoner.Proofs.Decimal.SmallFraction
import Reckoner.Proofs.Rendering.Denotation

/-!
# Shown fractions

Where fractions are wanted, a double that is not whole is shown as an integer, a proper fraction or
a mixed number in lowest terms. Each rational has one such form, and its text denotes it; what is
shown is the form of the nearest fraction with a small denominator
(`Reckoner.Rendering.ofFloat_fraction`).
-/

namespace Reckoner.Rendering

open Decimal hiding Denotes

/-! ## Forms -/

/-- A fraction as it is written: an integer, a proper fraction, or an integer other than zero and a
proper fraction that is added to its size. Fractions are in lowest terms. -/
inductive MixedNumber where
  | integer (k : ℤ)
  | proper (p : ℤ) (d : ℕ) (some : p ≠ 0) (below : p.natAbs < d) (lowest : p.natAbs.Coprime d)
  | mixed (k : ℤ) (p d : ℕ) (whole : k ≠ 0) (some : 0 < p) (below : p < d) (lowest : p.Coprime d)

namespace MixedNumber

def text : MixedNumber → String
  | integer k => toString k
  | proper p d .. => toString p ++ "/" ++ toString d
  | mixed k p d .. => toString k ++ " " ++ toString p ++ "/" ++ toString d

/-- The sign of a mixed number is that of its integer. -/
def value : MixedNumber → ℚ
  | integer k => k
  | proper p d .. => p / d
  | mixed k p d .. => if 0 < k then k + p / d else k - p / d

def denominator : MixedNumber → ℕ
  | integer _ => 1
  | proper _ d .. => d
  | mixed _ _ d .. => d

/-! ## The form of a rational -/

theorem natAbs_lt_den {q : ℚ} (fractional : q.den ≠ 1) (small : q.num.natAbs ≤ q.den) :
    q.num.natAbs < q.den := by
  refine lt_of_le_of_ne small fun same => fractional ?_
  have lowest := q.reduced
  rwa [same, Nat.coprime_self] at lowest

theorem num_ne_zero_of_den {q : ℚ} (fractional : q.den ≠ 1) : q.num ≠ 0 := by
  intro zero
  rw [Rat.num_eq_zero] at zero
  exact fractional (by rw [zero, Rat.den_zero])

theorem tdiv_ne_zero {n : ℤ} {d : ℕ} (pos : 0 < d) (large : d < n.natAbs) : n.tdiv d ≠ 0 := by
  obtain ⟨-, size⟩ := tdiv_of_large pos large
  have some : 0 < n.natAbs / d := Nat.div_pos large.le pos
  omega

theorem coprime_rest (q : ℚ) : (q.num.natAbs % q.den).Coprime q.den := by
  rw [Nat.Coprime, ← Nat.gcd_rec, Nat.gcd_comm]
  exact q.reduced

theorem rest_pos {q : ℚ} (fractional : q.den ≠ 1) : 0 < q.num.natAbs % q.den := by
  refine Nat.pos_of_ne_zero fun none => fractional ?_
  have lowest := coprime_rest q
  rwa [none, Nat.coprime_zero_left] at lowest

def ofRat (q : ℚ) : MixedNumber :=
  if fractional : q.den = 1 then .integer q.num
  else if small : q.num.natAbs ≤ q.den then
    .proper q.num q.den (num_ne_zero_of_den fractional) (natAbs_lt_den fractional small) q.reduced
  else
    .mixed (q.num.tdiv q.den) (q.num.natAbs % q.den) q.den
      (tdiv_ne_zero q.den_pos (not_le.mp small)) (rest_pos fractional)
      (Nat.mod_lt _ q.den_pos) (coprime_rest q)

theorem text_ofRat (q : ℚ) : (ofRat q).text = fractionText q := by
  unfold ofRat fractionText
  split
  · rfl
  · split <;> rfl

theorem denominator_ofRat (q : ℚ) : (ofRat q).denominator = q.den := by
  unfold ofRat
  split
  · rename_i one
    exact one.symm
  · split <;> rfl

/-- The numerator of a mixed number over its denominator. -/
def numerator (k : ℤ) (p d : ℕ) : ℤ :=
  if 0 < k then k * d + p else k * d - p

theorem value_mixed {k : ℤ} {p d : ℕ} (whole : k ≠ 0) (some : 0 < p) (below : p < d)
    (lowest : p.Coprime d) : (mixed k p d whole some below lowest).value = numerator k p d / d := by
  have pos : (d : ℚ) ≠ 0 := by exact_mod_cast (some.trans below).ne'
  simp only [value, numerator]
  split
  · push_cast
    rw [add_div, mul_div_cancel_right₀ _ pos]
  · push_cast
    rw [sub_div, mul_div_cancel_right₀ _ pos]

/-- A number of more than one whole is the sum of its integer part and a rest of the same sign. -/
theorem numerator_tdiv {n : ℤ} {d : ℕ} (pos : 0 < d) (large : d < n.natAbs) :
    numerator (n.tdiv d) (n.natAbs % d) d = n := by
  obtain ⟨sign, size⟩ := tdiv_of_large pos large
  have parts := Nat.div_add_mod' n.natAbs d
  have some : 0 < n.natAbs / d := Nat.div_pos large.le pos
  zify at parts
  unfold numerator
  by_cases negative : n < 0
  · have is : n.tdiv d = -(n.natAbs / d : ℕ) := by omega
    rw [if_neg (by omega), is]
    push_cast
    rw [abs_of_neg negative] at parts ⊢
    linarith
  · have is : n.tdiv d = (n.natAbs / d : ℕ) := by omega
    rw [if_pos (by omega), is]
    push_cast
    rw [abs_of_nonneg (not_lt.mp negative)] at parts ⊢
    linarith

theorem natAbs_numerator {k : ℤ} (whole : k ≠ 0) (p d : ℕ) :
    (numerator k p d).natAbs = k.natAbs * d + p := by
  unfold numerator
  split
  case isTrue positive =>
    obtain ⟨n, rfl⟩ := Int.eq_ofNat_of_zero_le positive.le
    rw [Int.natAbs_natCast]
    omega
  case isFalse nonpos =>
    obtain ⟨n, rfl⟩ := Int.exists_eq_neg_ofNat (not_lt.mp nonpos)
    rw [Int.natAbs_neg, Int.natAbs_natCast, neg_mul]
    omega

section Parts

variable {k : ℤ} {p d : ℕ} (whole : k ≠ 0) (some : 0 < p) (below : p < d)

include whole

theorem natAbs_mod_numerator (below : p < d) : (numerator k p d).natAbs % d = p := by
  rw [natAbs_numerator whole, Nat.mul_add_mod_of_lt below]

include some

theorem lt_natAbs_numerator : d < (numerator k p d).natAbs := by
  have size : 1 * d ≤ k.natAbs * d := Nat.mul_le_mul_right d (Int.natAbs_pos.mpr whole)
  rw [natAbs_numerator whole]
  omega

theorem numerator_neg_iff : numerator k p d < 0 ↔ k < 0 := by
  unfold numerator
  split
  case isTrue positive =>
    have nonneg := mul_nonneg positive.le (Int.natCast_nonneg d)
    omega
  case isFalse nonpos =>
    have nonpos' := mul_nonpos_of_nonpos_of_nonneg (not_lt.mp nonpos) (Int.natCast_nonneg d)
    omega

include below

theorem tdiv_numerator : (numerator k p d).tdiv d = k := by
  have pos := some.trans below
  obtain ⟨sign, size⟩ := tdiv_of_large pos (lt_natAbs_numerator whole some)
  have quotient : (k.natAbs * d + p) / d = k.natAbs := by
    rw [mul_comm, Nat.mul_add_div pos, Nat.div_eq_of_lt below, add_zero]
  rw [natAbs_numerator whole, quotient] at size
  rw [numerator_neg_iff whole some] at sign
  omega

end Parts

theorem value_ofRat (q : ℚ) : (ofRat q).value = q := by
  have is := Rat.num_div_den q
  unfold ofRat
  split
  case isTrue one => rwa [one, Nat.cast_one, div_one] at is
  case isFalse fractional =>
    split
    case isTrue small => exact is
    case isFalse large => rw [value_mixed, numerator_tdiv q.den_pos (not_le.mp large), is]

theorem ofRat_value (number : MixedNumber) : ofRat number.value = number := by
  cases number with
  | integer k => simp [value, ofRat]
  | proper p d some below lowest =>
      have pos : (0 : ℤ) < d := by omega
      have num : (p / d : ℚ).num = p := Rat.num_div_eq_of_coprime pos lowest
      have den : (p / d : ℚ).den = d := by exact_mod_cast Rat.den_div_eq_of_coprime pos lowest
      have fractional : d ≠ 1 := by omega
      simp [value, ofRat, num, den, fractional, below.le]
  | mixed k p d whole some below lowest =>
      have pos : (0 : ℤ) < d := by omega
      have coprime : (numerator k p d).natAbs.Coprime d := by
        rw [natAbs_numerator whole]
        simpa using lowest
      have num : (numerator k p d / d : ℚ).num = numerator k p d :=
        Rat.num_div_eq_of_coprime pos coprime
      have den : (numerator k p d / d : ℚ).den = d := by
        exact_mod_cast Rat.den_div_eq_of_coprime pos coprime
      have fractional : d ≠ 1 := by omega
      have large := not_le.mpr (lt_natAbs_numerator (d := d) whole some)
      rw [value_mixed]
      simp [ofRat, num, den, fractional, large, natAbs_mod_numerator whole below,
        tdiv_numerator whole some below]

theorem text_injective {first second : MixedNumber} (same : first.text = second.text) :
    first = second := by
  have read := congrArg (fun text => fraction? text.toList) same
  rw [← ofRat_value first, ← ofRat_value second, text_ofRat, text_ofRat, fraction?_fractionText,
    fraction?_fractionText, Option.some_inj] at read
  rw [← ofRat_value first, ← ofRat_value second, read]

end MixedNumber

/-! ## Shown fractions -/

/-- The text of a double is the form of the nearest fraction with a small denominator, which is no
other form, and the text is marked exactly if the double is another number. -/
structure ShowsFraction (v : Float) (shown : Rendering) (number : MixedNumber) : Prop where
  text : shown.text = number.text
  unique : ∀ other : MixedNumber, shown.text = other.text → other = number
  denotes : fraction? shown.text.toList = some number.value
  small : number.denominator ≤ 100000
  limited : number.value = limitDenominator 100000 (exact v)
  closest : IsClosest 100000 (exact v) number.value
  marked : shown.isRounded = false ↔ number.value = exact v

theorem showsFraction (v : Float) : ShowsFraction v (fraction v)
    (.ofRat (limitDenominator 100000 (exact v))) := by
  have closest := isClosest_limitDenominator (show 0 < 100000 by decide) (exact v)
  have shown : fraction v = ⟨fractionText (limitDenominator 100000 (exact v)),
    limitDenominator 100000 (exact v) != exact v⟩ := rfl
  generalize is : limitDenominator 100000 (exact v) = q at closest shown
  have text : (fraction v).text = (MixedNumber.ofRat q).text := by
    rw [MixedNumber.text_ofRat, shown]
  refine ⟨text, ?_, ?_, ?_, ?_, ?_, ?_⟩
  · intro other same
    exact MixedNumber.text_injective (same.symm.trans text)
  · rw [text, MixedNumber.text_ofRat, fraction?_fractionText, MixedNumber.value_ofRat]
  · rw [MixedNumber.denominator_ofRat]
    exact closest.small
  · rw [MixedNumber.value_ofRat, is]
  · rwa [MixedNumber.value_ofRat]
  · rw [MixedNumber.value_ofRat, shown]
    exact bne_eq_false_iff_eq

/-- **A shown fraction is the nearest one.** Where fractions are wanted, a double that is not whole
is shown for every number of places as the fraction with a denominator of at most 100000 that is
nearest to its exact value: as an integer, a proper fraction or a mixed number in lowest terms, and
not in two of these ways. -/
theorem ofFloat_fraction {v : Float} (finite : v.isFinite = true) (notWhole : isWhole v = false)
    (places : Except Failure ℕ) : ∃ (shown : Rendering) (number : MixedNumber),
      ofFloat v places true = .ok shown ∧ ShowsFraction v shown number := by
  refine ⟨_, _, ?_, showsFraction v⟩
  rw [ofFloat, finite, notWhole]
  simp

/-- The sign of a mixed number stands before its integer. -/
theorem ofFloat_fraction_negative : ∃ (shown : Rendering) (number : MixedNumber),
    ofFloat (-8 / 3) (.error .wrongValue) true = .ok shown ∧ ShowsFraction (-8 / 3) shown number :=
  ofFloat_fraction (by decide +kernel) (by decide +kernel) _

example : (fraction (-8 / 3)).text = "-2 2/3" ∧ (fraction (-0.5)).text = "-1/2" ∧
    (fraction 2.9999999).text = "3" := by
  decide +kernel

end Reckoner.Rendering
