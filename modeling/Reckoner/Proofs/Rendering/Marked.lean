import Reckoner.Display
import Reckoner.Proofs.Decimal.Short
import Reckoner.Proofs.Rendering.Decimals

/-!
# The mark of rounded numbers

A shown number is marked as rounded exactly if its text does not denote the double
(`Reckoner.Rendering.isRounded_iff`). There are two exceptions. Integers of more than fifteen digits
are shown with fifteen and never marked: for them the text denotes the double only if the double has
a decimal of fifteen digits. And a decimal of so many digits that they cannot be counted is shown as
a zero without a mark.
-/

namespace Reckoner.Rendering

open Decimal hiding Denotes
open Float.Model Float.Model.UnpackedFloat

/-! ## Decimals -/

theorem digitsValue_pos (front : List Char) {fraction : List Char} {last : Char}
    (areFraction : (fraction ++ [last]).all Char.isDigit = true) (notZero : last ≠ '0') :
    0 < digitsValue (front ++ (fraction ++ [last])) := by
  have digit : last.isDigit = true :=
    List.all_eq_true.mp areFraction _ (List.mem_append_right _ List.mem_cons_self)
  have some := Text.forall_isDigit (p := fun c => c ≠ '0' → 0 < digitsValue [c]) (by decide) digit
    notZero
  rw [← List.append_assoc, digitsValue_append]
  omega

theorem sign_of_pos {q : ℚ} (pos : 0 < q) {first second : Bool}
    (same : (if first then -q else q) = if second then -q else q) : first = second := by
  have differs : -q ≠ q := (lt_trans (neg_neg_of_pos pos) pos).ne
  cases first with
  | true =>
      cases second with
      | true => rfl
      | false => exact absurd same differs
  | false =>
      cases second with
      | true => exact absurd same.symm differs
      | false => rfl

section Fractional

variable {v : Float} (finite : v.isFinite = true) (notWhole : isWhole v = false)

include finite notWhole

theorem exact_ne_of_notWhole (n : ℤ) : exact v ≠ n := by
  intro is
  rw [(isWhole_iff finite).mpr ⟨n, is⟩] at notWhole
  cases notWhole

theorem bne_roundTo_iff (places : ℕ) : (roundTo places v != v) = false ↔ roundTo places v = v := by
  have rounded := isFinite_roundTo finite notWhole places
  have some : exact v ≠ 0 := exact_ne_of_notWhole finite notWhole 0
  change (!(roundTo places v == v)) = false ↔ _
  rw [Bool.not_eq_false', beq_iff rounded finite]
  exact ⟨fun same => (eq_of_exact_eq finite rounded same.symm some).symm, congrArg exact⟩

/-- A double that is not whole is not rounded to itself if the nearest multiple is an integer. -/
theorem roundTo_ne_of_integer {places n : ℕ} (is : (unitsOf places v / 10 ^ places : ℚ) = n) :
    roundTo places v ≠ v := by
  intro same
  have noInteger := exact_ne_of_notWhole finite notWhole
  obtain ⟨sign, mantissa, exponent, canonical, fractional, form⟩ :=
    exists_fractional_form finite notWhole
  subst form
  rcases roundTo_ofForm sign canonical fractional rfl with
    ⟨_, zero⟩ | ⟨mantissa', exponent', canonical', around, rounded⟩
  · rw [same] at zero
    rw [zero, exact_zero sign] at noInteger
    exact noInteger 0 rfl
  · obtain ⟨-, rfl, rfl⟩ := UnpackedFloat.finite.inj
      (ofForm_injective (.finite _ canonical') (.finite _ canonical) (rounded.symm.trans same))
    rw [is] at around
    have pos : 0 < n := by
      have least := least_of_around canonical' around
      have some : (0 : ℚ) < n := lt_of_lt_of_le (by positivity) least
      exact_mod_cast some
    have small : n < 2 ^ 53 := by
      have high := around.high
      have full : (mantissa' : ℚ) + 1 ≤ 2 ^ 53 := by exact_mod_cast canonical'.small
      have unit : (2 : ℚ) ^ exponent' ≤ 1 :=
        zpow_le_one_of_nonpos₀ one_le_two (Int.le_of_lt fractional)
      rw [div_le_iff₀ (by positivity)] at high
      have below := mul_le_of_le_one_right (by positivity : (0 : ℚ) ≤ mantissa' + 1 / 2) unit
      have size : (n : ℚ) < 2 ^ 53 := by linarith
      exact_mod_cast size
    obtain ⟨mantissa'', exponent'', canonical'', _, exactly, _⟩ := isExactly_toFloat pos small
    have closest := closest_of_around canonical' canonical'' around
    rw [exactly, sub_self, abs_zero] at closest
    have whole := sub_eq_zero.mp (abs_nonpos_iff.mp closest)
    rw [exact_ofForm sign canonical', whole] at noInteger
    cases sign with
    | positive => exact noInteger n rfl
    | negative => exact noInteger (-n) (Int.cast_neg (n : ℤ)).symm

/-- A decimal with a point for the nearest multiple is read as the rounded double. -/
theorem readFloat?_of_point {places : ℕ} {whole fraction : List Char} {last : Char}
    (some : whole ≠ []) (areWhole : whole.all Char.isDigit = true)
    (areFraction : (fraction ++ [last]).all Char.isDigit = true) (notZero : last ≠ '0')
    (value : (unitsOf places v / 10 ^ places : ℚ) =
      digitsValue (whole ++ (fraction ++ [last])) / 10 ^ (fraction ++ [last]).length) :
    readFloat? (signed (signBit v) (whole ++ '.' :: (fraction ++ [last]))) =
      .some (roundTo places v) := by
  obtain ⟨isNumeral, digits, power, isRead, same⟩ :=
    denotes_point some areWhole areFraction .none rfl
  rw [List.append_nil] at isNumeral isRead
  rw [zero_sub, zpow_neg, zpow_natCast, ← div_eq_mul_inv, ← value] at same
  have positive := digitsValue_pos whole areFraction notZero
  obtain ⟨sign, mantissa, exponent, canonical, fractional, rfl⟩ :=
    exists_fractional_form finite notWhole
  rcases roundTo_ofForm sign canonical fractional rfl with
    ⟨none, _⟩ | ⟨mantissa', exponent', canonical', around, rounded⟩
  · rw [none, Nat.cast_zero, zero_div, eq_comm, div_eq_zero_iff, Nat.cast_eq_zero] at value
    exact absurd (value.resolve_right (by positivity)) positive.ne'
  · rw [← same] at around
    rw [scaled_of_around canonical' around] at isRead
    rw [rounded, signBit_ofForm sign canonical]
    exact (readFloat?_signed_iff sign canonical' isNumeral).mpr isRead

/-- **A shown decimal is rounded exactly if its text does not denote the double.** -/
theorem isRounded_decimal_iff (places : ℕ) : (roundTo places v != v) = false ↔
    Denotes (String.ofList (unsignedZero (trimZeros (fixed places v)))) v := by
  obtain ⟨size, trimmed, text⟩ := exists_trimmed places v
  obtain ⟨sign, shown, same, _⟩ := trimmed.exists_sign (signBit v)
  rw [bne_roundTo_iff finite notWhole, text, shown, Denotes, String.toList_ofList]
  generalize value : (unitsOf places v / 10 ^ places : ℚ) = q at trimmed same
  obtain ⟨first, rest, head, digit⟩ := trimmed.exists_head
  cases trimmed with
  | @whole digits some areDigits =>
      have read := fractionSize?_digits some areDigits
      rw [head] at read
      rw [fraction?, head, signed?_eq_some digit read]
      refine iff_of_false (roundTo_ne_of_integer finite notWhole value) fun is => ?_
      have noInteger := exact_ne_of_notWhole finite notWhole
      cases sign with
      | true => exact noInteger (-digitsValue (first :: rest)) (by rw [← is]; push_cast; rfl)
      | false => exact noInteger (digitsValue (first :: rest)) (by rw [← is]; rfl)
  | @point whole fraction last some areWhole areFraction notZero =>
      have ofSign : sign = signBit v := by
        have positive := digitsValue_pos whole areFraction notZero
        have pos : (0 : ℚ) < digitsValue (whole ++ (fraction ++ [last])) /
            10 ^ (fraction ++ [last]).length :=
          div_pos (by exact_mod_cast positive) (by positivity)
        exact sign_of_pos pos same
      have point : '.' ∈ signed sign (whole ++ '.' :: (fraction ++ [last])) := by
        have inside : '.' ∈ whole ++ '.' :: (fraction ++ [last]) :=
          List.mem_append_right _ List.mem_cons_self
        cases sign with
        | true => exact List.mem_cons_of_mem _ inside
        | false => exact inside
      rw [fraction?_eq_none point rfl (by decide) (by decide) (by decide), ofSign,
        readFloat?_of_point finite notWhole some areWhole areFraction notZero value]
      exact Option.some_inj.symm

end Fractional

/-! ## All branches -/

/-- A double is shown in one of four ways. -/
theorem ofFloat_cases {v : Float} (finite : v.isFinite = true) (places : ℕ) (fractions : Bool) :
    isWhole v = true ∧ ofFloat v (.ok places) fractions = .ok (whole v) ∨
      isWhole v = false ∧ fractions = true ∧
          ofFloat v (.ok places) fractions = .ok (fraction v) ∨
        isWhole v = false ∧ fractions = false ∧
          ofFloat v (.ok places) fractions = decimal places v := by
  unfold ofFloat
  rw [finite]
  cases isWhole v with
  | true => exact .inl ⟨rfl, rfl⟩
  | false =>
      cases fractions with
      | true => exact .inr (.inl ⟨rfl, rfl, rfl⟩)
      | false => exact .inr (.inr ⟨rfl, rfl, rfl⟩)

theorem isRounded_fraction_iff (v : Float) :
    (fraction v).isRounded = false ↔ Denotes (fraction v).text v := by
  rw [Denotes, fraction, fraction?_fractionText]
  exact bne_eq_false_iff_eq

/-- An integer below the limit is shown as it is, a larger one with fifteen digits. -/
theorem denotes_whole_iff {v : Float} (finite : v.isFinite = true) (isInteger : isWhole v = true) :
    Denotes (whole v).text v ↔ |exact v| < 10 ^ 15 ∨ IsShort 15 v := by
  have limit : exact longInteger = 10 ^ 15 := by decide +kernel
  have below : v.abs < longInteger ↔ |exact v| < 10 ^ 15 := by
    rw [lt_iff (isFinite_abs finite) (by decide +kernel), exact_abs finite, limit]
  unfold whole
  split
  · rename_i short
    refine iff_of_true ?_ (.inl (below.mp short))
    rw [Denotes, fraction?_toString]
    exact (exact_eq_toInteger isInteger).symm
  · rename_i long
    rw [below] at long
    obtain ⟨mark, readBack⟩ := readFloat?_significant_iff finite (not_lt.mp long)
    rw [Denotes, fraction?_eq_none mark rfl (by decide) (by decide) (by decide)]
    exact readBack.trans (or_iff_right long).symm

/-- A zero denotes no double that is not whole. -/
theorem not_denotes_zero {v : Float} (finite : v.isFinite = true) (notWhole : isWhole v = false) :
    ¬Denotes "0" v := by
  have read : fraction? "0".toList = some (0 : ℤ) := fraction?_toString 0
  rw [Denotes, read]
  exact fun same => exact_ne_of_notWhole finite notWhole 0 same.symm

/-- **The mark tells the truth**, but for integers of more than fifteen digits and decimals of more
digits than can be counted. A finite double is shown, unless it would need more places than the
limit; the text denotes the double exactly if it is not marked as rounded, except for an integer of
more digits that no decimal of fifteen digits is read as, and for a decimal whose places and digits
in front of the point exceed the limit together. The mark is in front of the text where the value of
an expression is shown. -/
theorem isRounded_iff {v : Float} (finite : v.isFinite = true) (places : ℕ) (fractions : Bool) :
    (isWhole v = false ∧ fractions = false ∧ placesLimit < places ∧
        ofFloat v (.ok places) fractions = .error .wrongValue) ∨
      ∃ shown, ofFloat v (.ok places) fractions = .ok shown ∧
        ((shown.isRounded = false ↔ Denotes shown.text v) ↔
          (isWhole v = true → |exact v| < 10 ^ 15 ∨ IsShort 15 v) ∧
            (isWhole v = false → fractions = false → places + wholeDigits v ≤ placesLimit)) ∧
        ∀ settings : Settings, settings.decimalPlaces = .ok places →
          settings.fractions = fractions → Display.value settings (.number v) =
            .ok (if shown.isRounded then "≈ " ++ shown.text else shown.text) := by
  have mark {shown : Rendering} (is : ofFloat v (.ok places) fractions = .ok shown)
      (settings : Settings) (ofPlaces : settings.decimalPlaces = .ok places)
      (ofFractions : settings.fractions = fractions) : Display.value settings (.number v) =
        .ok (if shown.isRounded then "≈ " ++ shown.text else shown.text) := by
    rw [Display.value, Display.number, ofPlaces, ofFractions, is]
    rfl
  rcases ofFloat_cases finite places fractions with
    ⟨isInteger, is⟩ | ⟨notWhole, fractional, is⟩ | ⟨notWhole, decimals, is⟩
  · have notMarked : (whole v).isRounded = false := by
      unfold whole
      split <;> rfl
    refine .inr ⟨_, is, ?_, mark is⟩
    rw [notMarked, denotes_whole_iff finite isInteger, isInteger]
    exact ⟨fun same => ⟨fun _ => same.mp rfl, nofun⟩, fun holds => iff_of_true rfl (holds.1 rfl)⟩
  · refine .inr ⟨_, is, ?_, mark is⟩
    rw [notWhole, fractional]
    exact iff_of_true (isRounded_fraction_iff v) ⟨nofun, nofun⟩
  · rcases Nat.lt_or_ge placesLimit places with tooMany | possible
    · rw [decimal, if_pos tooMany] at is
      exact .inl ⟨notWhole, decimals, tooMany, is⟩
    · rcases Nat.lt_or_ge placesLimit (places + wholeDigits v) with uncounted | counted
      · rw [decimal_of_uncounted finite possible uncounted] at is
        refine .inr ⟨_, is, ?_, mark is⟩
        refine iff_of_false (fun same => not_denotes_zero finite notWhole (same.mp rfl)) ?_
        exact fun holds => absurd uncounted (Nat.not_lt.mpr (holds.2 notWhole decimals))
      · rw [decimal_eq finite notWhole counted] at is
        refine .inr ⟨_, is, ?_, mark is⟩
        rw [notWhole]
        exact iff_of_true (isRounded_decimal_iff finite notWhole places) ⟨nofun, fun _ _ => counted⟩

theorem isRounded_third : ∃ shown, ofFloat (1 / 3) (.ok 6) false = .ok shown ∧
    (shown.isRounded = false ↔ Denotes shown.text (1 / 3)) ∧
      Display.value Settings.defaults (.number (1 / 3)) =
        .ok (if shown.isRounded then "≈ " ++ shown.text else shown.text) := by
  rcases @isRounded_iff (1 / 3) (by decide +kernel) 6 false with
    ⟨_, _, tooMany, _⟩ | ⟨shown, is, truth, marked⟩
  · exact absurd tooMany (by decide)
  · have notWhole : isWhole (1 / 3) = false := by decide +kernel
    have counted : 6 + wholeDigits (1 / 3) ≤ placesLimit := by decide +kernel
    rw [notWhole] at truth
    exact ⟨shown, is, truth.mpr ⟨nofun, fun _ _ => counted⟩, marked Settings.defaults rfl rfl⟩

/-- A long integer is changed without a mark. -/
theorem isRounded_long_integer :
    ofFloat 1234567890123456 (.ok 6) false = .ok ⟨"1.23456789012346e+15", false⟩ ∧
      ¬Denotes "1.23456789012346e+15" 1234567890123456 :=
  ⟨rfl, by decide +kernel⟩

end Reckoner.Rendering
