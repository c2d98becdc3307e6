import Reckoner.Proofs.Decimal.Places
import Reckoner.Proofs.Rendering.Denotation

/-!
# Shown decimals

A double that is not whole is shown as the nearest multiple of a power of ten, without superfluous
zeros (`Reckoner.Rendering.ofFloat_decimal`). It is rounded to a double first and then printed; that
the double is rounded again when it is printed changes nothing.
-/

namespace Reckoner.Rendering

open Decimal hiding Denotes
open Text

/-! ## The text with decimal places -/

/-- The text with so many decimal places: whole digits and, behind a point, so many others, which
are all digits of the nearest multiple. -/
theorem exists_fixed (places : ℕ) (x : Float) : ∃ whole fraction : List Char, whole ≠ [] ∧
    whole.all Char.isDigit = true ∧ fraction.all Char.isDigit = true ∧ fraction.length = places ∧
      digitsValue (whole ++ fraction) = unitsOf places x ∧
        fixed places x =
          signed (signBit x) (whole ++ if places == 0 then [] else '.' :: fraction) := by
  obtain ⟨padded, is⟩ : ∃ padded, padded =
      List.replicate (places + 1 - (Nat.toDigits 10 (unitsOf places x)).length) '0' ++
        Nat.toDigits 10 (unitsOf places x) := ⟨_, rfl⟩
  have areDigits : padded.all Char.isDigit = true := by
    rw [is, List.all_append, all_isDigit_zeros, all_isDigit_toDigits]
    rfl
  have value : digitsValue padded = unitsOf places x := by
    rw [is, digitsValue_append, digitsValue_zeros, Nat.mul_zero, Nat.zero_add, digitsValue_toDigits]
  have long : places < padded.length := by
    rw [is, List.length_append, List.length_replicate]
    omega
  have shape : fixed places x = signed (signBit x) (padded.take (padded.length - places) ++
      if places == 0 then [] else '.' :: padded.drop (padded.length - places)) := by
    rw [is]
    rfl
  rw [← List.take_append_drop (padded.length - places) padded, List.all_append,
    Bool.and_eq_true] at areDigits
  refine ⟨_, _, ?_, areDigits.1, areDigits.2, ?_, ?_, shape⟩
  · exact List.ne_nil_of_length_pos (by rw [List.length_take]; omega)
  · rw [List.length_drop]
    omega
  · rw [List.take_append_drop, value]

theorem point_mem_fixed {places : ℕ} (pos : 0 < places) (x : Float) : '.' ∈ fixed places x := by
  obtain ⟨whole, fraction, _, _, _, _, _, text⟩ := exists_fixed places x
  rw [text, if_neg (by rw [beq_iff_eq]; omega)]
  unfold signed
  split <;> simp

/-! ## Zeros at the end -/

/-- A decimal without superfluous zeros at its end: digits, or digits around a point of which the
last is not zero. -/
inductive IsTrimmed : List Char → ℚ → Prop
  | whole {digits : List Char} (some : digits ≠ [])
      (areDigits : digits.all Char.isDigit = true) : IsTrimmed digits (digitsValue digits)
  | point {whole fraction : List Char} {last : Char} (some : whole ≠ [])
      (areWhole : whole.all Char.isDigit = true)
      (areFraction : (fraction ++ [last]).all Char.isDigit = true) (notZero : last ≠ '0') :
      IsTrimmed (whole ++ '.' :: (fraction ++ [last]))
        (digitsValue (whole ++ (fraction ++ [last])) / 10 ^ (fraction ++ [last]).length)

theorem trimZeros_whole {text : List Char} (noPoint : '.' ∉ text) : trimZeros text = text := by
  unfold trimZeros
  rw [List.contains_eq_mem, decide_eq_false noPoint, if_neg Bool.false_ne_true]

theorem trimZeros_append_zeros {text : List Char} (point : '.' ∈ text) (zeros : ℕ) :
    trimZeros (text ++ List.replicate zeros '0') = trimZeros text := by
  have all : ∀ c ∈ List.replicate zeros '0', (c == '0') = true := by
    intro c member
    rw [List.eq_of_mem_replicate member]
    rfl
  unfold trimZeros
  rw [List.contains_eq_mem, List.contains_eq_mem, decide_eq_true point,
    decide_eq_true (List.mem_append_left _ point), if_pos rfl, if_pos rfl, List.reverse_append,
    List.reverse_replicate, List.dropWhile_append_of_pos all]

/-- What ends in another character than zero and the point is kept. -/
theorem trimZeros_of_last {front : List Char} {last : Char} (notZero : last ≠ '0')
    (notPoint : last ≠ '.') : trimZeros (front ++ [last]) = front ++ [last] := by
  unfold trimZeros
  split
  · rw [List.reverse_append, List.reverse_singleton, List.singleton_append,
      List.dropWhile_cons_of_neg (by rw [beq_iff_eq]; exact notZero),
      List.dropWhile_cons_of_neg (by rw [beq_iff_eq]; exact notPoint), List.reverse_cons,
      List.reverse_reverse]
  · rfl

/-- A point at the end is dropped. -/
theorem trimZeros_point {front : List Char} (noPoint : '.' ∉ front) :
    trimZeros (front ++ ['.']) = front := by
  have kept : ∀ c ∈ front.reverse, (c == '.') = false := by
    intro c member
    rw [beq_eq_false_iff_ne]
    rintro rfl
    exact noPoint (List.mem_reverse.mp member)
  have point : (front ++ ['.']).contains '.' = true := by
    rw [List.contains_eq_mem, decide_eq_true (List.mem_append_right _ List.mem_cons_self)]
  unfold trimZeros
  rw [point, if_pos rfl, List.reverse_append, List.reverse_singleton, List.singleton_append,
    List.dropWhile_cons_of_neg (by decide), List.dropWhile_cons_of_pos rfl,
    dropWhile_eq_self kept, List.reverse_reverse]

/-- Digits end in a digit other than zero, and zeros, or are zeros. -/
theorem zeros_or_last (digits : List Char) : ∃ zeros,
    digits = List.replicate zeros '0' ∨
      ∃ front last, last ≠ '0' ∧ digits = front ++ [last] ++ List.replicate zeros '0' := by
  obtain ⟨zeros, split⟩ := exists_trailing '0' digits
  refine ⟨zeros, ?_⟩
  have first := List.head?_dropWhile_not (· == '0') digits.reverse
  cases kept : digits.reverse.dropWhile (· == '0') with
  | nil =>
      rw [kept] at split
      exact .inl split
  | cons last front =>
      rw [kept] at split first
      refine .inr ⟨front.reverse, last, ?_, ?_⟩
      · exact beq_eq_false_iff_ne.mp first
      · rw [split, List.reverse_cons]

theorem digitsValue_append_zeros (digits : List Char) (zeros : ℕ) :
    digitsValue (digits ++ List.replicate zeros '0') = digitsValue digits * 10 ^ zeros := by
  rw [digitsValue_append, digitsValue_zeros, List.length_replicate, Nat.add_zero, Nat.mul_comm]

/-- The text with decimal places without the zeros at its end is a decimal for the nearest
multiple, after a minus where the double has its sign. -/
theorem exists_trimmed (places : ℕ) (x : Float) :
    ∃ size, IsTrimmed size (unitsOf places x / 10 ^ places) ∧
      trimZeros (fixed places x) = signed (signBit x) size := by
  obtain ⟨whole, fraction, some, areWhole, areFraction, length, value, text⟩ :=
    exists_fixed places x
  have noPoint (negative : Bool) : '.' ∉ signed negative whole := by
    have absent := not_mem_of_all_isDigit areWhole (c := '.') rfl
    cases negative with
    | true => exact fun member => (List.mem_cons.mp member).elim (by decide) absent
    | false => exact absent
  have behind (negative : Bool) (rest : List Char) :
      signed negative (whole ++ rest) = signed negative whole ++ rest := by
    cases negative <;> rfl
  rw [text, behind]
  cases places with
  | zero =>
      obtain rfl := List.length_eq_zero_iff.mp length
      rw [List.append_nil] at value
      refine ⟨whole, ?_, ?_⟩
      · rw [pow_zero, div_one, ← value]
        exact .whole some areWhole
      · rw [beq_self_eq_true, if_pos rfl, List.append_nil, trimZeros_whole (noPoint _)]
  | succ places =>
      have tens : (10 : ℚ) ^ (places + 1) ≠ 0 := by positivity
      rw [if_neg (by rw [beq_iff_eq]; omega), ← value, ← length]
      obtain ⟨zeros, rfl | ⟨front, last, notZero, rfl⟩⟩ := zeros_or_last fraction
      · refine ⟨whole, ?_, ?_⟩
        · rw [digitsValue_append_zeros, List.length_replicate]
          push_cast
          rw [mul_div_cancel_right₀ _ (by positivity)]
          exact .whole some areWhole
        · rw [← List.singleton_append, ← List.append_assoc, trimZeros_append_zeros
            (List.mem_append_right _ List.mem_cons_self), trimZeros_point (noPoint _)]
      · rw [List.all_append, Bool.and_eq_true] at areFraction
        have count : (front ++ [last] ++ List.replicate zeros '0').length =
            (front ++ [last]).length + zeros := by
          rw [List.length_append, List.length_replicate]
        refine ⟨whole ++ '.' :: (front ++ [last]), ?_, ?_⟩
        · rw [← List.append_assoc whole, digitsValue_append_zeros, count, pow_add]
          push_cast
          rw [mul_div_mul_right _ _ (by positivity)]
          exact .point some areWhole areFraction.1 notZero
        · have notPoint : last ≠ '.' := by
            rintro rfl
            exact not_mem_of_all_isDigit areFraction.1 (c := '.') rfl
              (List.mem_append_right _ List.mem_cons_self)
          rw [behind, ← List.cons_append, ← List.append_assoc, trimZeros_append_zeros
            (List.mem_append_right _ List.mem_cons_self), ← List.cons_append, ← List.append_assoc,
            trimZeros_of_last notZero notPoint]

/-! ## What the text denotes -/

section Trimmed

variable {size : List Char} {q : ℚ} (trimmed : IsTrimmed size q)

include trimmed

theorem IsTrimmed.exists_head : ∃ first rest, size = first :: rest ∧ first.isDigit = true := by
  cases trimmed with
  | whole some areDigits =>
      have digits := exists_first_digit some areDigits []
      rwa [List.append_nil] at digits
  | point some areWhole areFraction notZero => exact exists_first_digit some areWhole _

theorem IsTrimmed.decimalSize? : Rendering.decimalSize? size = some q := by
  unfold Rendering.decimalSize?
  cases trimmed with
  | whole some areDigits =>
      rw [cutAt?_eq_none (not_mem_of_all_isDigit areDigits rfl)]
      exact natural?_digits some areDigits
  | @point whole fraction last some areWhole areFraction notZero =>
      have nonempty : fraction ++ [last] ≠ [] :=
        List.append_ne_nil_of_right_ne_nil _ (List.cons_ne_nil _ _)
      rw [cutAt?_eq_some.mpr ⟨rfl, not_mem_of_all_isDigit areWhole rfl⟩]
      simp only [Option.bind_eq_bind, Option.bind_some, natural?_digits some areWhole,
        natural?_digits nonempty areFraction]
      refine congrArg Option.some ?_
      rw [digitsValue_append whole]
      push_cast
      rw [add_div, mul_div_cancel_left₀ _ (by positivity)]

/-- A minus in front of a zero is dropped, no other one. -/
theorem IsTrimmed.exists_sign (negative : Bool) : ∃ sign,
    unsignedZero (signed negative size) = signed sign size ∧
      (if sign then -q else q) = (if negative then -q else q) ∧
        signed sign size ≠ ['-', '0'] := by
  obtain ⟨first, rest, head, digit⟩ := trimmed.exists_head
  have noMinus : size ≠ ['-', '0'] := by
    rintro rfl
    cases head
    cases digit
  cases negative with
  | false =>
      refine ⟨false, ?_, rfl, noMinus⟩
      unfold unsignedZero
      exact if_neg (by rw [beq_iff_eq]; exact noMinus)
  | true =>
      by_cases zero : size = ['0']
      · have none : q = 0 := by
          have read := trimmed.decimalSize?
          rw [zero] at read
          have same : Rendering.decimalSize? ['0'] = some 0 := by
            change some ((digitsValue ['0'] : ℕ) : ℚ) = _
            rw [show digitsValue ['0'] = 0 from rfl, Nat.cast_zero]
          exact (Option.some.inj (same.symm.trans read)).symm
        refine ⟨false, ?_, ?_, noMinus⟩
        · rw [zero]
          rfl
        · rw [none, neg_zero, ite_self, ite_self]
      · have minus : signed true size ≠ ['-', '0'] := fun is => zero (List.cons.inj is).2
        refine ⟨true, ?_, rfl, minus⟩
        unfold unsignedZero
        exact if_neg (by rw [beq_iff_eq]; exact minus)

theorem IsTrimmed.decimal? (negative : Bool) :
    Rendering.decimal? (signed negative size) = some (if negative then -q else q) := by
  have read := trimmed.decimalSize?
  obtain ⟨first, rest, rfl, digit⟩ := trimmed.exists_head
  exact signed?_eq_some digit read negative

/-- Behind a point the last digit is not zero. -/
theorem IsTrimmed.last_of_point (point : '.' ∈ size) :
    ∃ front last, size = front ++ [last] ∧ last ≠ '0' ∧ last ≠ '.' := by
  cases trimmed with
  | whole some areDigits => exact absurd point (not_mem_of_all_isDigit areDigits rfl)
  | @point whole fraction last some areWhole areFraction notZero =>
      refine ⟨whole ++ '.' :: fraction, last, ?_, notZero, ?_⟩
      · rw [List.append_assoc]
        rfl
      · rintro rfl
        exact not_mem_of_all_isDigit areFraction (c := '.') rfl
          (List.mem_append_right _ List.mem_cons_self)

end Trimmed

/-! ## The nearest multiple -/

/-- The integer is nearest to the rational, and even if another one is as near. -/
structure RoundsTo (n : ℤ) (x : ℚ) : Prop where
  near : |x - n| ≤ 1 / 2
  even : |x - n| = 1 / 2 → Even n

theorem RoundsTo.of_isNearest {n : ℕ} {x : ℚ} (nearest : IsNearest n x) : RoundsTo n x := by
  refine ⟨nearest.abs_sub_le, fun half => ?_⟩
  rcases nearest.2.2 with even | ⟨low, high⟩
  · exact (Int.even_coe_nat n).mpr (Nat.even_iff.mpr even)
  · have strict : |x - n| < 1 / 2 := abs_lt.mpr ⟨by linarith, by linarith⟩
    exact absurd half strict.ne

theorem RoundsTo.neg {n : ℤ} {x : ℚ} (rounds : RoundsTo n x) : RoundsTo (-n) (-x) := by
  have same : |-x - (-n : ℤ)| = |x - n| := by
    rw [Int.cast_neg, neg_sub_neg, abs_sub_comm]
  exact ⟨same.trans_le rounds.near, fun half => (rounds.even (same.symm.trans half)).neg⟩

/-- The nearest multiple with the sign of the double. -/
def signedUnits (places : ℕ) (x : Float) : ℤ :=
  if signBit x then -unitsOf places x else unitsOf places x

theorem exact_eq_signed (x : Float) : exact x = if signBit x then -|exact x| else |exact x| := by
  rw [abs_exact]
  unfold exact
  dsimp only
  rw [Rat.mkRat_eq_div]
  push_cast
  rfl

theorem roundsTo_signedUnits (places : ℕ) (x : Float) :
    RoundsTo (signedUnits places x) (exact x * 10 ^ places) := by
  have rounds := RoundsTo.of_isNearest (isNearest_unitsOf places x)
  rw [exact_eq_signed, signedUnits]
  split
  · rw [neg_mul]
    exact rounds.neg
  · exact rounds

/-! ## Shown decimals -/

/-- The text of a double with so many places is that of the nearest multiple of the last one. It is
what the double itself would be printed as, without zeros and a point at its end and but for the
minus of a zero. -/
structure ShowsNearest (v : Float) (places : ℕ) (shown : Rendering) (units : ℤ) : Prop where
  rounds : RoundsTo units (exact v * 10 ^ places)
  denotes : decimal? shown.text.toList = some (units / 10 ^ places : ℚ)
  close : |units / 10 ^ places - exact v| ≤ 1 / 2 / 10 ^ places
  direct : shown.text.toList = unsignedZero (trimZeros (fixed places v))
  notMinusZero : shown.text ≠ "-0"
  trimmed : '.' ∈ shown.text.toList →
    ∃ front last, shown.text.toList = front ++ [last] ∧ last ≠ '0' ∧ last ≠ '.'

theorem showsNearest_of_fixed (v : Float) (places : ℕ) (isRounded : Bool) :
    ShowsNearest v places
      ⟨String.ofList (unsignedZero (trimZeros (fixed places v))), isRounded⟩
      (signedUnits places v) := by
  obtain ⟨size, trimmed, text⟩ := exists_trimmed places v
  obtain ⟨sign, shown, value, notMinusZero⟩ := trimmed.exists_sign (signBit v)
  have rounds := roundsTo_signedUnits places v
  have tens : (0 : ℚ) < 10 ^ places := by positivity
  have units : (signedUnits places v / 10 ^ places : ℚ) =
      if sign then -(unitsOf places v / 10 ^ places : ℚ) else unitsOf places v / 10 ^ places := by
    rw [value, signedUnits]
    split
    · push_cast
      rw [neg_div]
    · rfl
  refine ⟨rounds, ?_, ?_, String.toList_ofList, ?_, ?_⟩
  · rw [String.toList_ofList, text, shown, trimmed.decimal?, units]
  · have near := rounds.near
    rw [le_div_iff₀ tens, ← abs_of_pos tens, ← abs_mul, abs_of_pos tens, sub_mul,
      div_mul_cancel₀ _ tens.ne', abs_sub_comm]
    exact near
  · rw [text, shown]
    intro is
    have same := congrArg String.toList is
    rw [String.toList_ofList] at same
    exact notMinusZero same
  · rw [String.toList_ofList, text, shown]
    intro point
    cases sign with
    | false => exact trimmed.last_of_point point
    | true =>
        have behindMinus : '.' ∈ size := (List.mem_cons.mp point).resolve_left (by decide)
        obtain ⟨front, last, rfl, notZero, notPoint⟩ := trimmed.last_of_point behindMinus
        exact ⟨'-' :: front, last, rfl, notZero, notPoint⟩

/-- Where the digits cannot be counted, every double is shown as zero, and as if it were that. -/
theorem decimal_of_uncounted {v : Float} (finite : v.isFinite = true) {places : ℕ}
    (possible : places ≤ placesLimit) (uncounted : placesLimit < places + wholeDigits v) :
    decimal places v = .ok ⟨"0", false⟩ := by
  have digits := wholeDigits_le_of_isFinite finite
  have fine : roundedPlaces < places := by
    rw [placesLimit] at uncounted
    rw [roundedPlaces]
    omega
  have kept : roundTo places v = v := if_pos fine
  have same : (v != v) = false := by
    rw [bne, (beq_iff finite finite).mpr rfl]
    rfl
  unfold decimal
  rw [if_neg (Nat.not_lt.mpr possible)]
  dsimp only
  rw [kept, same, decimalText, if_pos uncounted]

example : decimal 2147483647 1.5 = .ok ⟨"0", false⟩ := rfl

section Shown

variable {v : Float} (finite : v.isFinite = true) (notWhole : isWhole v = false)

include finite notWhole

theorem ofFloat_of_places (places : ℕ) : ofFloat v (.ok places) false = decimal places v := by
  unfold ofFloat
  rw [finite, notWhole]
  rfl

/-- No digit of a double is lost where there are many places. -/
theorem trimZeros_fixed_exactPlaces (places : ℕ) :
    trimZeros (fixed (min places exactPlaces) (roundTo places v)) =
      trimZeros (fixed places (roundTo places v)) := by
  rcases Nat.le_total places exactPlaces with few | many
  · rw [Nat.min_eq_left few]
  · have kept : roundTo places v = v := if_pos (Nat.lt_of_lt_of_le (by decide) many)
    obtain ⟨units, is⟩ := exists_multiple finite (show 1074 ≤ exactPlaces by decide)
    have some : 0 < units := by
      refine Nat.pos_of_ne_zero fun none => ?_
      rw [none, Nat.cast_zero, mul_eq_zero, abs_eq_zero] at is
      have zero : exact v = (0 : ℤ) := is.resolve_right (by positivity)
      rw [(isWhole_iff finite).mpr ⟨0, zero⟩] at notWhole
      cases notWhole
    obtain ⟨more, rfl⟩ := Nat.exists_eq_add_of_le many
    rw [Nat.min_eq_right many, kept, fixed_add some (by decide) is,
      trimZeros_append_zeros (point_mem_fixed (by decide) v)]

/-- Where the digits of a double can be counted, so can those of the rounded one. -/
theorem counted_roundTo {places : ℕ} (counted : places + wholeDigits v ≤ placesLimit) :
    places + wholeDigits (roundTo places v) ≤ placesLimit := by
  rcases Nat.lt_or_ge roundedPlaces places with fine | coarse
  · have kept : roundTo places v = v := if_pos fine
    rwa [kept]
  · have digits := wholeDigits_le_of_isFinite (isFinite_roundTo finite notWhole places)
    rw [roundedPlaces] at coarse
    rw [placesLimit]
    omega

theorem decimal_eq {places : ℕ} (counted : places + wholeDigits v ≤ placesLimit) :
    decimal places v = .ok
      ⟨String.ofList (unsignedZero (trimZeros (fixed places v))), roundTo places v != v⟩ := by
  have possible : places ≤ placesLimit := Nat.le_of_add_right_le counted
  unfold decimal
  rw [if_neg (Nat.not_lt.mpr possible)]
  dsimp only
  rw [decimalText, if_neg (Nat.not_lt.mpr (counted_roundTo finite notWhole counted)),
    trimZeros_fixed_exactPlaces finite notWhole, fixed_roundTo finite notWhole]

/-- **A shown decimal is the nearest multiple.** A double that is not whole is shown as the multiple
of `10 ^ -places` nearest to its exact value, from a tie the even one, though it is rounded to a
double before it is printed, as long as its digits can be counted. More places than the limit are
refused. -/
theorem ofFloat_decimal (places : ℕ) :
    (placesLimit < places → ofFloat v (.ok places) false = .error .wrongValue) ∧
      (places + wholeDigits v ≤ placesLimit → ∃ (shown : Rendering) (units : ℤ),
        ofFloat v (.ok places) false = .ok shown ∧ ShowsNearest v places shown units) := by
  rw [ofFloat_of_places finite notWhole]
  refine ⟨fun tooMany => ?_, fun counted => ?_⟩
  · rw [decimal, if_pos tooMany]
  · exact ⟨_, _, decimal_eq finite notWhole counted, showsNearest_of_fixed v places _⟩

end Shown

/-- A tie is decided for the even digit. -/
theorem ofFloat_decimal_eighth : ∃ (shown : Rendering) (units : ℤ),
    ofFloat 0.125 (.ok 2) false = .ok shown ∧ ShowsNearest 0.125 2 shown units :=
  (ofFloat_decimal (by decide +kernel) (by decide +kernel) 2).2 (by decide +kernel)

/-- Past the limit there is no text, and a zero that is left of a negative number has no minus. -/
theorem ofFloat_past_placesLimit :
    ofFloat 0.5 (.ok 2147483648) false = .error .wrongValue ∧
      ofFloat (-0.001) (.ok 2) false = .ok ⟨"0", true⟩ ∧
        trimZeros (fixed 2 (-0.001)) = "-0".toList := by
  have text : String.ofList (unsignedZero (trimZeros (fixed 2 (-0.001)))) = "0" := by
    decide +kernel
  have rounded : (roundTo 2 (-0.001) != -0.001) = true := by decide +kernel
  refine ⟨?_, ?_, by decide +kernel⟩
  · rw [ofFloat_of_places (by decide +kernel) (by decide +kernel), decimal, if_pos (by decide)]
  · rw [ofFloat_of_places (by decide +kernel) (by decide +kernel),
      decimal_eq (by decide +kernel) (by decide +kernel) (by decide +kernel), text, rounded]

end Reckoner.Rendering
