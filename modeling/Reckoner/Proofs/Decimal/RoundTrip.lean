import Reckoner.Proofs.Decimal.Numeral
import Reckoner.Proofs.Decimal.Scientific
import Reckoner.Proofs.Decimal.Search

/-!
# The shortest text reads back

The shortest text of a finite double is a numeral, with a minus in front of it for a negative
double, and the numeral is read as the size of the double
(`Reckoner.Decimal.exists_numeral_of_shortest`).
-/

namespace Reckoner.Decimal

open Token Float.Model Float.Model.UnpackedFloat

/-! ## The value of digits -/

theorem digitsValue_append (first second : List Char) :
    digitsValue (first ++ second) = 10 ^ second.length * digitsValue first + digitsValue second :=
  (Nat.ofDigitChars_append 0).trans Nat.ofDigitChars_eq_ofDigitChars_zero

theorem digitsValue_zeros (count : ℕ) : digitsValue (List.replicate count '0') = 0 :=
  Nat.ofDigitChars_replicate_zero

theorem digitsValue_toDigits (n : ℕ) : digitsValue (Nat.toDigits 10 n) = n :=
  Nat.ofDigitChars_ten_toDigits

theorem all_isDigit_zeros (count : ℕ) : (List.replicate count '0').all Char.isDigit = true := by
  rw [List.all_eq_true]
  intro c member
  rw [List.eq_of_mem_replicate member]
  rfl

theorem all_isDigit_toDigits (n : ℕ) : (Nat.toDigits 10 n).all Char.isDigit = true :=
  List.all_eq_true.mpr fun _ member =>
    Nat.isDigit_of_mem_toDigits (by decide) (Nat.le_refl 10) member

theorem toList_toString (n : ℤ) : (toString n).toList =
    if n < 0 then '-' :: Nat.toDigits 10 n.natAbs else Nat.toDigits 10 n.natAbs := by
  rw [Int.toString_eq_repr, Int.repr_eq_if]
  by_cases negative : n < 0
  · have same : (-n).toNat = n.natAbs := by omega
    rw [if_pos negative, if_neg (Int.not_le.mpr negative), same, String.toList_append,
      Nat.repr_eq_ofList_toDigits, String.toList_ofList, String.toList_ofList]
    rfl
  · have same : n.toNat = n.natAbs := by omega
    rw [if_neg negative, if_pos (Int.not_lt.mp negative), same, Nat.repr_eq_ofList_toDigits,
      String.toList_ofList]

/-- A text is what is left of it without a character at its end, and so many of the character. -/
theorem exists_trailing (c : Char) (text : List Char) : ∃ count, text =
    (text.reverse.dropWhile (· == c)).reverse ++ List.replicate count c := by
  have split := List.takeWhile_append_dropWhile (p := (· == c)) (l := text.reverse)
  refine ⟨(text.reverse.takeWhile (· == c)).length, ?_⟩
  have same : text.reverse.takeWhile (· == c) =
      List.replicate (text.reverse.takeWhile (· == c)).length c :=
    List.eq_replicate_iff.mpr ⟨rfl, fun d member => by
      have is := List.all_eq_true.mp List.all_takeWhile d member
      exact beq_iff_eq.mp is⟩
  rw [same] at split
  have back := congrArg List.reverse split
  rw [List.reverse_append, List.reverse_reverse, List.reverse_replicate] at back
  exact back.symm

/-- The digits of a number are its significant digits and zeros. -/
theorem exists_zeros (n : ℕ) : ∃ zeros, Nat.toDigits 10 n =
    significantDigits n ++ List.replicate zeros '0' :=
  exists_trailing '0' (Nat.toDigits 10 n)

theorem digitsValue_significantDigits {n zeros : ℕ}
    (split : Nat.toDigits 10 n = significantDigits n ++ List.replicate zeros '0') :
    n = digitsValue (significantDigits n) * 10 ^ zeros := by
  have value := digitsValue_toDigits n
  rw [split, digitsValue_append, digitsValue_zeros, List.length_replicate, Nat.add_zero,
    Nat.mul_comm] at value
  exact value.symm

theorem significantDigits_ne_nil {n : ℕ} (pos : 0 < n) : significantDigits n ≠ [] := by
  intro none
  obtain ⟨zeros, split⟩ := exists_zeros n
  have value := digitsValue_significantDigits split
  rw [none] at value
  change n = 0 * 10 ^ zeros at value
  omega

theorem all_isDigit_significantDigits (n : ℕ) :
    (significantDigits n).all Char.isDigit = true := by
  obtain ⟨zeros, split⟩ := exists_zeros n
  have all := all_isDigit_toDigits n
  rw [split, List.all_append, Bool.and_eq_true] at all
  exact all.1

/-! ## Exponents -/

/-- The digits of an exponent, at least two. -/
theorem exists_exponentDigits (power : ℤ) : ∃ first digits, first.isDigit = true ∧
    digits.all Char.isDigit = true ∧ digitsValue (first :: digits) = power.natAbs ∧
      exponentPart power = 'e' :: (if power < 0 then '-' else '+') :: first :: digits := by
  have value (count : ℕ) : digitsValue (List.replicate count '0' ++ Nat.toDigits 10 power.natAbs) =
      power.natAbs := by
    rw [digitsValue_append, digitsValue_zeros, Nat.mul_zero, Nat.zero_add, digitsValue_toDigits]
  have all (count : ℕ) : (List.replicate count '0' ++ Nat.toDigits 10 power.natAbs).all
      Char.isDigit = true := by
    rw [List.all_append, all_isDigit_zeros, all_isDigit_toDigits]
    rfl
  have some (count : ℕ) : List.replicate count '0' ++ Nat.toDigits 10 power.natAbs ≠ [] :=
    fun none => Nat.toDigits_ne_nil (List.append_eq_nil_iff.mp none).2
  have part : exponentPart power = 'e' :: (if power < 0 then '-' else '+') ::
      (List.replicate (2 - (Nat.toDigits 10 power.natAbs).length) '0' ++
        Nat.toDigits 10 power.natAbs) := rfl
  specialize value (2 - (Nat.toDigits 10 power.natAbs).length)
  specialize all (2 - (Nat.toDigits 10 power.natAbs).length)
  specialize some (2 - (Nat.toDigits 10 power.natAbs).length)
  rw [part]
  generalize List.replicate _ '0' ++ Nat.toDigits 10 power.natAbs = digits at value all some ⊢
  cases digits with
  | nil => exact absurd rfl some
  | cons first digits =>
      rw [List.all_cons, Bool.and_eq_true] at all
      exact ⟨first, digits, all.1, all.2, value, rfl⟩

theorem isExponent_exponentPart (power : ℤ) : IsExponent (exponentPart power) := by
  obtain ⟨first, digits, isDigit, areDigits, _, part⟩ := exists_exponentDigits power
  rw [part]
  refine .marked ?_ isDigit areDigits
  by_cases negative : power < 0
  · exact .inr (if_pos negative)
  · exact .inl (if_neg negative)

theorem readExponent?_exponentPart (power : ℤ) :
    readExponent? (exponentPart power) = some power := by
  obtain ⟨first, digits, isDigit, areDigits, value, part⟩ := exists_exponentDigits power
  have all := all_cons_of_all isDigit areDigits
  rw [part]
  by_cases negative : power < 0
  · rw [if_pos negative]
    change (if (true && (first :: digits).all Char.isDigit) = true then
      some (-(digitsValue (first :: digits) : ℤ)) else none) = _
    rw [all, value, Bool.and_self, if_pos rfl]
    congr 1
    omega
  · rw [if_neg negative]
    change (if (true && (first :: digits).all Char.isDigit) = true then
      some (digitsValue (first :: digits) : ℤ) else none) = _
    rw [all, value, Bool.and_self, if_pos rfl]
    congr 1
    omega

/-! ## Layouts -/

/-- The text is a numeral that is read as a decimal, the rational. -/
def Denotes (text : List Char) (x : ℚ) : Prop :=
  IsNumeral text ∧ ∃ digits power, readFloat? text = some (scaled digits power) ∧
    (digits * 10 ^ power : ℚ) = x

theorem denotes_whole {whole exponent : List Char} {power : ℤ} (some : whole ≠ [])
    (areDigits : whole.all Char.isDigit = true) (isExponent : IsExponent exponent)
    (read : readExponent? exponent = .some power) :
    Denotes (whole ++ exponent) (digitsValue whole * 10 ^ power) := by
  have isNumeral : IsNumeral (whole ++ exponent) := by
    cases whole with
    | nil => exact absurd rfl some
    | cons first digits =>
        rw [List.all_cons, Bool.and_eq_true] at areDigits
        exact .whole areDigits.1 areDigits.2 isExponent
  refine ⟨isNumeral, _, _, ?_, rfl⟩
  rw [readFloat?_of_isNumeral isNumeral]
  exact readUnsigned?_whole some areDigits isExponent read

theorem denotes_point {whole fraction exponent : List Char} {power : ℤ} (some : whole ≠ [])
    (areDigits : whole.all Char.isDigit = true) (areFraction : fraction.all Char.isDigit = true)
    (isExponent : IsExponent exponent) (read : readExponent? exponent = .some power) :
    Denotes (whole ++ '.' :: (fraction ++ exponent))
      (digitsValue (whole ++ fraction) * 10 ^ (power - fraction.length)) := by
  have isNumeral : IsNumeral (whole ++ '.' :: (fraction ++ exponent)) := by
    cases whole with
    | nil => exact absurd rfl some
    | cons first digits =>
        rw [List.all_cons, Bool.and_eq_true] at areDigits
        exact .point areDigits.1 areDigits.2 areFraction isExponent
  refine ⟨isNumeral, _, _, ?_, rfl⟩
  rw [readFloat?_of_isNumeral isNumeral]
  exact readUnsigned?_point (List.append_ne_nil_of_left_ne_nil some _) areDigits areFraction
    isExponent read

section Layout

variable {digits : List Char} (some : digits ≠ []) (areDigits : digits.all Char.isDigit = true)

include some areDigits

theorem denotes_scientific (exponent : ℤ) : Denotes (scientific digits exponent)
    (digitsValue digits * 10 ^ (exponent - (digits.length - 1 : ℕ))) := by
  have isExponent := isExponent_exponentPart exponent
  have read := readExponent?_exponentPart exponent
  cases digits with
  | nil => exact absurd rfl some
  | cons first rest =>
      cases rest with
      | nil =>
          have same : exponent - ([first].length - 1 : ℕ) = exponent := sub_zero exponent
          rw [same]
          exact denotes_whole some areDigits isExponent read
      | cons second rest =>
          rw [List.all_cons, Bool.and_eq_true] at areDigits
          have ofFirst : [first].all Char.isDigit = true := by
            rw [List.all_cons, areDigits.1]
            rfl
          exact denotes_point (List.cons_ne_nil _ _) ofFirst areDigits.2 isExponent read

omit some in
/-- Digits below the point, after zeros. -/
theorem denotes_leadingZeros (zeros : ℕ) :
    Denotes ('0' :: '.' :: List.replicate zeros '0' ++ digits)
      (digitsValue digits * 10 ^ (-(zeros + digits.length : ℕ) : ℤ)) := by
  have areFraction : (List.replicate zeros '0' ++ digits).all Char.isDigit = true := by
    rw [List.all_append, all_isDigit_zeros, areDigits]
    rfl
  have denotes := @denotes_point ['0'] _ _ _ (List.cons_ne_nil _ _) rfl areFraction .none rfl
  have zero : digitsValue ['0'] = 0 := rfl
  have value : digitsValue (['0'] ++ (List.replicate zeros '0' ++ digits)) =
      digitsValue digits := by
    rw [digitsValue_append, digitsValue_append, digitsValue_zeros, zero, Nat.mul_zero,
      Nat.mul_zero, Nat.zero_add, Nat.zero_add]
  rw [value, List.append_nil, List.length_append, List.length_replicate, zero_sub] at denotes
  exact denotes

/-- Digits in front of zeros, and of a point if the layout asks for one. -/
theorem denotes_trailingZeros (layout : Layout) (zeros : ℕ) :
    Denotes (digits ++ List.replicate zeros '0' ++ if layout.pointZero then ['.', '0'] else [])
      (digitsValue digits * 10 ^ (zeros : ℤ)) := by
  have areWhole : (digits ++ List.replicate zeros '0').all Char.isDigit = true := by
    rw [List.all_append, all_isDigit_zeros, areDigits]
    rfl
  have nonempty : digits ++ List.replicate zeros '0' ≠ [] :=
    fun none => some (List.append_eq_nil_iff.mp none).1
  have value : digitsValue (digits ++ List.replicate zeros '0') =
      10 ^ zeros * digitsValue digits := by
    rw [digitsValue_append, digitsValue_zeros, List.length_replicate, Nat.add_zero]
  cases layout.pointZero with
  | false =>
      have denotes := @denotes_whole _ _ 0 nonempty areWhole .none rfl
      rw [value, zpow_zero, mul_one, Nat.cast_mul, Nat.cast_pow, Nat.cast_ofNat, mul_comm,
        ← zpow_natCast] at denotes
      exact denotes
  | true =>
      have denotes := @denotes_point _ ['0'] _ _ nonempty areWhole rfl .none rfl
      have tenfold : digitsValue (digits ++ List.replicate zeros '0' ++ ['0']) =
          10 ^ 1 * (10 ^ zeros * digitsValue digits) := by
        rw [digitsValue_append, value]
        rfl
      have same : ((digitsValue (digits ++ List.replicate zeros '0' ++ ['0']) : ℕ) : ℚ) *
          10 ^ (0 - ((['0'] : List Char).length : ℤ)) = digitsValue digits * 10 ^ (zeros : ℤ) := by
        rw [tenfold, zpow_natCast]
        push_cast
        norm_num
        ring
      rw [same] at denotes
      exact denotes

/-- Digits around the point. -/
theorem denotes_split {count : ℕ} (pos : 0 < count) :
    Denotes (digits.take count ++ '.' :: digits.drop count)
      (digitsValue digits * 10 ^ (-(digits.length - count : ℕ) : ℤ)) := by
  rw [List.all_eq_true] at areDigits
  have areTaken : (digits.take count).all Char.isDigit = true := by
    rw [List.all_eq_true]
    intro c member
    exact areDigits c (List.mem_of_mem_take member)
  have areDropped : (digits.drop count).all Char.isDigit = true := by
    rw [List.all_eq_true]
    intro c member
    exact areDigits c (List.mem_of_mem_drop member)
  have nonempty : digits.take count ≠ [] := by
    intro none
    rcases List.take_eq_nil_iff.mp none with rfl | empty
    · exact absurd pos (Nat.lt_irrefl 0)
    · exact some empty
  have denotes := denotes_point nonempty areTaken areDropped .none rfl
  rw [List.take_append_drop, List.append_nil, List.length_drop, zero_sub] at denotes
  exact denotes

theorem denotes_positional (layout : Layout) (exponent : ℤ) :
    Denotes (layout.positional digits exponent)
      (digitsValue digits * 10 ^ (exponent - (digits.length - 1 : ℕ))) := by
  have pos := List.length_pos_iff.mpr some
  unfold Layout.positional
  by_cases negative : exponent < 0
  · rw [if_pos negative]
    have power : exponent - (digits.length - 1 : ℕ) =
        -(((-exponent).toNat - 1 + digits.length : ℕ) : ℤ) := by omega
    rw [power]
    exact denotes_leadingZeros areDigits _
  · rw [if_neg negative]
    dsimp only
    by_cases short : digits.length ≤ exponent.toNat + 1
    · rw [if_pos short]
      have power : exponent - (digits.length - 1 : ℕ) =
          ((exponent.toNat + 1 - digits.length : ℕ) : ℤ) := by omega
      rw [power]
      exact denotes_trailingZeros some areDigits layout _
    · rw [if_neg short]
      have power : exponent - (digits.length - 1 : ℕ) =
          -((digits.length - (exponent.toNat + 1) : ℕ) : ℤ) := by omega
      rw [power]
      exact denotes_split some areDigits (Nat.succ_pos _)

/-- Digits are laid out as a numeral for them. -/
theorem denotes_text (layout : Layout) (exponent : ℤ) : Denotes (layout.text digits exponent)
    (digitsValue digits * 10 ^ (exponent - (digits.length - 1 : ℕ))) := by
  unfold Layout.text
  split
  · exact denotes_positional some areDigits layout exponent
  · exact denotes_scientific some areDigits exponent

end Layout

/-- The significant digits of a number on a grid are laid out as a numeral for it. -/
theorem denotes_significantDigits (layout : Layout) {digits : ℕ} (pos : 0 < digits) (grid : ℤ) :
    Denotes (layout.text (significantDigits digits) (grid + (Nat.toDigits 10 digits).length - 1))
      (digits * 10 ^ grid) := by
  have some := significantDigits_ne_nil pos
  obtain ⟨zeros, split⟩ := exists_zeros digits
  have lengths := congrArg List.length split
  rw [List.length_append, List.length_replicate] at lengths
  have nonempty := List.length_pos_iff.mpr some
  have denotes := denotes_text some (all_isDigit_significantDigits digits) layout
    (grid + (Nat.toDigits 10 digits).length - 1)
  have value : (digits : ℚ) = digitsValue (significantDigits digits) * 10 ^ zeros := by
    exact_mod_cast digitsValue_significantDigits split
  have unit : grid + (Nat.toDigits 10 digits).length - 1 -
      ((significantDigits digits).length - 1 : ℕ) = zeros + grid := by omega
  rw [unit, zpow_add₀ (by norm_num), zpow_natCast, ← mul_assoc, ← value] at denotes
  exact denotes

/-! ## Reading the size of a double -/

/-- The number of digits tells the size of a number. -/
theorem digits_bounds {digits : ℕ} (pos : 0 < digits) :
    10 ^ ((Nat.toDigits 10 digits).length - 1) ≤ digits ∧
      digits < 10 ^ (Nat.toDigits 10 digits).length := by
  have nonempty := @Nat.length_toDigits_pos 10 digits
  refine ⟨?_, (Nat.length_toDigits_le_iff (by decide) nonempty).mp (Nat.le_refl _)⟩
  rcases Nat.eq_or_lt_of_le nonempty with one | more
  · rw [← one]
    exact pos
  · by_contra short
    have le := (Nat.length_toDigits_le_iff (by decide) (by omega)).mpr (Nat.lt_of_not_le short)
    omega

section Around

variable {mantissa digits : ℕ} {exponent power : ℤ} (canonical : Canonical mantissa exponent)
  (around : Around mantissa exponent (digits * 10 ^ power))

include canonical around

theorem length_le_of_around : power + (Nat.toDigits 10 digits).length ≤ 320 := by
  by_contra large
  have full := (digits_bounds (digits_pos_of_around canonical around)).1
  have full : (10 : ℚ) ^ ((Nat.toDigits 10 digits).length - 1) ≤ digits := by exact_mod_cast full
  generalize (Nat.toDigits 10 digits).length = length at large full
  have tens : (0 : ℚ) < 10 ^ power := by positivity
  have bound : (10 : ℚ) ^ (320 : ℤ) ≤ digits * 10 ^ power := by
    calc (10 : ℚ) ^ (320 : ℤ) ≤ 10 ^ (((length - 1 : ℕ) : ℤ) + power) :=
          zpow_le_zpow_right₀ (by norm_num) (by omega)
      _ = 10 ^ (length - 1) * 10 ^ power := by rw [zpow_add₀ (by norm_num), zpow_natCast]
      _ ≤ digits * 10 ^ power := mul_le_mul_of_nonneg_right full tens.le
  have powers : (2 : ℚ) ^ (1024 : ℤ) ≤ 10 ^ (320 : ℤ) := by
    have le : 2 ^ 1024 ≤ 10 ^ 320 := by decide +kernel
    exact_mod_cast le
  exact lt_irrefl _ (lt_of_lt_of_le (lt_of_around canonical around) (le_trans powers bound))

theorem le_length_of_around : -340 ≤ power + (Nat.toDigits 10 digits).length := by
  by_contra small
  have short := (digits_bounds (digits_pos_of_around canonical around)).2
  have short : (digits : ℚ) ≤ 10 ^ (Nat.toDigits 10 digits).length := by
    exact_mod_cast Nat.le_of_lt short
  generalize (Nat.toDigits 10 digits).length = length at small short
  have tens : (0 : ℚ) < 10 ^ power := by positivity
  have bound : digits * 10 ^ power ≤ (10 : ℚ) ^ (-340 : ℤ) := by
    calc (digits * 10 ^ power : ℚ) ≤ 10 ^ length * 10 ^ power :=
          mul_le_mul_of_nonneg_right short tens.le
      _ = 10 ^ ((length : ℤ) + power) := by rw [zpow_add₀ (by norm_num), zpow_natCast]
      _ ≤ 10 ^ (-340 : ℤ) := zpow_le_zpow_right₀ (by norm_num) (by omega)
  have powers : (10 : ℚ) ^ (-340 : ℤ) < 2 ^ (-1075 : ℤ) := by
    have lt : 2 ^ 1075 < 10 ^ 340 := by decide +kernel
    have lt : (2 : ℚ) ^ 1075 < 10 ^ 340 := by exact_mod_cast lt
    rw [zpow_neg, zpow_neg]
    exact inv_strictAnti₀ (by positivity) (by exact_mod_cast lt)
  exact lt_irrefl _ (lt_of_le_of_lt (le_trans (least_of_around canonical around) bound) powers)

/-- Decimals around a double are not set apart as too large or too small. -/
theorem scaled_of_around :
    scaled digits power = ofForm (.finite .positive mantissa exponent canonical.pos) := by
  have pos := digits_pos_of_around canonical around
  have notLarge := length_le_of_around canonical around
  have notSmall := le_length_of_around canonical around
  unfold scaled
  rw [if_neg (by rw [beq_iff_eq]; omega), if_neg (by omega), if_neg (by omega)]
  refine ofScientific_of_around canonical around ?_
  split <;> rename_i sign <;> rw [decide_eq_true_eq] at sign <;> omega

end Around

theorem shortestDigits_ofForm (sign : Sign) {mantissa : ℕ} {exponent : ℤ}
    (canonical : Canonical mantissa exponent) :
    ∃ (digits : ℕ) (grid : ℤ), Around mantissa exponent (digits * 10 ^ grid) ∧
      shortestDigits (ofForm (.finite sign mantissa exponent canonical.pos)) =
        (significantDigits digits, grid + (Nat.toDigits 10 digits).length - 1) := by
  refine ⟨_, _, around_search canonical rfl, ?_⟩
  unfold shortestDigits
  rw [ofFloat_ofForm sign canonical]
  rfl

/-- The digits that the search finds are read as the size of the double. -/
theorem readFloat?_shortestDigits (sign : Sign) {mantissa : ℕ} {exponent : ℤ}
    (canonical : Canonical mantissa exponent) {found : List Char × ℤ}
    (is : shortestDigits (ofForm (.finite sign mantissa exponent canonical.pos)) = found) :
    IsNumeral (shortestLayout.text found.1 found.2) ∧
      readFloat? (shortestLayout.text found.1 found.2) =
        some (ofForm (.finite .positive mantissa exponent canonical.pos)) := by
  obtain ⟨digits, grid, around, same⟩ := shortestDigits_ofForm sign canonical
  obtain rfl := same.symm.trans is
  have pos := digits_pos_of_around canonical around
  obtain ⟨isNumeral, read, power, isRead, same⟩ :=
    denotes_significantDigits shortestLayout pos grid
  rw [← same] at around
  exact ⟨isNumeral, isRead.trans (congrArg Option.some (scaled_of_around canonical around))⟩

/-! ## Reading back -/

theorem isNaN_ofForm {unpacked : UnpackedFloat} (form : Form unpacked) :
    (ofForm unpacked).isNaN = false := by
  change (Float.Model.pack unpacked).unpack.isNaN = false
  rw [unpack_pack form]
  cases form <;> rfl

theorem isInf_ofForm {unpacked : UnpackedFloat} (form : Form unpacked) :
    (ofForm unpacked).isInf = false := by
  change (Float.Model.pack unpacked).unpack.isInf = false
  rw [unpack_pack form]
  cases form <;> rfl

theorem finite_beq_zero (sign : Sign) {mantissa : ℕ} {exponent : ℤ}
    (canonical : Canonical mantissa exponent) :
    (ofForm (.finite sign mantissa exponent canonical.pos) == 0) = false := by
  change (Float.Model.pack _).unpack.beq (Float.Model.pack (.zero .positive)).unpack = false
  rw [unpack_pack (.finite sign canonical), unpack_pack (.zero .positive)]
  cases sign <;> rfl

/-- **The shortest text reads back.** The text of a finite double is a numeral, after a minus where
the double has its sign, and the numeral is read as the double without its sign. -/
theorem exists_numeral_of_shortest {x : Float} (finite : x.isFinite = true) :
    ∃ numeral, IsNumeral numeral ∧ readFloat? numeral = some (if signBit x then -x else x) ∧
      (shortest x).toList = if signBit x then '-' :: numeral else numeral := by
  obtain ⟨unpacked, form, rfl⟩ := exists_form finite
  unfold shortest signedText
  rw [String.toList_ofList, isNaN_ofForm form, isInf_ofForm form]
  simp only [Bool.false_eq_true, if_false]
  cases form with
  | zero sign =>
      have isNumeral : IsNumeral ('0' :: ([] ++ '.' :: (['0'] ++ []))) := .point rfl rfl rfl .none
      refine ⟨_, isNumeral, ?_, ?_⟩
      · cases sign <;> rfl
      · cases sign <;> rfl
  | @finite sign mantissa exponent canonical =>
      obtain ⟨isNumeral, isRead⟩ := readFloat?_shortestDigits sign canonical rfl
      refine ⟨_, isNumeral, ?_, ?_⟩
      · rw [isRead, signBit_ofForm sign canonical, neg_ofForm (.finite sign canonical)]
        cases sign <;> rfl
      · rw [finite_beq_zero sign canonical]
        rfl

end Reckoner.Decimal
