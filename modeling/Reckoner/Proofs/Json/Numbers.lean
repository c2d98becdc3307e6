import Mathlib
import Reckoner.Json.Reader
import Reckoner.Json.Writer
import Reckoner.Proofs.Decimal.RoundTrip

/-!
# Numbers are read as they were written

The reader of JSON is stricter than that of tokens: no superfluous zero stands before the whole
digits, and a point is followed by digits. What the writer makes of an integer or a finite double
keeps to that, and a double always has a point or an exponent, so that the two kinds of number stay
apart (`Reckoner.Json.readNumber_integer`, `Reckoner.Json.readNumber_shortest`).
-/

namespace Reckoner.Json

open Decimal Float.Model Float.Model.UnpackedFloat
open Token (IsExponent)

/-! ## The parts of a number -/

/-- The whole digits of a number: a zero alone, or digits that do not start with one. -/
inductive IsWhole : List Char → Prop
  | zero : IsWhole ['0']
  | digits {first : Char} {digits : List Char} (notZero : first ≠ '0')
      (isDigit : first.isDigit = true) (areDigits : digits.all Char.isDigit = true) :
      IsWhole (first :: digits)

/-- What follows the whole digits up to the exponent: nothing, or a point and digits. -/
inductive IsFraction : List Char → Prop
  | none : IsFraction []
  | point {first : Char} {digits : List Char} (isDigit : first.isDigit = true)
      (areDigits : digits.all Char.isDigit = true) : IsFraction ('.' :: first :: digits)

/-- What may follow a value that the writer has written: nothing, a comma or a line break. -/
def AtCut (rest : List Char) : Prop :=
  ∀ c ∈ rest.head?, c = ',' ∨ c = '\n'

variable {whole fraction exponent rest : List Char}

/-- The two characters after a value have every property that no part of a number has. -/
theorem AtCut.forall_head {p : Char → Bool} (cut : AtCut rest) (comma : p ',' = false)
    (newLine : p '\n' = false) : ∀ c ∈ rest.head?, p c = false := by
  intro c is
  rcases cut c is with rfl | rfl
  · exact comma
  · exact newLine

theorem takeWhole_append (isWhole : IsWhole whole)
    (ends : ∀ c ∈ rest.head?, c.isDigit = false) : takeWhole (whole ++ rest) = (whole, rest) := by
  cases isWhole with
  | zero => rfl
  | @digits first digits notZero isDigit areDigits =>
      have all : ∀ c ∈ first :: digits, c.isDigit = true :=
        List.forall_mem_cons.mpr ⟨isDigit, List.all_eq_true.mp areDigits⟩
      rw [List.cons_append, takeWhole, ← List.cons_append, takeWhile_append_of_ends all ends,
        dropWhile_append_of_ends all ends]
      exact fun _ is => notZero (List.cons.inj is).1

theorem takeFraction_of_ends (ends : ∀ c ∈ rest.head?, (c == '.') = false) :
    takeFraction rest = ([], rest) := by
  unfold takeFraction
  split
  · exact absurd (ends '.' rfl) (by decide)
  · rfl

theorem takeFraction_append (isFraction : IsFraction fraction)
    (ends : ∀ c ∈ rest.head?, (c.isDigit || c == '.') = false) :
    takeFraction (fraction ++ rest) = (fraction, rest) := by
  cases isFraction with
  | none =>
      exact takeFraction_of_ends fun c is => (Bool.or_eq_false_iff.mp (ends c is)).2
  | @point first digits isDigit areDigits =>
      have all := List.all_eq_true.mp areDigits
      have stops : ∀ c ∈ rest.head?, c.isDigit = false := fun c is =>
        (Bool.or_eq_false_iff.mp (ends c is)).1
      rw [List.cons_append, List.cons_append, takeFraction, if_pos isDigit,
        takeWhile_append_of_ends all stops, dropWhile_append_of_ends all stops]

theorem takeExponent_of_ends (ends : ∀ c ∈ rest.head?, (c == 'e' || c == 'E') = false) :
    takeExponent rest = ([], rest) := by
  cases rest with
  | nil => rfl
  | cons mark rest =>
      have noMark := ends mark rfl
      unfold takeExponent
      dsimp only
      rw [noMark]
      split <;> rfl

theorem takeExponent_append (isExponent : IsExponent exponent) (cut : AtCut rest) :
    takeExponent (exponent ++ rest) = (exponent, rest) := by
  cases isExponent with
  | none => exact takeExponent_of_ends (cut.forall_head rfl rfl)
  | @marked sign first digits isSign isDigit areDigits =>
      have all : ∀ c ∈ first :: digits, c.isDigit = true :=
        List.forall_mem_cons.mpr ⟨isDigit, List.all_eq_true.mp areDigits⟩
      have ends : ∀ c ∈ rest.head?, c.isDigit = false := cut.forall_head rfl rfl
      have taken := takeWhile_append_of_ends all ends
      have dropped := dropWhile_append_of_ends all ends
      rcases isSign with rfl | rfl
      · change (if (true && first.isDigit) = true then
          ('e' :: ['+'] ++ (first :: digits ++ rest).takeWhile Char.isDigit,
            (first :: digits ++ rest).dropWhile Char.isDigit) else _) = _
        rw [isDigit, taken, dropped]
        rfl
      · change (if (true && first.isDigit) = true then
          ('e' :: ['-'] ++ (first :: digits ++ rest).takeWhile Char.isDigit,
            (first :: digits ++ rest).dropWhile Char.isDigit) else _) = _
        rw [isDigit, taken, dropped]
        rfl

/-- Whole digits alone are an integer. -/
theorem readSize_integer (isWhole : IsWhole whole) (short : whole.length ≤ digitLimit)
    (cut : AtCut rest) (negative : Bool) : readSize negative (whole ++ rest) =
      .ok (integer (if negative then -(digitsValue whole : ℤ) else digitsValue whole), rest) := by
  have some : ¬whole.isEmpty = true := by cases isWhole <;> exact Bool.false_ne_true
  rw [readSize, takeWhole_append isWhole (cut.forall_head rfl rfl)]
  dsimp only
  rw [if_neg some, takeFraction_of_ends (cut.forall_head rfl rfl)]
  dsimp only
  rw [takeExponent_of_ends (cut.forall_head rfl rfl)]
  dsimp only
  rw [List.isEmpty_nil, Bool.and_self, if_pos rfl, if_neg (Nat.not_lt.mpr short)]

/-- With a point or an exponent a number is a double. -/
theorem readSize_double (isWhole : IsWhole whole) (isFraction : IsFraction fraction)
    (isExponent : IsExponent exponent) (goesOn : fraction ++ exponent ≠ []) (cut : AtCut rest)
    {value : Float} (read : readUnsigned? (whole ++ (fraction ++ exponent)) = .some value)
    (negative : Bool) : readSize negative (whole ++ (fraction ++ exponent) ++ rest) =
      .ok (double (if negative then -value else value), rest) := by
  have some : ¬whole.isEmpty = true := by cases isWhole <;> exact Bool.false_ne_true
  have more : ¬(fraction.isEmpty && exponent.isEmpty) = true := by
    rw [Bool.and_eq_true, List.isEmpty_iff, List.isEmpty_iff, ← List.append_eq_nil_iff]
    exact goesOn
  have behindFraction : ∀ c ∈ (exponent ++ rest).head?, (c.isDigit || c == '.') = false := by
    cases isExponent with
    | none => exact cut.forall_head rfl rfl
    | marked =>
        intro c is
        cases is
        rfl
  have behindWhole : ∀ c ∈ (fraction ++ (exponent ++ rest)).head?, c.isDigit = false := by
    cases isFraction with
    | none => exact fun c is => (Bool.or_eq_false_iff.mp (behindFraction c is)).1
    | point =>
        intro c is
        cases is
        rfl
  rw [List.append_assoc, List.append_assoc, readSize, takeWhole_append isWhole behindWhole]
  dsimp only
  rw [if_neg some, takeFraction_append isFraction behindFraction]
  dsimp only
  rw [takeExponent_append isExponent cut]
  dsimp only
  rw [if_neg more, List.append_assoc, read]

/-! ## Integers -/

/-- The digits of a number other than zero do not start with a zero. -/
theorem exists_first_digit {n : ℕ} (pos : 0 < n) :
    ∃ first digits, Nat.toDigits 10 n = first :: digits ∧ first ≠ '0' := by
  induction n using Nat.strong_induction_on with
  | _ n ih =>
      rcases Nat.lt_or_ge n 10 with small | large
      · have each : ∀ n < 10, 0 < n → Nat.digitChar n ≠ '0' := by decide
        exact ⟨_, [], Nat.toDigits_of_lt_base small, each n small pos⟩
      · obtain ⟨first, digits, is, notZero⟩ := ih (n / 10) (by omega) (by omega)
        rw [Nat.toDigits_of_base_le (by decide) large, is]
        exact ⟨first, _, rfl, notZero⟩

theorem isWhole_toDigits (n : ℕ) : IsWhole (Nat.toDigits 10 n) := by
  rcases Nat.eq_zero_or_pos n with rfl | pos
  · exact .zero
  · obtain ⟨first, digits, is, notZero⟩ := exists_first_digit pos
    have all := all_isDigit_toDigits n
    rw [is, List.all_cons, Bool.and_eq_true] at all
    rw [is]
    exact .digits notZero all.1 all.2

theorem IsWhole.exists_head (isWhole : IsWhole whole) :
    ∃ first digits, whole = first :: digits ∧ first.isDigit = true := by
  cases isWhole with
  | zero => exact ⟨_, _, rfl, rfl⟩
  | digits _ isDigit => exact ⟨_, _, rfl, isDigit⟩

theorem readNumber_of_isWhole (isWhole : IsWhole whole) (rest : List Char) :
    readNumber (whole ++ rest) = readSize false (whole ++ rest) := by
  obtain ⟨first, digits, rfl, isDigit⟩ := isWhole.exists_head
  rw [List.cons_append, readNumber]
  intro size is
  cases is
  cases isDigit

/-- The text starts with a digit, or with a minus and a digit. -/
inductive StartsNumber : List Char → Prop
  | digit {first : Char} (isDigit : first.isDigit = true) (rest : List Char) :
      StartsNumber (first :: rest)
  | minus {first : Char} (isDigit : first.isDigit = true) (rest : List Char) :
      StartsNumber ('-' :: first :: rest)

theorem IsWhole.startsNumber (isWhole : IsWhole whole) (rest : List Char) :
    StartsNumber (whole ++ rest) := by
  obtain ⟨first, digits, rfl, isDigit⟩ := isWhole.exists_head
  exact .digit isDigit _

theorem IsWhole.startsNumber_minus (isWhole : IsWhole whole) (rest : List Char) :
    StartsNumber ('-' :: (whole ++ rest)) := by
  obtain ⟨first, digits, rfl, isDigit⟩ := isWhole.exists_head
  exact .minus isDigit _

theorem startsNumber_toString (n : ℤ) : StartsNumber (toString n).toList := by
  have isWhole := isWhole_toDigits n.natAbs
  rw [toList_toString, ← List.append_nil (Nat.toDigits 10 n.natAbs)]
  split
  · exact isWhole.startsNumber_minus []
  · exact isWhole.startsNumber []

/-- **Integers are read back** up to the limit on digits. -/
theorem readNumber_integer {n : ℤ} (short : n.natAbs < 10 ^ digitLimit) (cut : AtCut rest) :
    readNumber ((toString n).toList ++ rest) = .ok (integer n, rest) := by
  have isWhole := isWhole_toDigits n.natAbs
  have length : (Nat.toDigits 10 n.natAbs).length ≤ digitLimit :=
    (Nat.length_toDigits_le_iff (by decide) (by decide)).mpr short
  have read := readSize_integer isWhole length cut
  rw [digitsValue_toDigits] at read
  rw [toList_toString]
  by_cases negative : n < 0
  · have same : -(n.natAbs : ℤ) = n := by omega
    have ofSize := read true
    rw [if_pos rfl, same] at ofSize
    rw [if_pos negative]
    exact ofSize
  · have same : (n.natAbs : ℤ) = n := by omega
    have ofSize := read false
    rw [if_neg Bool.false_ne_true, same] at ofSize
    rw [if_neg negative, readNumber_of_isWhole isWhole, ofSize]

/-! ## Doubles -/

/-- The text of the size of a double that the reader takes for one. -/
inductive IsSize : List Char → Prop
  | mk {whole fraction exponent : List Char} (isWhole : IsWhole whole)
      (isFraction : IsFraction fraction) (isExponent : IsExponent exponent)
      (goesOn : fraction ++ exponent ≠ []) : IsSize (whole ++ (fraction ++ exponent))

section Layout

variable {first : Char} {digits : List Char} (notZero : first ≠ '0')
  (areDigits : (first :: digits).all Char.isDigit = true)

include notZero areDigits

theorem isSize_scientific (power : ℤ) : IsSize (scientific (first :: digits) power) := by
  have isExponent := isExponent_exponentPart power
  rw [List.all_cons, Bool.and_eq_true] at areDigits
  have isWhole : IsWhole [first] := .digits notZero areDigits.1 rfl
  cases digits with
  | nil => exact @IsSize.mk [first] [] _ isWhole .none isExponent (List.cons_ne_nil _ _)
  | cons second digits =>
      rw [List.all_cons, Bool.and_eq_true] at areDigits
      have isFraction := IsFraction.point areDigits.2.1 areDigits.2.2
      exact @IsSize.mk [first] _ _ isWhole isFraction isExponent (List.cons_ne_nil _ _)

theorem isSize_positional (power : ℤ) :
    IsSize (shortestLayout.positional (first :: digits) power) := by
  unfold Layout.positional
  by_cases negative : power < 0
  · rw [if_pos negative]
    generalize (-power).toNat - 1 = zeros
    have isFraction : IsFraction ('.' :: (List.replicate zeros '0' ++ first :: digits)) := by
      rw [List.all_cons, Bool.and_eq_true] at areDigits
      cases zeros with
      | zero => exact .point areDigits.1 areDigits.2
      | succ zeros =>
          refine @IsFraction.point '0' (List.replicate zeros '0' ++ first :: digits) rfl ?_
          rw [List.all_append, all_isDigit_zeros, List.all_cons, areDigits.1, areDigits.2]
          rfl
    have isSize := IsSize.mk .zero isFraction .none (List.cons_ne_nil _ _)
    rw [List.append_nil] at isSize
    exact isSize
  · rw [if_neg negative]
    dsimp only
    by_cases short : (first :: digits).length ≤ power.toNat + 1
    · rw [if_pos short]
      generalize power.toNat + 1 - (first :: digits).length = zeros
      rw [List.all_cons, Bool.and_eq_true] at areDigits
      have isWhole : IsWhole (first :: digits ++ List.replicate zeros '0') := by
        refine @IsWhole.digits _ (digits ++ _) notZero areDigits.1 ?_
        rw [List.all_append, areDigits.2, all_isDigit_zeros]
        rfl
      have isFraction : IsFraction ['.', '0'] := .point rfl rfl
      exact .mk isWhole isFraction .none (List.cons_ne_nil _ _)
    · rw [if_neg short]
      have all := List.all_eq_true.mp areDigits
      have isWhole : IsWhole ((first :: digits).take (power.toNat + 1)) := by
        rw [List.take_succ_cons]
        refine .digits notZero (all first List.mem_cons_self) (List.all_eq_true.mpr fun c is => ?_)
        exact all c (List.mem_cons_of_mem _ (List.mem_of_mem_take is))
      cases dropped : (first :: digits).drop (power.toNat + 1) with
      | nil => exact absurd (List.drop_eq_nil_iff.mp dropped) short
      | cons next more =>
          have ofDropped : ∀ c ∈ next :: more, c.isDigit = true := fun c is =>
            all c (List.mem_of_mem_drop (dropped ▸ is))
          obtain ⟨ofNext, ofMore⟩ := List.forall_mem_cons.mp ofDropped
          have isFraction := IsFraction.point ofNext (List.all_eq_true.mpr ofMore)
          have isSize := IsSize.mk isWhole isFraction .none (List.cons_ne_nil _ _)
          rw [List.append_nil] at isSize
          exact isSize

theorem isSize_text (power : ℤ) : IsSize (shortestLayout.text (first :: digits) power) := by
  unfold Layout.text
  split
  · exact isSize_positional notZero areDigits power
  · exact isSize_scientific notZero areDigits power

end Layout

/-- The significant digits of a number start with its first digit. -/
theorem exists_first_significant {n : ℕ} (pos : 0 < n) :
    ∃ first digits, significantDigits n = first :: digits ∧ first ≠ '0' := by
  obtain ⟨first, digits, is, notZero⟩ := exists_first_digit pos
  obtain ⟨zeros, split⟩ := exists_zeros n
  cases same : significantDigits n with
  | nil => exact absurd same (significantDigits_ne_nil pos)
  | cons head tail =>
      rw [same, is, List.cons_append] at split
      cases split
      exact ⟨_, _, rfl, notZero⟩

/-- The shortest text of a finite double is a size, after a minus where the double has its sign. -/
theorem exists_size_of_shortest {x : Float} (finite : x.isFinite = true) :
    ∃ size, IsSize size ∧
      (shortest x).toList = if signBit x then '-' :: size else size := by
  obtain ⟨unpacked, form, rfl⟩ := exists_form finite
  unfold shortest signedText
  rw [String.toList_ofList, isNaN_ofForm form, isInf_ofForm form]
  simp only [Bool.false_eq_true, if_false]
  cases form with
  | zero sign =>
      have isFraction : IsFraction ['.', '0'] := .point rfl rfl
      refine ⟨_, .mk .zero isFraction .none (List.cons_ne_nil _ _), ?_⟩
      cases sign <;> rfl
  | @finite sign mantissa exponent canonical =>
      obtain ⟨digits, grid, around, found⟩ := shortestDigits_ofForm sign canonical
      have pos := digits_pos_of_around canonical around
      obtain ⟨first, more, is, notZero⟩ := exists_first_significant pos
      have areDigits := all_isDigit_significantDigits digits
      rw [is] at found areDigits
      refine ⟨_, isSize_text notZero areDigits (grid + (Nat.toDigits 10 digits).length - 1), ?_⟩
      rw [found, finite_beq_zero sign canonical]
      rfl

theorem startsNumber_shortest {x : Float} (finite : x.isFinite = true) :
    StartsNumber (shortest x).toList := by
  obtain ⟨size, isSize, is⟩ := exists_size_of_shortest finite
  rw [is]
  cases isSize with
  | mk isWhole =>
      split
      · exact isWhole.startsNumber_minus _
      · exact isWhole.startsNumber _

/-- **Doubles are read back.** -/
theorem readNumber_shortest {x : Float} (finite : x.isFinite = true) (cut : AtCut rest) :
    readNumber ((shortest x).toList ++ rest) = .ok (double x, rest) := by
  obtain ⟨numeral, isNumeral, read, is⟩ := exists_numeral_of_shortest finite
  obtain ⟨size, isSize, same⟩ := exists_size_of_shortest finite
  rw [is] at same ⊢
  rw [Decimal.readFloat?_of_isNumeral isNumeral] at read
  generalize signBit x = sign at read same ⊢
  cases sign with
  | false =>
      obtain rfl : numeral = size := same
      cases isSize with
      | mk isWhole isFraction isExponent goesOn =>
          have ofSize := readSize_double isWhole isFraction isExponent goesOn cut read false
          rw [if_neg Bool.false_ne_true, List.append_assoc, readNumber_of_isWhole isWhole,
            ← List.append_assoc, ofSize]
          rfl
  | true =>
      obtain rfl : numeral = size := (List.cons.inj same).2
      cases isSize with
      | mk isWhole isFraction isExponent goesOn =>
          have ofSize := readSize_double isWhole isFraction isExponent goesOn cut read true
          rw [if_pos rfl, if_pos rfl, neg_neg_of_isFinite finite] at ofSize
          exact ofSize

end Reckoner.Json
