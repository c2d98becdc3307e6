import Reckoner.Proofs.Decimal.Order
import Reckoner.Rendering
import Reckoner.Text.Pieces

/-!
# What shown numbers denote

The text of a shown number is an integer, a fraction, a mixed number, or a decimal with a point or
an exponent. The first three denote a rational (`Reckoner.Rendering.fraction?`), of which they are
the text (`Reckoner.Rendering.fraction?_fractionText`). The others denote the double that they are
read as.
-/

namespace Reckoner.Rendering

open Decimal hiding Denotes
open Text

/-! ## Readers -/

/-- The number that digits denote. -/
def natural? (text : List Char) : Option ℚ :=
  if !text.isEmpty && text.all Char.isDigit then some (digitsValue text) else none

/-- A size behind a minus if it is that of a negative number. -/
def signed (negative : Bool) (size : List Char) : List Char :=
  if negative then '-' :: size else size

/-- The number that a text denotes with a minus in front of it or without one. -/
def signed? (size? : List Char → Option ℚ) : List Char → Option ℚ
  | '-' :: size => (size? size).map (-·)
  | size => size? size

/-- The number that digits denote, or digits around a point. -/
def decimalSize? (text : List Char) : Option ℚ :=
  match cutAt? '.' text with
  | none => natural? text
  | some (whole, fraction) => do
      let whole ← natural? whole
      let part ← natural? fraction
      return whole + part / 10 ^ fraction.length

/-- The number that a decimal without an exponent denotes. -/
def decimal? : List Char → Option ℚ :=
  signed? decimalSize?

/-- The number that two numbers around a slash denote. -/
def quotient? (text : List Char) : Option ℚ := do
  let (numerator, denominator) ← cutAt? '/' text
  return (← natural? numerator) / (← natural? denominator)

/-- The number that digits denote, a fraction, or a mixed number with a blank behind its integer
part. -/
def fractionSize? (text : List Char) : Option ℚ :=
  match cutAt? ' ' text with
  | none => (quotient? text).or (natural? text)
  | some (whole, part) => do return (← natural? whole) + (← quotient? part)

/-- The number that an integer, a fraction or a mixed number denotes. A sign is that of all. -/
def fraction? : List Char → Option ℚ :=
  signed? fractionSize?

/-- The text of a shown number denotes the double: an integer, a fraction or a mixed number by its
exact value, any other text as it is read. -/
def Denotes (text : String) (value : Float) : Prop :=
  match fraction? text.toList with
  | some q => q = exact value
  | none => readFloat? text.toList = some value

instance (text : String) (value : Float) : Decidable (Denotes text value) :=
  match is : fraction? text.toList with
  | some q => decidable_of_iff (q = exact value) (by rw [Denotes, is])
  | none => decidable_of_iff (readFloat? text.toList = some value) (by rw [Denotes, is])

/-! ## Reading digits -/

theorem natural?_digits {digits : List Char} (some : digits ≠ [])
    (areDigits : digits.all Char.isDigit = true) :
    natural? digits = .some (digitsValue digits : ℚ) := by
  rw [natural?, List.isEmpty_eq_false_iff.mpr some, areDigits]
  rfl

theorem natural?_toDigits (n : ℕ) : natural? (Nat.toDigits 10 n) = some (n : ℚ) := by
  rw [natural?_digits Nat.toDigits_ne_nil (all_isDigit_toDigits n), digitsValue_toDigits]

theorem natural?_eq_none {text : List Char} {c : Char} (member : c ∈ text)
    (other : c.isDigit = false) : natural? text = none := by
  have not : text.all Char.isDigit = false := by
    rw [List.all_eq_false]
    exact ⟨c, member, by rw [other]; exact Bool.false_ne_true⟩
  rw [natural?, not, Bool.and_false]
  rfl

theorem not_mem_of_all_isDigit {digits : List Char} (areDigits : digits.all Char.isDigit = true)
    {c : Char} (other : c.isDigit = false) : c ∉ digits := by
  intro member
  rw [List.all_eq_true] at areDigits
  rw [areDigits c member] at other
  cases other

theorem not_mem_toDigits (n : ℕ) {c : Char} (other : c.isDigit = false) :
    c ∉ Nat.toDigits 10 n :=
  not_mem_of_all_isDigit (all_isDigit_toDigits n) other

theorem exists_first_digit {digits : List Char} (some : digits ≠ [])
    (areDigits : digits.all Char.isDigit = true) (others : List Char) :
    ∃ first rest, digits ++ others = first :: rest ∧ first.isDigit = true := by
  obtain ⟨first, rest, rfl⟩ := List.exists_cons_of_ne_nil some
  exact ⟨first, rest ++ others, rfl, List.all_eq_true.mp areDigits _ List.mem_cons_self⟩

theorem cutAt?_eq_none {separator : Char} {text : List Char} (absent : separator ∉ text) :
    cutAt? separator text = none := by
  cases found : cutAt? separator text with
  | none => rfl
  | some parts =>
      obtain ⟨rfl, _⟩ := cutAt?_eq_some.mp found
      exact absurd (List.mem_append_right _ List.mem_cons_self) absent

/-! ## Signs -/

theorem signed?_of_digit (size? : List Char → Option ℚ) {first : Char} {rest : List Char}
    (digit : first.isDigit = true) : signed? size? (first :: rest) = size? (first :: rest) := by
  unfold signed?
  split
  · rename_i is
    cases is
    contradiction
  · rfl

/-- A number is read with its sign from a text that starts with a digit. -/
theorem signed?_eq_some {size? : List Char → Option ℚ} {first : Char} {rest : List Char}
    (digit : first.isDigit = true) {value : ℚ} (read : size? (first :: rest) = some value)
    (negative : Bool) : signed? size? (signed negative (first :: rest)) =
      some (if negative then -value else value) := by
  cases negative with
  | true =>
      change (size? (first :: rest)).map (-·) = _
      rw [read]
      rfl
  | false => exact (signed?_of_digit size? digit).trans read

/-! ## Fractions -/

theorem quotient?_eq_some {numerator denominator : ℕ} :
    quotient? (Nat.toDigits 10 numerator ++ '/' :: Nat.toDigits 10 denominator) =
      some (numerator / denominator : ℚ) := by
  have cut : cutAt? '/' (Nat.toDigits 10 numerator ++ '/' :: Nat.toDigits 10 denominator) =
      some (Nat.toDigits 10 numerator, Nat.toDigits 10 denominator) :=
    cutAt?_eq_some.mpr ⟨rfl, not_mem_toDigits numerator rfl⟩
  rw [quotient?, cut]
  simp only [Option.bind_eq_bind, Option.bind_some, natural?_toDigits]
  rfl

/-- The text of a positive fraction, or of zero. -/
def sizeText (numerator denominator : ℕ) : List Char :=
  if denominator = 1 then Nat.toDigits 10 numerator
  else if numerator ≤ denominator then
    Nat.toDigits 10 numerator ++ '/' :: Nat.toDigits 10 denominator
  else
    Nat.toDigits 10 (numerator / denominator) ++
      ' ' :: (Nat.toDigits 10 (numerator % denominator) ++ '/' :: Nat.toDigits 10 denominator)

theorem fractionSize?_of_noBlank {text : List Char} (absent : ' ' ∉ text) :
    fractionSize? text = (quotient? text).or (natural? text) := by
  rw [fractionSize?, cutAt?_eq_none absent]

theorem fractionSize?_digits {digits : List Char} (some : digits ≠ [])
    (areDigits : digits.all Char.isDigit = true) :
    fractionSize? digits = .some (digitsValue digits : ℚ) := by
  have noSlash : quotient? digits = none := by
    rw [quotient?, cutAt?_eq_none (not_mem_of_all_isDigit areDigits rfl)]
    rfl
  rw [fractionSize?_of_noBlank (not_mem_of_all_isDigit areDigits rfl), noSlash,
    natural?_digits some areDigits]
  rfl

theorem fractionSize?_sizeText (numerator : ℕ) {denominator : ℕ} (pos : 0 < denominator) :
    fractionSize? (sizeText numerator denominator) = some (numerator / denominator : ℚ) := by
  have noBlank (n : ℕ) : ' ' ∉ Nat.toDigits 10 n := not_mem_toDigits n rfl
  unfold sizeText
  split
  · rename_i one
    rw [fractionSize?_digits Nat.toDigits_ne_nil (all_isDigit_toDigits numerator),
      digitsValue_toDigits, one, Nat.cast_one, div_one]
  · split
    · have absent : ' ' ∉ Nat.toDigits 10 numerator ++ '/' :: Nat.toDigits 10 denominator := by
        rw [List.mem_append, List.mem_cons]
        rintro (member | is | member)
        · exact noBlank numerator member
        · cases is
        · exact noBlank denominator member
      rw [fractionSize?_of_noBlank absent, quotient?_eq_some]
      rfl
    · rw [fractionSize?, cutAt?_eq_some.mpr ⟨rfl, noBlank (numerator / denominator)⟩]
      simp only [Option.bind_eq_bind, Option.bind_some, natural?_toDigits, quotient?_eq_some]
      rw [div_eq_quotient_add_rest numerator pos]
      rfl

theorem exists_first_sizeText (numerator denominator : ℕ) :
    ∃ first rest, sizeText numerator denominator = first :: rest ∧ first.isDigit = true := by
  have starts (n : ℕ) := exists_first_digit Nat.toDigits_ne_nil (all_isDigit_toDigits n)
  unfold sizeText
  split
  · have digits := starts numerator []
    rwa [List.append_nil] at digits
  · split
    · exact starts numerator _
    · exact starts (numerator / denominator) _

theorem toList_toString_nat (n : ℕ) : (toString n).toList = Nat.toDigits 10 n := by
  change (Nat.repr n).toList = _
  rw [Nat.repr_eq_ofList_toDigits, String.toList_ofList]

/-- The integer part of a mixed number has the sign of the number. -/
theorem tdiv_of_large {n : ℤ} {d : ℕ} (pos : 0 < d) (large : d < n.natAbs) :
    (n.tdiv d < 0 ↔ n < 0) ∧ (n.tdiv d).natAbs = n.natAbs / d := by
  have size : (n.tdiv d).natAbs = n.natAbs / d := Int.natAbs_tdiv n d
  have some : 0 < n.natAbs / d := Nat.div_pos (Nat.le_of_lt large) pos
  refine ⟨?_, size⟩
  rcases Int.le_total 0 n with nonneg | nonpos
  · have sign := Int.tdiv_nonneg nonneg (Int.natCast_nonneg d)
    omega
  · have sign : 0 ≤ (-n).tdiv d := Int.tdiv_nonneg (by omega) (Int.natCast_nonneg d)
    rw [Int.neg_tdiv] at sign
    omega

/-- The text of a fraction is that of its size, after a minus if it is below zero. -/
theorem toList_fractionText (q : ℚ) :
    (fractionText q).toList = signed (q.num < 0) (sizeText q.num.natAbs q.den) := by
  have slash : "/".toList = ['/'] := rfl
  have blank : " ".toList = [' '] := rfl
  unfold fractionText signed sizeText
  by_cases one : q.den = 1
  · simp only [one, if_true, toList_toString, decide_eq_true_eq]
  · by_cases proper : q.num.natAbs ≤ q.den
    · simp only [one, proper, if_true, if_false, String.toList_append, toList_toString,
        toList_toString_nat, slash, decide_eq_true_eq]
      split <;> simp only [List.cons_append, List.append_assoc, List.nil_append]
    · obtain ⟨sign, size⟩ := tdiv_of_large q.den_pos (Nat.lt_of_not_le proper)
      simp only [one, proper, if_false, String.toList_append, toList_toString,
        toList_toString_nat, slash, blank, decide_eq_true_eq, sign, size]
      split <;> simp only [List.cons_append, List.append_assoc, List.nil_append]

/-- **A fraction is read back from its text.** -/
theorem fraction?_fractionText (q : ℚ) : fraction? (fractionText q).toList = some q := by
  have read := fractionSize?_sizeText q.num.natAbs q.den_pos
  obtain ⟨first, rest, text, digit⟩ := exists_first_sizeText q.num.natAbs q.den
  rw [text] at read
  rw [toList_fractionText, text, fraction?, signed?_eq_some digit read, Option.some.injEq]
  have value := Rat.num_div_den q
  by_cases negative : q.num < 0
  · have size : (q.num : ℚ) = -(q.num.natAbs : ℕ) := by
      rw [Nat.cast_natAbs, abs_of_neg negative]
      push_cast
      rw [neg_neg]
    rw [if_pos (decide_eq_true negative), ← neg_div, ← size, value]
  · have size : (q.num : ℚ) = (q.num.natAbs : ℕ) := by
      rw [Nat.cast_natAbs, abs_of_nonneg (not_lt.mp negative)]
    rw [if_neg (by rw [decide_eq_true_eq]; exact negative), ← size, value]

theorem fraction?_toString (n : ℤ) : fraction? (toString n).toList = some (n : ℚ) := by
  have read := fraction?_fractionText n
  rwa [fractionText, if_pos (Rat.den_intCast n), Rat.num_intCast] at read

/-! ## Texts that are no fraction -/

section Other

variable {text : List Char} {c : Char} (member : c ∈ text) (other : c.isDigit = false)

include member other

theorem quotient?_eq_none (notSlash : c ≠ '/') : quotient? text = none := by
  unfold quotient?
  cases found : cutAt? '/' text with
  | none => rfl
  | some parts =>
      obtain ⟨rfl, _⟩ := cutAt?_eq_some.mp found
      rcases List.mem_append.mp member with inFirst | behind
      · simp only [Option.bind_eq_bind, Option.bind_some, natural?_eq_none inFirst other,
          Option.bind_none]
      · have inSecond := (List.mem_cons.mp behind).resolve_left notSlash
        simp only [Option.bind_eq_bind, Option.bind_some, natural?_eq_none inSecond other,
          Option.bind_none, Option.bind_fun_none]

theorem fractionSize?_eq_none (notSlash : c ≠ '/') (notBlank : c ≠ ' ') :
    fractionSize? text = none := by
  unfold fractionSize?
  cases found : cutAt? ' ' text with
  | none =>
      dsimp only
      rw [quotient?_eq_none member other notSlash, natural?_eq_none member other]
      rfl
  | some parts =>
      obtain ⟨rfl, _⟩ := cutAt?_eq_some.mp found
      rcases List.mem_append.mp member with inFirst | behind
      · simp only [Option.bind_eq_bind, natural?_eq_none inFirst other, Option.bind_none]
      · have inSecond := (List.mem_cons.mp behind).resolve_left notBlank
        simp only [Option.bind_eq_bind, quotient?_eq_none inSecond other notSlash,
          Option.bind_none, Option.bind_fun_none]

/-- A character that stands in no fraction. -/
theorem fraction?_eq_none (notSlash : c ≠ '/') (notBlank : c ≠ ' ') (notMinus : c ≠ '-') :
    fraction? text = none := by
  unfold fraction? signed?
  split
  · have inSize := (List.mem_cons.mp member).resolve_left notMinus
    rw [fractionSize?_eq_none inSize other notSlash notBlank]
    rfl
  · exact fractionSize?_eq_none member other notSlash notBlank

end Other

end Reckoner.Rendering
