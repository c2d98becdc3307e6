import Reckoner.Proofs.Reading

/-!
# Reading numerals

A numeral has no blanks, no underscores and no sign in front, so it is read as an unsigned decimal
(`Reckoner.Decimal.readFloat?_of_isNumeral`): its digits without the point, times a power of ten
that the point and the exponent give.
-/

namespace Reckoner.Decimal

open Token Text

/-! ## The characters of numerals -/

/-- The characters that a numeral is made of. -/
def isNumeralCharacter (c : Char) : Bool :=
  c.isDigit || c == '.' || c == 'e' || c == '+' || c == '-'

/-- What holds of every digit and of the other characters of numerals holds of all of them. -/
theorem forall_isNumeralCharacter {p : Char → Prop} (digits : ∀ n < 10, p (Char.ofNat (48 + n)))
    (others : p '.' ∧ p 'e' ∧ p '+' ∧ p '-') {c : Char} (is : isNumeralCharacter c = true) :
    p c := by
  simp only [isNumeralCharacter, Bool.or_eq_true, beq_iff_eq] at is
  rcases is with (((digit | rfl) | rfl) | rfl) | rfl
  · exact Text.forall_isDigit digits digit
  · exact others.1
  · exact others.2.1
  · exact others.2.2.1
  · exact others.2.2.2

theorem isNumeralCharacter_of_isDigit {c : Char} (digit : c.isDigit = true) :
    isNumeralCharacter c = true := by
  rw [isNumeralCharacter, digit]
  rfl

theorem numeralCharacters_exponent {exponent : List Char} (isExponent : IsExponent exponent) :
    ∀ c ∈ exponent, isNumeralCharacter c = true := by
  cases isExponent with
  | none => exact nofun
  | @marked sign first digits isSign isDigit areDigits =>
      intro c member
      rcases List.mem_cons.mp member with rfl | member
      · rfl
      · rcases List.mem_cons.mp member with rfl | member
        · rcases isSign with rfl | rfl <;> rfl
        · rcases List.mem_cons.mp member with rfl | member
          · exact isNumeralCharacter_of_isDigit isDigit
          · exact isNumeralCharacter_of_isDigit (List.all_eq_true.mp areDigits c member)

theorem numeralCharacters {text : List Char} (isNumeral : IsNumeral text) :
    ∀ c ∈ text, isNumeralCharacter c = true := by
  cases isNumeral with
  | @whole first digits exponent isDigit areDigits isExponent =>
      intro c member
      rcases List.mem_cons.mp member with rfl | member
      · exact isNumeralCharacter_of_isDigit isDigit
      · rcases List.mem_append.mp member with member | member
        · exact isNumeralCharacter_of_isDigit (List.all_eq_true.mp areDigits c member)
        · exact numeralCharacters_exponent isExponent c member
  | @point first digits fraction exponent isDigit areDigits areFraction isExponent =>
      intro c member
      rcases List.mem_cons.mp member with rfl | member
      · exact isNumeralCharacter_of_isDigit isDigit
      · rcases List.mem_append.mp member with member | member
        · exact isNumeralCharacter_of_isDigit (List.all_eq_true.mp areDigits c member)
        · rcases List.mem_cons.mp member with rfl | member
          · rfl
          · rcases List.mem_append.mp member with member | member
            · exact isNumeralCharacter_of_isDigit (List.all_eq_true.mp areFraction c member)
            · exact numeralCharacters_exponent isExponent c member

theorem exists_head_of_isNumeral {text : List Char} (isNumeral : IsNumeral text) :
    ∃ first rest, text = first :: rest ∧ first.isDigit = true := by
  cases isNumeral with
  | whole isDigit areDigits isExponent => exact ⟨_, _, rfl, isDigit⟩
  | point isDigit areDigits areFraction isExponent => exact ⟨_, _, rfl, isDigit⟩

/-! ## What a numeral keeps -/

section Kept

variable {text : List Char}

theorem dropWhile_eq_self {p : Char → Bool} (none : ∀ c ∈ text, p c = false) :
    text.dropWhile p = text := by
  cases text with
  | nil => rfl
  | cons c text =>
      rw [List.dropWhile_cons_of_neg]
      rw [none c List.mem_cons_self]
      exact Bool.false_ne_true

theorem trimMargins_eq_self (none : ∀ c ∈ text, isMargin c = false) : trimMargins text = text := by
  unfold trimMargins
  rw [dropWhile_eq_self none, dropWhile_eq_self fun c member => none c (List.mem_reverse.mp member),
    List.reverse_reverse]

theorem dropUnderscores?_eq_some (none : ∀ c ∈ text, c ≠ '_') :
    dropUnderscores? text = some text := by
  induction text with
  | nil => rfl
  | cons c text ih =>
      have first := none c List.mem_cons_self
      have ofRest := ih fun d member => none d (List.mem_cons_of_mem _ member)
      unfold dropUnderscores?
      split
      · rename_i is
        cases is
      · rename_i is
        cases is
        exact absurd rfl first
      · rename_i is
        cases is
        exact absurd rfl (none '_' (List.mem_cons_of_mem _ List.mem_cons_self))
      · rename_i is
        cases is
        rw [ofRest]
        rfl

end Kept

/-- What starts with no letter is no word. -/
theorem readWord?_eq_none {first : Char} (rest : List Char)
    (stops : first.toLower.isAlpha = false) : readWord? (first :: rest) = none := by
  have heads (word : String) (letter : Char) (others : List Char)
      (spelled : word.toList = letter :: others) (isLetter : letter.isAlpha = true) :
      String.ofList ((first :: rest).map Char.toLower) ≠ word := by
    rintro rfl
    rw [String.toList_ofList, List.map_cons] at spelled
    rw [(List.cons.inj spelled).1, isLetter] at stops
    cases stops
  unfold readWord?
  split
  · rename_i is
    exact absurd is (heads "inf" 'i' ['n', 'f'] rfl rfl)
  · rename_i is
    exact absurd is (heads "infinity" 'i' ['n', 'f', 'i', 'n', 'i', 't', 'y'] rfl rfl)
  · rename_i is
    exact absurd is (heads "nan" 'n' ['a', 'n'] rfl rfl)
  · rfl

theorem isAlpha_toLower_of_isDigit {c : Char} (digit : c.isDigit = true) :
    c.toLower.isAlpha = false :=
  Text.forall_isDigit (p := fun c => c.toLower.isAlpha = false) (by decide) digit

theorem takeSign_eq_self {first : Char} {rest : List Char}
    (starts : first.isDigit = true ∨ first = '.') :
    takeSign (first :: rest) = (false, first :: rest) := by
  unfold takeSign
  split
  · rename_i is
    cases is
    rcases starts with digit | point <;> contradiction
  · rename_i is
    cases is
    rcases starts with digit | point <;> contradiction
  · rfl

/-- A text with the characters of a numeral, and a digit or a point at its start, is read as an
unsigned decimal. -/
theorem readFloat?_eq_readUnsigned? {first : Char} {rest : List Char}
    (characters : ∀ c ∈ first :: rest, isNumeralCharacter c = true)
    (starts : first.isDigit = true ∨ first = '.') :
    readFloat? (first :: rest) = readUnsigned? (first :: rest) := by
  have trimmed : trimMargins (first :: rest) = first :: rest := trimMargins_eq_self
    fun c member => forall_isNumeralCharacter (p := fun c => isMargin c = false) (by decide)
      (by decide) (characters c member)
  have plain : (first :: rest).map plainDigit = first :: rest := by
    refine (List.map_congr_left fun c member => ?_).trans (List.map_id _)
    exact forall_isNumeralCharacter (p := fun c => plainDigit c = id c) (by decide)
      (by decide) (characters c member)
  have kept : dropUnderscores? (first :: rest) = some (first :: rest) :=
    dropUnderscores?_eq_some fun c member =>
      forall_isNumeralCharacter (p := fun c => c ≠ '_') (by decide) (by decide) (characters c member)
  have stops : first.toLower.isAlpha = false := by
    rcases starts with digit | rfl
    · exact isAlpha_toLower_of_isDigit digit
    · rfl
  unfold readFloat?
  rw [trimmed, plain, kept]
  simp only [Option.bind_eq_bind, Option.bind_some, takeSign_eq_self starts,
    readWord?_eq_none rest stops, Option.none_or]
  cases readUnsigned? (first :: rest) <;> rfl

/-- **A numeral is read as an unsigned decimal.** -/
theorem readFloat?_of_isNumeral {text : List Char} (isNumeral : IsNumeral text) :
    readFloat? text = readUnsigned? text := by
  obtain ⟨first, rest, rfl, digit⟩ := exists_head_of_isNumeral isNumeral
  exact readFloat?_eq_readUnsigned? (numeralCharacters isNumeral) (.inl digit)

/-! ## The parts of a numeral -/

theorem takeWhile_digits {digits rest : List Char} (areDigits : digits.all Char.isDigit = true)
    (ends : ∀ c ∈ rest.head?, c.isDigit = false) :
    (digits ++ rest).takeWhile Char.isDigit = digits ∧
      (digits ++ rest).dropWhile Char.isDigit = rest := by
  have all := List.all_eq_true.mp areDigits
  exact ⟨takeWhile_append_of_ends all ends, dropWhile_append_of_ends all ends⟩

theorem head_exponent {exponent : List Char} (isExponent : IsExponent exponent) :
    ∀ c ∈ exponent.head?, c.isDigit = false := by
  cases isExponent with
  | none => exact nofun
  | marked =>
      intro c is
      cases is
      rfl

theorem readUnsigned?_whole {whole exponent : List Char} {power : Int} (some : whole ≠ [])
    (areDigits : whole.all Char.isDigit = true) (isExponent : IsExponent exponent)
    (read : readExponent? exponent = .some power) :
    readUnsigned? (whole ++ exponent) = .some (scaled (digitsValue whole) power) := by
  obtain ⟨taken, dropped⟩ := takeWhile_digits areDigits (head_exponent isExponent)
  cases whole with
  | nil => exact absurd rfl some
  | cons first digits =>
      have same : readUnsigned? (first :: digits ++ exponent) = (readExponent? exponent).map
          fun power => scaled (digitsValue (first :: digits ++ [])) (power - (0 : Nat)) := by
        unfold readUnsigned?
        rw [taken, dropped]
        cases isExponent <;> rfl
      rw [same, read, List.append_nil, Option.map_some, Int.natCast_zero, Int.sub_zero]

theorem readUnsigned?_point {whole fraction exponent : List Char} {power : Int}
    (some : whole ++ fraction ≠ []) (areDigits : whole.all Char.isDigit = true)
    (areFraction : fraction.all Char.isDigit = true) (isExponent : IsExponent exponent)
    (read : readExponent? exponent = .some power) :
    readUnsigned? (whole ++ '.' :: (fraction ++ exponent)) =
      .some (scaled (digitsValue (whole ++ fraction)) (power - fraction.length)) := by
  obtain ⟨taken, dropped⟩ := @takeWhile_digits whole ('.' :: (fraction ++ exponent)) areDigits
    fun c is => by
      cases is
      rfl
  obtain ⟨takenFraction, rest⟩ := takeWhile_digits areFraction (head_exponent isExponent)
  have digits : (whole.isEmpty && fraction.isEmpty) = false := by
    rw [← Bool.not_eq_true, Bool.and_eq_true, List.isEmpty_iff, List.isEmpty_iff,
      ← List.append_eq_nil_iff]
    exact some
  unfold readUnsigned?
  rw [taken, dropped]
  simp only [takenFraction, rest, digits, read, Bool.false_eq_true, if_false, Option.map_some]

end Reckoner.Decimal
