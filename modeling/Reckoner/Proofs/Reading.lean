import Reckoner.Proofs.Characters
import Reckoner.Proofs.Outcome
import Reckoner.Proofs.Prefix
import Reckoner.Token.Lexer

/-!
# Reading numbers, names and symbols

What the reader of tokens does with a text that starts with a number, a name, a symbol or a blank,
where the number or the name ends before a boundary.
-/

namespace Reckoner.Token

open Outcome Reckoner.Text

/-! ## Numbers -/

/-- The texts of exponents: none, or a mark, a sign and digits. -/
inductive IsExponent : List Char → Prop
  | none : IsExponent []
  | marked {sign first : Char} {digits : List Char} (isSign : sign = '+' ∨ sign = '-')
      (isDigit : first.isDigit = true) (areDigits : digits.all Char.isDigit = true) :
      IsExponent ('e' :: sign :: first :: digits)

/-- The texts of numbers without a sign: digits, with or without a point and digits, and an
exponent. -/
inductive IsNumeral : List Char → Prop
  | whole {first : Char} {digits exponent : List Char} (isDigit : first.isDigit = true)
      (areDigits : digits.all Char.isDigit = true) (isExponent : IsExponent exponent) :
      IsNumeral (first :: (digits ++ exponent))
  | point {first : Char} {digits fraction exponent : List Char} (isDigit : first.isDigit = true)
      (areDigits : digits.all Char.isDigit = true)
      (areFraction : fraction.all Char.isDigit = true) (isExponent : IsExponent exponent) :
      IsNumeral (first :: (digits ++ '.' :: (fraction ++ exponent)))

theorem isNumeral_digits {first : Char} {digits : List Char} (isDigit : first.isDigit = true)
    (areDigits : digits.all Char.isDigit = true) : IsNumeral (first :: digits) := by
  have isNumeral := IsNumeral.whole isDigit areDigits .none
  rwa [List.append_nil] at isNumeral

theorem takeDigits_append {digits rest : List Char} (areDigits : digits.all Char.isDigit = true)
    (ends : ∀ c ∈ rest.head?, isDecimalDigit c = false) :
    takeDigits (digits ++ rest) = (digits, rest) := by
  have all : ∀ c ∈ digits, isDecimalDigit c = true := by
    intro c member
    exact isDecimalDigit_of_isDigit (List.all_eq_true.mp areDigits c member)
  rw [takeDigits, takeWhile_append_of_ends all ends, dropWhile_append_of_ends all ends]

theorem takeDigits_boundary {digits rest : List Char} (areDigits : digits.all Char.isDigit = true)
    (ends : AtBoundary rest) : takeDigits (digits ++ rest) = (digits, rest) :=
  takeDigits_append areDigits fun c is => isDecimalDigit_of_isBoundary (ends c is)

theorem takePoint_of_head {rest : List Char} (ends : ∀ c ∈ rest.head?, c ≠ '.') :
    takePoint rest = ([], rest) := by
  unfold takePoint
  split
  · exact absurd rfl (ends '.' rfl)
  · rfl

theorem takePoint_boundary {rest : List Char} (ends : AtBoundary rest) :
    takePoint rest = ([], rest) :=
  takePoint_of_head fun c is => ne_point_of_isBoundary (ends c is)

/-- A letter is no boundary, so the mark of an exponent is none. -/
theorem not_mark_of_isBoundary {c : Char} (boundary : isBoundary c = true) :
    (c == 'e' || c == 'E') = false := by
  have stops := isLetter_of_isBoundary boundary
  rw [Bool.or_eq_false_iff, beq_eq_false_iff_ne, beq_eq_false_iff_ne]
  constructor
  · rintro rfl
    exact absurd stops (by decide)
  · rintro rfl
    exact absurd stops (by decide)

theorem takeExponent_boundary {rest : List Char} (ends : AtBoundary rest) :
    takeExponent rest = ([], rest) := by
  unfold takeExponent
  split
  · rw [if_neg (by rw [not_mark_of_isBoundary (ends _ rfl)]; exact Bool.false_ne_true)]
  · rw [if_neg (by rw [not_mark_of_isBoundary (ends _ rfl)]; exact Bool.false_ne_true)]
  · rfl

theorem takeExponent_append {exponent rest : List Char} (isExponent : IsExponent exponent)
    (ends : AtBoundary rest) : takeExponent (exponent ++ rest) = (exponent, rest) := by
  cases isExponent with
  | none => exact takeExponent_boundary ends
  | @marked sign first digits isSign isDigit areDigits =>
      have signed : ((sign == '+' || sign == '-') && isDecimalDigit first) = true := by
        rw [isDecimalDigit_of_isDigit isDigit]
        rcases isSign with rfl | rfl <;> rfl
      rw [List.cons_append, List.cons_append, List.cons_append, takeExponent, if_pos (by rfl),
        if_pos signed, takeDigits_boundary areDigits ends]

/-- What follows the digits of a numeral before its exponent is no digit. -/
theorem head_exponent_append {exponent rest : List Char} (isExponent : IsExponent exponent)
    (ends : AtBoundary rest) : ∀ c ∈ (exponent ++ rest).head?, isDecimalDigit c = false := by
  cases isExponent with
  | none =>
      intro c is
      exact isDecimalDigit_of_isBoundary (ends c is)
  | marked =>
      intro c is
      cases is
      decide

theorem takePoint_exponent {exponent rest : List Char} (isExponent : IsExponent exponent)
    (ends : AtBoundary rest) : takePoint (exponent ++ rest) = ([], exponent ++ rest) := by
  cases isExponent with
  | none => exact takePoint_boundary ends
  | marked => rfl

/-- A numeral is read to its end. -/
theorem takeNumber?_append {digits rest : List Char} (isNumeral : IsNumeral digits)
    (ends : AtBoundary rest) : takeNumber? (digits ++ rest) = some (digits, rest) := by
  cases isNumeral with
  | @whole first digits exponent isDigit areDigits isExponent =>
      rw [List.cons_append, List.append_assoc, takeNumber?, if_pos isDigit]
      simp only [takeAfterDigit, takeDigits_append areDigits (head_exponent_append isExponent ends),
        takePoint_exponent isExponent ends, takeExponent_append isExponent ends, List.append_nil]
  | @point first digits fraction exponent isDigit areDigits areFraction isExponent =>
      have whole : takeDigits (digits ++ '.' :: (fraction ++ (exponent ++ rest))) =
          (digits, '.' :: (fraction ++ (exponent ++ rest))) :=
        takeDigits_append areDigits fun c is => by
          cases is
          decide
      rw [List.cons_append, List.append_assoc, List.cons_append, takeNumber?, if_pos isDigit]
      simp only [takeAfterDigit, whole, takePoint, List.append_assoc,
        takeDigits_append areFraction (head_exponent_append isExponent ends),
        takeExponent_append isExponent ends, List.cons_append]

/-! ## Tokens one by one -/

variable {lenient : Bool} {text rest : List Char}

/-- A text that starts with a number is read as the number and what follows it, unless that is
another point. -/
theorem scan_of_taken {digits : List Char} (taken : takeNumber? text = some (digits, rest))
    (apart : ∀ behind, rest ≠ '.' :: behind) :
    scan lenient text = (scan lenient rest).map (number (numberValue digits) :: ·) := by
  rw [scan]
  split
  · rename_i again
    rw [taken] at again
    cases again
    exact absurd rfl (apart _)
  · rename_i again
    rw [taken] at again
    cases again
    rfl
  · rename_i none
    rw [taken] at none
    cases none

theorem scan_numeral {digits : List Char} (isNumeral : IsNumeral digits) (ends : AtBoundary rest) :
    scan lenient (digits ++ rest) =
      (scan lenient rest).map (number (numberValue digits) :: ·) := by
  refine scan_of_taken (takeNumber?_append isNumeral ends) ?_
  rintro behind rfl
  exact ne_point_of_isBoundary (ends _ rfl) rfl

theorem scan_nil : scan lenient [] = .ok [] := by
  rw [scan]
  rfl

/-- What a text without a number at its start is read as. -/
theorem scan_cons {c : Char} (none : takeNumber? (c :: text) = none) :
    scan lenient (c :: text) =
      match ofChar? c with
      | some token => (scan lenient text).map (token :: ·)
      | .none =>
          if isBlank c then scan lenient text
          else if isLetter c then
            (scan lenient (takeName c text).2).map (ofName (takeName c text).1 :: ·)
          else if lenient then scan lenient text
          else .error (.unexpectedCharacter c) := by
  rw [scan]
  split
  · rename_i taken
    rw [none] at taken
    cases taken
  · rename_i taken
    rw [none] at taken
    cases taken
  · rfl

theorem takeNumber?_eq_none {c : Char} (digit : c.isDigit = false) (point : c ≠ '.') :
    takeNumber? (c :: text) = none := by
  rw [takeNumber?, if_neg (by rw [digit]; exact Bool.false_ne_true), if_neg]
  rw [Bool.and_eq_true, beq_iff_eq]
  intro both
  exact point both.1

theorem scan_boundary {c : Char} (boundary : isBoundary c = true) {token : Token}
    (is : ofChar? c = some token) :
    scan lenient (c :: text) = (scan lenient text).map (token :: ·) := by
  rw [scan_cons (takeNumber?_eq_none (isDigit_of_isBoundary boundary)
    (ne_point_of_isBoundary boundary)), is]

theorem ofChar?_blank {c : Char} (blank : isBlank c = true) : ofChar? c = none := by
  have none := forall_isBlank (p := fun c => (ofChar? c).isNone) (by decide) blank
  exact Option.isNone_iff_eq_none.mp none

theorem scan_blank {c : Char} (blank : isBlank c = true) :
    scan lenient (c :: text) = scan lenient text := by
  have boundary := isBoundary_of_isBlank blank
  rw [scan_cons (takeNumber?_eq_none (isDigit_of_isBoundary boundary)
    (ne_point_of_isBoundary boundary)), ofChar?_blank blank]
  exact if_pos blank

/-- A letter other than `π` stands for no token by itself. -/
theorem ofChar?_letter {c : Char} (letter : isLetter c = true) (other : c ≠ 'π') :
    ofChar? c = none := by
  cases is : ofChar? c with
  | none => rfl
  | some token =>
      have symbol : isSymbol c = false := by
        rw [← Bool.not_eq_true]
        intro symbol
        rw [isLetter_of_isBoundary (isBoundary_of_isSymbol symbol)] at letter
        cases letter
      unfold ofChar? Operator.ofChar? at is
      split at is
      case h_5 => exact absurd rfl other
      case h_6 =>
        split at is
        case h_7 => cases is
        all_goals cases symbol
      all_goals cases symbol

theorem ofChar?_of_isAlpha {c : Char} (letter : c.isAlpha = true) : ofChar? c = none :=
  Option.isNone_iff_eq_none.mp
    (forall_isAlpha (p := fun c => (ofChar? c).isNone) (by decide) letter)

theorem all_isLetter_of_all_isAlpha {letters : List Char}
    (areLetters : letters.all Char.isAlpha = true) : letters.all isLetter = true := by
  rw [List.all_eq_true] at areLetters ⊢
  exact fun c member => isLetter_of_isAlpha (areLetters c member)

/-- The letters of a name are taken, and the digits behind them where a function goes by both. -/
theorem takeName_letters {first : Char} {letters : List Char}
    (areLetters : letters.all isLetter = true) (ends : ∀ c ∈ text.head?, isLetter c = false) :
    takeName first (letters ++ text) =
      if !(text.takeWhile Char.isDigit).isEmpty && (NamedFunction.ofName?
          (String.ofList (first :: letters ++ text.takeWhile Char.isDigit))).isSome then
        (first :: letters ++ text.takeWhile Char.isDigit, text.dropWhile Char.isDigit)
      else (first :: letters, text) := by
  have all := List.all_eq_true.mp areLetters
  simp only [takeName, takeWhile_append_of_ends all ends, dropWhile_append_of_ends all ends]

/-- A name with its digits is taken as a whole where a function goes by it. -/
theorem takeName_known {first : Char} {letters digits : List Char}
    (areLetters : letters.all isLetter = true) (areDigits : digits.all Char.isDigit = true)
    (ends : ∀ c ∈ text.head?, c.isDigit = false)
    (known : (!digits.isEmpty && (NamedFunction.ofName?
      (String.ofList (first :: letters ++ digits))).isSome) = true) :
    takeName first (letters ++ (digits ++ text)) = (first :: letters ++ digits, text) := by
  have allDigits := List.all_eq_true.mp areDigits
  have lettersEnd : ∀ c ∈ (digits ++ text).head?, isLetter c = false := by
    cases digits with
    | nil => cases known
    | cons digit digits =>
        rintro c ⟨⟩
        exact forall_isDigit (p := fun c => isLetter c = false) (by decide)
          (allDigits digit List.mem_cons_self)
  rw [takeName_letters areLetters lettersEnd, takeWhile_append_of_ends allDigits ends,
    dropWhile_append_of_ends allDigits ends, if_pos known]

/-- A text that starts with a letter is read as a name and what follows it. -/
theorem scan_letter {first : Char} (letter : isLetter first = true) (none : ofChar? first = none)
    (text : List Char) :
    scan lenient (first :: text) =
      (scan lenient (takeName first text).2).map (ofName (takeName first text).1 :: ·) := by
  have digit : first.isDigit = false := by
    rw [← Bool.not_eq_true]
    intro digit
    rw [forall_isDigit (p := fun c => isLetter c = false) (by decide) digit] at letter
    cases letter
  have point : first ≠ '.' := by
    rintro rfl
    cases letter
  have blank : isBlank first = false := by
    rw [← Bool.not_eq_true]
    intro blank
    rw [isLetter_of_isBoundary (isBoundary_of_isBlank blank)] at letter
    cases letter
  rw [scan_cons (takeNumber?_eq_none digit point), none]
  simp only [blank, letter, Bool.false_eq_true, if_false, if_true]

/-- A text is not read because of a second point in a number or a character of no token. -/
theorem cause_of_scan {cause : Cause} (failed : scan lenient text = .error cause) :
    cause = .repeatedPoint ∨ ∃ c, cause = .unexpectedCharacter c := by
  fun_induction scan lenient text with
  | case1 =>
      cases failed
      exact .inl rfl
  | case2 _ _ _ _ _ _ ih => exact ih (map_eq_error.mp failed)
  | case3 => cases failed
  | case4 _ _ _ _ _ ih => exact ih (map_eq_error.mp failed)
  | case5 _ _ _ _ _ ih => exact ih failed
  | case6 _ _ _ _ _ _ _ ih => exact ih (map_eq_error.mp failed)
  | case7 _ _ _ _ _ _ _ ih => exact ih failed
  | case8 c =>
      cases failed
      exact .inr ⟨c, rfl⟩

/-- A second point in a number is refused by every reader. -/
theorem scan_of_point {digits behind : List Char}
    (taken : takeNumber? text = some (digits, '.' :: behind)) :
    scan lenient text = .error .repeatedPoint := by
  rw [scan]
  split
  · rfl
  · rename_i other again
    rw [taken] at again
    cases again
    exact absurd rfl (other behind)
  · rename_i none
    rw [taken] at none
    cases none

/-- **A lenient reader differs from a strict one only where the strict one refuses a character.** -/
theorem scan_eq_of_settled
    (settled : ∀ c, scan false text ≠ .error (.unexpectedCharacter c)) :
    scan true text = scan false text := by
  have ofMap {outcome : Except Cause (List Token)} {f : List Token → List Token}
      (settled : ∀ c, outcome.map f ≠ .error (.unexpectedCharacter c)) :
      ∀ c, outcome ≠ .error (.unexpectedCharacter c) :=
    fun c failed => settled c (map_eq_error.mpr failed)
  fun_induction scan false text with
  | case1 text digits behind taken => exact scan_of_point taken
  | case2 text digits rest apart taken _ ih => rw [scan_of_taken taken apart, ih (ofMap settled)]
  | case3 => exact scan_nil
  | case4 c text none token is ih =>
      rw [scan_cons none, is, ← ih (ofMap settled)]
  | case5 c text none is blank ih =>
      rw [scan_cons none, is, ← ih settled]
      exact if_pos blank
  | case6 c text none is blank letter _ ih =>
      rw [scan_letter letter is, ih (ofMap settled)]
  | case7 c text none is blank letter lenient ih => cases lenient
  | case8 c => exact absurd rfl (settled c)

end Reckoner.Token
