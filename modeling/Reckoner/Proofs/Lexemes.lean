import Reckoner.Proofs.Decimal.Readable
import Reckoner.Proofs.Replacement

/-!
# The lexemes of an ASCII text

What the strict reader takes from an ASCII text, character group by character group, together with
the character before each group (`Reckoner.Token.Lexemes`). Nothing has to stand between a number
and a name here. The relation describes exactly the texts that are read and in which every mark of
an exponent belongs to a number.
-/

namespace Reckoner.Token

open Text Decimal Substitution

/-! ## ASCII characters -/

theorem isDecimalDigit_of_ascii {c : Char} (ascii : c.toNat < 128) :
    isDecimalDigit c = c.isDigit :=
  beq_iff_eq.mp (forall_ascii (p := fun c => isDecimalDigit c == c.isDigit) (by decide)
    ascii)

theorem isLetter_of_ascii {c : Char} (ascii : c.toNat < 128) : isLetter c = c.isAlpha :=
  if_pos ascii

theorem isBoundary_of_ascii {c : Char} (ascii : c.toNat < 128) {token : Token}
    (is : ofChar? c = some token) : isBoundary c = true := by
  have each := forall_ascii (p := fun c => (ofChar? c).isNone || isBoundary c) (by decide)
    ascii
  rwa [is, Option.isNone_some, Bool.false_or] at each

/-! ## Where a number ends -/

/-- The text does not go on a number: it starts with no digit, no point and no exponent. -/
structure NumberEnds (text : List Char) : Prop where
  apart : ∀ c ∈ text.head?, isDecimalDigit c = false ∧ c ≠ '.'
  unmarked : ∀ mark rest, text = mark :: rest → mark = 'e' ∨ mark = 'E' →
    startsExponent rest = false

theorem numberEnds_of_atBoundary {text : List Char} (ends : AtBoundary text) :
    NumberEnds text := by
  refine ⟨?_, ?_⟩
  · intro c is
    exact ⟨isDecimalDigit_of_isBoundary (ends c is), ne_point_of_isBoundary (ends c is)⟩
  · rintro mark rest rfl isMark
    have stops := not_mark_of_isBoundary (ends mark rfl)
    rw [Bool.or_eq_false_iff, beq_eq_false_iff_ne, beq_eq_false_iff_ne] at stops
    exact absurd isMark (not_or.mpr stops)

variable {text : List Char}

theorem NumberEnds.takeDigits_append (ends : NumberEnds text) {digits : List Char}
    (areDigits : digits.all Char.isDigit = true) : takeDigits (digits ++ text) = (digits, text) :=
  Token.takeDigits_append areDigits fun c is => (ends.apart c is).1

/-- A text that starts with no exponent. -/
theorem takeExponent_unmarked (unmarked : ∀ mark rest, text = mark :: rest →
    mark = 'e' ∨ mark = 'E' → startsExponent rest = false) : takeExponent text = ([], text) := by
  unfold Token.takeExponent
  split
  · rename_i mark sign digit rest
    split
    · rename_i isMark
      simp only [Bool.or_eq_true, beq_iff_eq] at isMark
      have stops := unmarked mark _ rfl isMark
      split
      · rename_i signed
        rw [Bool.and_eq_true, Bool.or_eq_true, beq_iff_eq, beq_iff_eq] at signed
        rw [startsExponent_sign signed.1] at stops
        exact absurd signed.2 (Bool.eq_false_iff.mp stops)
      · split
        · rename_i first
          rw [startsExponent_of_isDecimalDigit first] at stops
          cases stops
        · rfl
    · rfl
  · rename_i mark digit
    split
    · rename_i marked
      rw [Bool.and_eq_true, Bool.or_eq_true, beq_iff_eq, beq_iff_eq] at marked
      have stops := unmarked mark _ rfl marked.1
      rw [startsExponent_of_isDecimalDigit marked.2] at stops
      cases stops
    · rfl
  · rfl

/-- An exponent is taken with all of its digits. -/
theorem takeExponent_marked {mark digit : Char} {sign rest : List Char}
    (isMark : mark = 'e' ∨ mark = 'E') (isSign : sign = [] ∨ sign = ['+'] ∨ sign = ['-'])
    (isDigit : isDecimalDigit digit = true) :
    takeExponent (mark :: (sign ++ digit :: rest)) =
      (mark :: (sign ++ digit :: (takeDigits rest).1), (takeDigits rest).2) := by
  have marked : (mark == 'e' || mark == 'E') = true := by
    rcases isMark with rfl | rfl <;> rfl
  rcases isSign with rfl | signed
  · have unsigned : (digit == '+' || digit == '-') = false := by
      rw [← Bool.not_eq_true, Bool.or_eq_true, beq_iff_eq, beq_iff_eq]
      rintro (rfl | rfl)
      · exact absurd isDigit (by decide)
      · exact absurd isDigit (by decide)
    cases rest with
    | nil => simp [takeExponent, marked, isDigit, takeDigits]
    | cons d rest => simp [takeExponent, marked, unsigned, isDigit]
  · rcases signed with rfl | rfl
    · simp [takeExponent, marked, isDigit]
    · simp [takeExponent, marked, isDigit]

theorem NumberEnds.takeExponent (ends : NumberEnds text) : takeExponent text = ([], text) :=
  takeExponent_unmarked ends.unmarked

/-- An exponent is taken to its end. -/
theorem NumberEnds.takeExponent_append (ends : NumberEnds text) {exponent : List Char}
    (isPower : IsPower Char.isDigit exponent) :
    Token.takeExponent (exponent ++ text) = (exponent, text) := by
  cases isPower with
  | none => exact ends.takeExponent
  | @marked mark sign digits isMark isSign some areDigits =>
      obtain ⟨first, digits, rfl⟩ := List.exists_cons_of_ne_nil some
      rw [List.all_cons, Bool.and_eq_true] at areDigits
      have digit := isDecimalDigit_of_isDigit areDigits.1
      rw [List.cons_append, List.append_assoc, List.cons_append,
        takeExponent_marked isMark isSign digit, ends.takeDigits_append areDigits.2]

/-- What follows the digits of a number before its exponent is no digit and no point. -/
theorem NumberEnds.head_power (ends : NumberEnds text) {exponent : List Char}
    (isPower : IsPower Char.isDigit exponent) :
    ∀ c ∈ (exponent ++ text).head?, isDecimalDigit c = false ∧ c ≠ '.' := by
  cases isPower with
  | none => exact ends.apart
  | marked isMark isSign some areDigits =>
      intro c is
      cases is
      rcases isMark with rfl | rfl <;> decide

/-- **A number is taken to its end.** -/
theorem NumberEnds.takeNumber?_append (ends : NumberEnds text) {decimal exponent : List Char}
    (isDecimal : IsDecimal Char.isDigit decimal) (isPower : IsPower Char.isDigit exponent) :
    takeNumber? (decimal ++ exponent ++ text) = some (decimal ++ exponent, text) := by
  have stops := ends.head_power isPower
  have pointless : Token.takePoint (exponent ++ text) = ([], exponent ++ text) :=
    takePoint_of_head fun c is => (stops c is).2
  have taken {digits : List Char} (areDigits : digits.all Char.isDigit = true) :
      takeDigits (digits ++ (exponent ++ text)) = (digits, exponent ++ text) :=
    Token.takeDigits_append areDigits fun c is => (stops c is).1
  cases isDecimal with
  | whole some areDigits =>
      cases decimal with
      | nil => exact absurd rfl some
      | cons first digits =>
          rw [List.all_cons, Bool.and_eq_true] at areDigits
          rw [List.append_assoc, List.cons_append, takeNumber?, if_pos areDigits.1]
          simp only [takeAfterDigit, taken areDigits.2, pointless,
            ends.takeExponent_append isPower, List.append_nil, List.cons_append]
  | @point whole fraction some areWhole areFraction =>
      rw [List.append_assoc, List.append_assoc, List.cons_append]
      cases whole with
      | nil =>
          cases fraction with
          | nil => exact absurd rfl some
          | cons first digits =>
              have both := areFraction
              rw [List.all_cons, Bool.and_eq_true] at both
              have starts : ('.' == '.' && (first :: digits ++ (exponent ++ text)).head?.any
                  Char.isDigit) = true := both.1
              rw [List.nil_append, takeNumber?, if_neg (by decide), if_pos starts, takeAfterPoint,
                taken areFraction]
              simp only [ends.takeExponent_append isPower, List.nil_append, List.cons_append]
      | cons first digits =>
          have whole : takeDigits (digits ++ '.' :: (fraction ++ (exponent ++ text))) =
              (digits, '.' :: (fraction ++ (exponent ++ text))) := by
            apply Token.takeDigits_append
            · rw [List.all_cons, Bool.and_eq_true] at areWhole
              exact areWhole.2
            · intro c is
              cases is
              decide
          rw [List.all_cons, Bool.and_eq_true] at areWhole
          rw [List.cons_append, takeNumber?, if_pos areWhole.1]
          simp only [takeAfterDigit, whole, Token.takePoint, taken areFraction,
            ends.takeExponent_append isPower, List.cons_append, List.append_assoc]

/-! ## Lexemes -/

/-- The text is made of blanks, symbols, numbers and names, none of which ends too early, and the
tokens are theirs. No name is the mark of an exponent for the character before it. Digits belong to
a name only where a function goes by both. -/
inductive Lexemes : Option Char → List Char → List Token → Prop
  | nil {before : Option Char} : Lexemes before [] []
  | blank {before : Option Char} {c : Char} {text : List Char} {tokens : List Token}
      (isBlank : isBlank c = true) (ofRest : Lexemes (some c) text tokens) :
      Lexemes before (c :: text) tokens
  | symbol {before : Option Char} {c : Char} {token : Token} {text : List Char}
      {tokens : List Token} (ascii : c.toNat < 128) (is : ofChar? c = some token)
      (ofRest : Lexemes (some c) text tokens) : Lexemes before (c :: text) (token :: tokens)
  | number {before : Option Char} {decimal exponent text : List Char} {tokens : List Token}
      (isDecimal : IsDecimal Char.isDigit decimal) (isPower : IsPower Char.isDigit exponent)
      (ends : NumberEnds text)
      (ofRest : Lexemes (lastOf before (decimal ++ exponent)) text tokens) :
      Lexemes before (decimal ++ exponent ++ text)
        (number (numberValue (decimal ++ exponent)) :: tokens)
  | word {before : Option Char} {word text : List Char} {tokens : List Token}
      (isWord : IsWord word) (apart : before.any isWordLetter = false)
      (ends : startsWithLetter text = false)
      (alone : text.takeWhile Char.isDigit ≠ [] →
        NamedFunction.ofName? (String.ofList (word ++ text.takeWhile Char.isDigit)) = none)
      (unmarked : isExponentMark before word text = false)
      (ofRest : Lexemes (lastOf before word) text tokens) :
      Lexemes before (word ++ text) (ofName word :: tokens)
  | numbered {before : Option Char} {word digits text : List Char} {tokens : List Token}
      (isWord : IsWord word) (some : digits ≠ []) (areDigits : digits.all Char.isDigit = true)
      (known : (NamedFunction.ofName? (String.ofList (word ++ digits))).isSome = true)
      (apart : before.any isWordLetter = false) (ends : ∀ c ∈ text.head?, c.isDigit = false)
      (ofRest : Lexemes (lastOf before (word ++ digits)) text tokens) :
      Lexemes before (word ++ digits ++ text) (ofName (word ++ digits) :: tokens)

/-! ## Lexemes are read -/

theorem isLetter_of_startsWithLetter (ends : startsWithLetter text = false) :
    ∀ c ∈ text.head?, Text.isLetter c = false := by
  cases text with
  | nil => exact nofun
  | cons c text =>
      intro d is
      cases is
      rw [startsWithLetter, isWordLetter, Bool.or_eq_false_iff] at ends
      exact ends.1

/-- What is taken of a word and what follows it. -/
theorem takeName_word {first : Char} {letters : List Char}
    (areLetters : letters.all Char.isAlpha = true) (ends : startsWithLetter text = false) :
    takeName first (letters ++ text) =
      if !(text.takeWhile Char.isDigit).isEmpty && (NamedFunction.ofName?
          (String.ofList (first :: letters ++ text.takeWhile Char.isDigit))).isSome then
        (first :: letters ++ text.takeWhile Char.isDigit, text.dropWhile Char.isDigit)
      else (first :: letters, text) :=
  takeName_letters (all_isLetter_of_all_isAlpha areLetters) (isLetter_of_startsWithLetter ends)

theorem scan_name {lenient : Bool} {first : Char} (isLetter : first.isAlpha = true)
    (text : List Char) :
    scan lenient (first :: text) =
      (scan lenient (takeName first text).2).map (ofName (takeName first text).1 :: ·) :=
  scan_letter (isLetter_of_isAlpha isLetter) (ofChar?_of_isAlpha isLetter) text

theorem scan_number {lenient : Bool} {decimal exponent : List Char}
    (isDecimal : IsDecimal Char.isDigit decimal) (isPower : IsPower Char.isDigit exponent)
    (ends : NumberEnds text) :
    scan lenient (decimal ++ exponent ++ text) =
      (scan lenient text).map (.number (numberValue (decimal ++ exponent)) :: ·) := by
  refine scan_of_taken (ends.takeNumber?_append isDecimal isPower) ?_
  rintro behind rfl
  exact (ends.apart '.' rfl).2 rfl

/-- **Lexemes are read.** -/
theorem scan_of_lexemes {lenient : Bool} {before : Option Char} {tokens : List Token}
    (lexemes : Lexemes before text tokens) : scan lenient text = .ok tokens := by
  induction lexemes with
  | nil => exact scan_nil
  | blank isBlank _ ih => rw [scan_blank isBlank, ih]
  | symbol ascii is _ ih =>
      rw [scan_boundary (isBoundary_of_ascii ascii is) is, ih]
      rfl
  | number isDecimal isPower ends _ ih =>
      rw [scan_number isDecimal isPower ends, ih]
      rfl
  | @word before word text tokens isWord _ ends alone _ _ ih =>
      obtain ⟨first, letters, rfl, isLetter, areLetters⟩ := exists_cons_of_isWord isWord
      have taken := @takeName_word text first letters areLetters ends
      rw [if_neg] at taken
      · rw [List.cons_append, scan_name isLetter, taken, ih]
        rfl
      · rw [Bool.and_eq_true, Bool.not_eq_true', List.isEmpty_eq_false_iff]
        rintro ⟨some, known⟩
        rw [alone some] at known
        cases known
  | @numbered before word digits text tokens isWord some areDigits known _ ends _ ih =>
      obtain ⟨first, letters, rfl, isLetter, areLetters⟩ := exists_cons_of_isWord isWord
      obtain ⟨taken, rest⟩ := takeWhile_digits areDigits ends
      have stops : startsWithLetter (digits ++ text) = false := by
        cases digits with
        | nil => exact absurd rfl some
        | cons digit digits =>
            rw [List.all_cons, Bool.and_eq_true] at areDigits
            exact isWordLetter_of_isDigit areDigits.1
      have name := @takeName_word (digits ++ text) first letters areLetters stops
      rw [taken, rest, if_pos] at name
      · rw [List.append_assoc, List.cons_append, scan_name isLetter, name, ih]
        rfl
      · rw [known, Bool.and_true, Bool.not_eq_true', List.isEmpty_eq_false_iff]
        exact some

end Reckoner.Token
