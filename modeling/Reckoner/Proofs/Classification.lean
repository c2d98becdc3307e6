import Mathlib.Data.List.Chain
import Reckoner.Evaluation
import Reckoner.Proofs.Spelling

/-!
# The kind of a spelling

Tokens of arithmetic have neither brackets nor signs of equality, and a number never goes on with
the imaginary mark. So the spellings of tokens are arithmetic expressions, never of another kind
(`Reckoner.ExpressionKind.of_spelled`).
-/

namespace Reckoner

open Text Token

namespace ComplexNumber

/-- No decimal digit has the imaginary mark right after it. -/
def Unmarked (text : List Char) : Prop :=
  text.IsChain fun c next => isDecimalDigit c = true → next ≠ 'i'

/-- A decimal ends with a decimal digit, and what follows it is the rest of the text. -/
theorem takeDecimal?_eq_some {text digits rest : List Char}
    (taken : takeDecimal? text = some (digits, rest)) :
    ∃ before last, text = before ++ last :: rest ∧ isDecimalDigit last = true := by
  have ending (text : List Char) (some : text.takeWhile isDecimalDigit ≠ []) :
      ∃ before last, text = before ++ last :: text.dropWhile isDecimalDigit ∧
        isDecimalDigit last = true := by
    refine ⟨(text.takeWhile isDecimalDigit).dropLast, (text.takeWhile isDecimalDigit).getLast some,
      ?_, List.mem_takeWhile_imp (List.getLast_mem some)⟩
    rw [← List.singleton_append, ← List.append_assoc, List.dropLast_append_getLast,
      List.takeWhile_append_dropWhile]
  unfold takeDecimal? at taken
  simp only [List.isEmpty_iff] at taken
  split at taken
  · cases taken
  · rename_i some
    obtain ⟨before, last, split, isDigit⟩ := ending text some
    split at taken
    · rename_i following rest'
      split at taken
      · rename_i goesOn
        cases taken
        have someDigits : following.takeWhile isDecimalDigit ≠ [] := by
          cases following with
          | nil => cases goesOn
          | cons c following =>
              change isDecimalDigit c = true at goesOn
              rw [List.takeWhile_cons_of_pos goesOn]
              exact List.cons_ne_nil _ _
        obtain ⟨others, final, splitDigits, isFinal⟩ := ending following someDigits
        refine ⟨before ++ last :: '.' :: others, final, ?_, isFinal⟩
        rw [List.append_assoc, List.cons_append, List.cons_append, ← splitDigits, ← rest']
        exact split
      · cases taken
        exact ⟨before, last, split, isDigit⟩
    · cases taken
      exact ⟨before, last, split, isDigit⟩

theorem takeInnerSign?_eq_some {text rest : List Char} {negative : Bool}
    (taken : takeInnerSign? text = some (negative, rest)) : rest <:+ text := by
  unfold takeInnerSign? at taken
  split at taken
  · rename_i following stripped
    cases taken
    refine (List.dropWhile_suffix _).trans (List.IsSuffix.trans ?_ (List.dropWhile_suffix isBlank))
    exact ⟨['+'], stripped.symm⟩
  · rename_i following stripped
    cases taken
    refine (List.dropWhile_suffix _).trans (List.IsSuffix.trans ?_ (List.dropWhile_suffix isBlank))
    exact ⟨['-'], stripped.symm⟩
  · cases taken

/-- Without a marked digit there is no complex number. -/
theorem takeUnsigned?_eq_none {text : List Char} (unmarked : Unmarked text) :
    takeUnsigned? text = none := by
  unfold takeUnsigned?
  cases ofReal : takeDecimal? text with
  | none => rfl
  | some real =>
      obtain ⟨before, last, rfl, _⟩ := takeDecimal?_eq_some ofReal
      cases ofSign : takeInnerSign? real.2 with
      | none => simp [ofSign]
      | some sign =>
          obtain ⟨blanks, split⟩ := takeInnerSign?_eq_some ofSign
          cases ofImaginary : takeDecimal? sign.2 with
          | none => simp [ofSign, ofImaginary]
          | some imaginary =>
              obtain ⟨others, final, same, isDigit⟩ := takeDecimal?_eq_some ofImaginary
              have unmarkedRest : Unmarked (final :: imaginary.2) := by
                rw [← split, same] at unmarked
                exact (unmarked.right_of_append.tail.right_of_append).right_of_append
              simp only [Option.bind_eq_bind, Option.bind_some, ofSign, ofImaginary]
              split
              · rename_i rest marked
                rw [marked] at unmarkedRest
                exact absurd rfl ((List.isChain_cons_cons.mp unmarkedRest).1 isDigit)
              · rfl

theorem literalsFrom_eq_nil {text : List Char} (unmarked : Unmarked text) (before : List Char) :
    literalsFrom 0 before text = [] := by
  induction text generalizing before with
  | nil => rfl
  | cons c text ih =>
      rw [literalsFrom, takeUnsigned?_eq_none unmarked, ite_self]
      exact ih unmarked.tail _

theorem occurs_eq_false {text : List Char} (unmarked : Unmarked text) : occurs text = false := by
  rw [occurs, literals, literalsFrom_eq_nil unmarked]
  rfl

/-! ## Spellings -/

theorem unmarked_append {part text : List Char} (others : ∀ c ∈ part, c ≠ 'i')
    (ends : ∀ c ∈ text.head?, c ≠ 'i') (unmarked : Unmarked text) : Unmarked (part ++ text) := by
  induction part with
  | nil => exact unmarked
  | cons c part ih =>
      refine List.isChain_cons.mpr ⟨fun next isNext _ => ?_,
        ih fun other member => others other (List.mem_cons_of_mem _ member)⟩
      cases part with
      | nil => exact ends next isNext
      | cons d part =>
          cases isNext
          exact others next (List.mem_cons_of_mem _ List.mem_cons_self)

theorem unmarked_append_of_not_digit {part text : List Char}
    (others : ∀ c ∈ part, isDecimalDigit c = false) (unmarked : Unmarked text) :
    Unmarked (part ++ text) := by
  induction part with
  | nil => exact unmarked
  | cons c part ih =>
      refine List.isChain_cons.mpr ⟨fun next _ isDigit => ?_,
        ih fun other member => others other (List.mem_cons_of_mem _ member)⟩
      rw [others c List.mem_cons_self] at isDigit
      cases isDigit

end ComplexNumber

namespace Token

/-- What holds of boundaries, digits, letters and the point holds of the characters of
spellings. -/
theorem forall_of_spelled {p : Char → Prop} (boundary : ∀ c, isBoundary c = true → p c)
    (digit : ∀ c, c.isDigit = true → p c) (letter : ∀ c, c.isAlpha = true → p c) (point : p '.')
    {tokens : List Token} {text : List Char} (spelled : Spelled tokens text) :
    ∀ c ∈ text, p c := by
  induction spelled with
  | nil =>
      intro c member
      exact absurd member List.not_mem_nil
  | blank isBlank _ ih =>
      exact List.forall_mem_cons.mpr ⟨boundary _ (isBoundary_of_isBlank isBlank), ih⟩
  | symbol isBoundary _ _ ih => exact List.forall_mem_cons.mpr ⟨boundary _ isBoundary, ih⟩
  | number isNumeral _ _ ih =>
      have digits : ∀ n < 10, (Char.ofNat (48 + n)).isDigit = true := by decide
      refine List.forall_mem_append.mpr ⟨fun c member => ?_, ih⟩
      exact Decimal.forall_isNumeralCharacter (fun n lt => digit _ (digits n lt))
        ⟨point, letter _ rfl, boundary _ (by decide), boundary _ (by decide)⟩
        (Decimal.numeralCharacters isNumeral c member)
  | identifier isWord _ _ ih =>
      exact List.forall_mem_append.mpr
        ⟨fun c member => letter c (List.all_eq_true.mp isWord.2 c member), ih⟩
  | function known _ _ ih =>
      obtain ⟨first, letters, digits, word, isLetter, areLetters, areDigits⟩ :=
        split_of_mem_table known
      have areLetters := all_cons_of_all isLetter areLetters
      rw [word]
      refine List.forall_mem_append.mpr ⟨List.forall_mem_append.mpr ⟨?_, ?_⟩, ih⟩
      · intro c member
        exact letter c (List.all_eq_true.mp areLetters c member)
      · intro c member
        exact digit c (List.all_eq_true.mp areDigits c member)

/-- Other characters do not occur in spellings. -/
theorem contains_eq_false {c : Char} (boundary : isBoundary c = false)
    (digit : c.isDigit = false) (letter : c.isAlpha = false) (point : c ≠ '.')
    {tokens : List Token} {text : List Char} (spelled : Spelled tokens text) :
    text.contains c = false := by
  rw [← Bool.not_eq_true, List.contains_iff_mem]
  intro member
  refine forall_of_spelled (p := (· ≠ c)) ?_ ?_ ?_ point.symm spelled c member rfl
  · rintro d isBoundary rfl
    rw [boundary] at isBoundary
    cases isBoundary
  · rintro d isDigit rfl
    rw [digit] at isDigit
    cases isDigit
  · rintro d isLetter rfl
    rw [letter] at isLetter
    cases isLetter

theorem ne_mark_of_isDigit {c : Char} (isDigit : c.isDigit = true) : c ≠ 'i' := by
  rintro rfl
  cases isDigit

/-- In a spelling no digit has the imaginary mark right after it. -/
theorem unmarked_of_spelled {tokens : List Token} {text : List Char}
    (spelled : Spelled tokens text) : ComplexNumber.Unmarked text := by
  have ends {text : List Char} (atBoundary : AtBoundary text) : ∀ c ∈ text.head?, c ≠ 'i' := by
    rintro c isHead rfl
    have stops := isLetter_of_isBoundary (atBoundary _ isHead)
    cases stops
  have apart {c : Char} {text : List Char} (boundary : isBoundary c = true)
      (unmarked : ComplexNumber.Unmarked text) : ComplexNumber.Unmarked (c :: text) := by
    refine @ComplexNumber.unmarked_append_of_not_digit [c] text ?_ unmarked
    intro d member
    rw [List.mem_singleton.mp member, isDecimalDigit_of_isBoundary boundary]
  induction spelled with
  | nil => exact .nil
  | blank isBlank _ ih => exact apart (isBoundary_of_isBlank isBlank) ih
  | symbol boundary _ _ ih => exact apart boundary ih
  | number isNumeral atBoundary _ ih =>
      refine ComplexNumber.unmarked_append (fun c member => ?_) (ends atBoundary) ih
      exact Decimal.forall_isNumeralCharacter (p := fun c => c ≠ 'i') (by decide) (by decide)
        (Decimal.numeralCharacters isNumeral c member)
  | identifier isWord _ _ ih =>
      exact ComplexNumber.unmarked_append_of_not_digit (fun c member =>
        isDecimalDigit_of_isAlpha (List.all_eq_true.mp isWord.2 c member)) ih
  | function known atBoundary _ ih =>
      obtain ⟨first, letters, digits, word, isLetter, areLetters, areDigits⟩ :=
        split_of_mem_table known
      rw [word, List.append_assoc]
      refine ComplexNumber.unmarked_append_of_not_digit ?_
        (ComplexNumber.unmarked_append ?_ (ends atBoundary) ih)
      · have areLetters := all_cons_of_all isLetter areLetters
        intro c member
        exact isDecimalDigit_of_isAlpha (List.all_eq_true.mp areLetters c member)
      · intro c member
        exact ne_mark_of_isDigit (List.all_eq_true.mp areDigits c member)

end Token

/-- **Spellings are arithmetic.** The spellings of tokens are no matrix expressions, no complex ones
and no equations. -/
theorem ExpressionKind.of_spelled {tokens : List Token} {text : List Char}
    (spelled : Spelled tokens text) : ExpressionKind.of text = .scalar := by
  have bracket : text.contains '[' = false :=
    contains_eq_false (by decide) (by decide) (by decide) (by decide) spelled
  have equality : text.contains '=' = false :=
    contains_eq_false (by decide) (by decide) (by decide) (by decide) spelled
  rw [ExpressionKind.of, bracket, equality,
    ComplexNumber.occurs_eq_false (unmarked_of_spelled spelled)]
  rfl

end Reckoner
