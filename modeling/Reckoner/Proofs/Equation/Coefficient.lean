import Reckoner.Proofs.Equation.Splitting

/-!
# The coefficient of the unknown

The term of the unknown is read back from its text: the digits before the unknown, its sign and its
divisor (`Reckoner.Equation.multiple?_term`).
-/

namespace Reckoner.Equation

open Text

open Decimal (IsDecimal readFloat?)

/-! ## Decimals -/

theorem isDecimalDigit_point : isDecimalDigit '.' = false := by decide

/-- A decimal is the longest one that its text starts with. -/
theorem decimalStarts_literal (literal : Literal) {rest : List Char}
    (stops : ∀ c ∈ rest.head?, isDecimalDigit c = false ∧ c ≠ '.') :
    ∃ more, decimalStarts (literal.text ++ rest) = (literal.text, rest) :: more := by
  have digits {part : List Char} (areDigits : part.all Char.isDigit = true) :
      ∀ c ∈ part, isDecimalDigit c = true :=
    fun c member => isDecimalDigit_of_isDigit (List.all_eq_true.mp areDigits c member)
  have ends : ∀ c ∈ rest.head?, isDecimalDigit c = false := fun c is => (stops c is).1
  obtain ⟨text, isDecimal⟩ := literal
  have split : (text ++ rest).splitAt text.length = (text, rest) := by
    rw [List.splitAt_eq, List.take_left, List.drop_left]
  cases isDecimal with
  | whole some areDigits =>
      have pointless : ∀ behind, rest ≠ '.' :: behind := by
        rintro behind rfl
        exact (stops '.' rfl).2 rfl
      have starts : decimalStarts (text ++ rest) =
          (List.range (text.length + 1)).reverse.map (text ++ rest).splitAt := by
        unfold decimalStarts
        simp only [takeWhile_append_of_ends (digits areDigits) ends, List.drop_left]
        rfl
      rw [starts, List.range_succ, List.reverse_concat, List.map_cons, split]
      exact ⟨_, rfl⟩
  | @point whole fraction some areWhole areFraction =>
      have behind : ∀ c ∈ ('.' :: (fraction ++ rest)).head?, isDecimalDigit c = false := by
        intro c is
        cases is
        exact isDecimalDigit_point
      have length : (whole ++ '.' :: fraction).length = whole.length + 1 + fraction.length := by
        rw [List.length_append, List.length_cons]
        omega
      have starts : ∃ more, decimalStarts (whole ++ '.' :: fraction ++ rest) =
          ((List.range (fraction.length + 1)).reverse.map fun n => whole.length + 1 + n).map
            (whole ++ '.' :: fraction ++ rest).splitAt ++ more := by
        rw [List.append_assoc, List.cons_append]
        unfold decimalStarts
        simp only [takeWhile_append_of_ends (digits areWhole) behind, List.drop_left,
          takeWhile_append_of_ends (digits areFraction) ends, List.map_append]
        exact ⟨_, rfl⟩
      obtain ⟨more, starts⟩ := starts
      rw [starts, List.range_succ, List.reverse_concat, List.map_cons, List.map_cons, ← length,
        split]
      exact ⟨_, rfl⟩

/-- Without a decimal at its start a text starts with no digits. -/
theorem decimalStarts_nil {rest : List Char}
    (stops : ∀ c ∈ rest.head?, isDecimalDigit c = false ∧ c ≠ '.') :
    decimalStarts rest = [([], rest)] := by
  cases rest with
  | nil => rfl
  | cons c rest =>
      obtain ⟨other, point⟩ := stops c rfl
      have none : (c :: rest).takeWhile isDecimalDigit = [] :=
        List.takeWhile_cons_of_neg (Bool.eq_false_iff.mp other)
      unfold decimalStarts
      rw [none]
      simp only [List.length_nil, List.drop_zero]
      split
      · rename_i is
        exact absurd (List.cons.inj is).1 point
      · rfl

/-- A literal denotes its value. -/
theorem readFloat?_literal (literal : Literal) : readFloat? literal.text = some literal.value := by
  obtain ⟨text, isDecimal⟩ := literal
  have decimal : IsDecimal isDecimalDigit text := isDecimal.mono isDecimalDigit_of_isDigit
  obtain ⟨value, read⟩ := Decimal.exists_readFloat? decimal .none
  rw [List.append_nil] at read
  rw [Literal.value, Token.numberValue, read]
  rfl

theorem divisor?_literal {literal : Literal}
    (closed : ∃ last ∈ literal.text.getLast?, last.isDigit = true) :
    divisor? literal.text = some literal.text := by
  have ends : literal.text.getLast?.any isDecimalDigit = true := by
    obtain ⟨last, is, digit⟩ := closed
    rw [Option.mem_def.mp is]
    exact isDecimalDigit_of_isDigit digit
  have weaken {part : List Char} (areDigits : part.all Char.isDigit = true) :
      part.all isDecimalDigit = true :=
    List.all_eq_true.mpr fun c member =>
      isDecimalDigit_of_isDigit (List.all_eq_true.mp areDigits c member)
  unfold divisor?
  rw [ends]
  obtain ⟨text, isDecimal⟩ := literal
  cases isDecimal with
  | whole some areDigits =>
      have dropped : text.dropWhile isDecimalDigit = [] :=
        List.dropWhile_eq_nil_iff.mpr (List.all_eq_true.mp (weaken areDigits))
      rw [dropped]
      rfl
  | @point whole fraction some areWhole areFraction =>
      have dropped : (whole ++ '.' :: fraction).dropWhile isDecimalDigit = '.' :: fraction :=
        dropWhile_append_of_ends (List.all_eq_true.mp (weaken areWhole)) fun c is => by
          cases is
          exact isDecimalDigit_point
      rw [dropped]
      simp only [weaken areFraction, Bool.and_self, if_true]

/-! ## The parts of the term -/

namespace UnknownTerm

/-- The digits of the coefficient, none if it is left out. -/
def digits (term : UnknownTerm) : List Char :=
  term.coefficient.elim [] fun coefficient => coefficient.literal.text

def isNegative : UnknownTerm → Bool
  | ⟨some .minus, _, _, _⟩ => true
  | _ => false

/-- The size of the coefficient, one if it is left out. -/
def size (term : UnknownTerm) : Float :=
  term.coefficient.elim 1 fun coefficient => coefficient.literal.value

/-- The value of the coefficient, with its sign and divided by its divisor. -/
def value (term : UnknownTerm) : Float :=
  let signed := if term.isNegative then -term.size else term.size
  term.divisor.elim signed fun literal => signed / literal.value

end UnknownTerm

variable {v : Char} (term : UnknownTerm)

theorem divisorPart?_term :
    divisorPart? (spell [v] (partLexemes term.divisors)) =
      some (term.divisor.map Literal.text) := by
  obtain ⟨sign, coefficient, divisor, closed⟩ := term
  cases divisor with
  | none => rfl
  | some literal =>
      have text : spell [v] (partLexemes (UnknownTerm.divisors ⟨sign, coefficient, some literal,
          closed⟩)) = '/' :: literal.text := by
        change '/' :: (literal.text ++ []) = _
        rw [List.append_nil]
      rw [text, divisorPart?, divisor?_literal (closed literal rfl)]
      rfl

variable (letter : v.isAlpha = true)

include letter

theorem stops_letter (rest : List Char) :
    ∀ c ∈ (v :: rest).head?, isDecimalDigit c = false ∧ c ≠ '.' := by
  intro c is
  cases is
  refine ⟨isDecimalDigit_of_isAlpha letter, ?_⟩
  rintro rfl
  cases letter

theorem multipleAfter?_letter (negative : Bool) (digits : List Char) {rest : List Char}
    {divisor : Option (List Char)} (part : divisorPart? rest = some divisor) :
    multipleAfter? negative [v] digits (v :: rest) = some ⟨negative, digits, divisor⟩ := by
  have after : after? [v] (v :: rest) = some rest := after?_eq_some.mpr rfl
  unfold multipleAfter?
  rw [after, Option.bind_some, part]
  split
  · rename_i is
    obtain ⟨rfl, rfl⟩ := List.cons.inj is
    cases letter
  · rfl

omit letter in
theorem multipleAfter?_times (negative : Bool) (digits : List Char) {rest : List Char}
    {divisor : Option (List Char)} (part : divisorPart? rest = some divisor) :
    multipleAfter? negative [v] digits ('*' :: v :: rest) = some ⟨negative, digits, divisor⟩ := by
  have after : after? [v] (v :: rest) = some rest := after?_eq_some.mpr rfl
  simp only [multipleAfter?, after, Option.bind_some, part, Option.some_or, Option.map_some]

/-- The words of the term behind its sign. -/
theorem unsignedMultiple?_term (negative : Bool) :
    unsignedMultiple? negative [v] (spell [v] (term.coefficient.elim [] Coefficient.lexemes ++
      .unknown :: partLexemes term.divisors)) =
        some ⟨negative, term.digits, term.divisor.map Literal.text⟩ := by
  have part := @divisorPart?_term v term
  generalize following : spell [v] (partLexemes term.divisors) = rest at part
  have parts : spell [v] (.unknown :: partLexemes term.divisors) = v :: rest := by
    rw [spell_cons, following]
    rfl
  rw [unsignedMultiple?, spell_append, parts, UnknownTerm.digits]
  cases term.coefficient with
  | none =>
      change (decimalStarts (v :: rest)).findSome? _ = _
      rw [decimalStarts_nil (stops_letter letter rest), List.findSome?_cons]
      simp only [multipleAfter?_letter letter negative [] part, Option.elim_none]
  | some coefficient =>
      obtain ⟨literal, times⟩ := coefficient
      cases times with
      | true =>
          have stops : ∀ c ∈ ('*' :: v :: rest).head?, isDecimalDigit c = false ∧ c ≠ '.' := by
            intro c is
            cases is
            decide
          obtain ⟨more, starts⟩ := decimalStarts_literal literal stops
          have text : spell [v] (Coefficient.lexemes ⟨literal, true⟩) = literal.text ++ ['*'] := rfl
          rw [Option.elim_some, text, List.append_assoc, List.singleton_append, starts,
            List.findSome?_cons]
          simp only [multipleAfter?_times negative literal.text part, Option.elim_some]
      | false =>
          obtain ⟨more, starts⟩ := decimalStarts_literal literal (stops_letter letter rest)
          have text : spell [v] (Coefficient.lexemes ⟨literal, false⟩) = literal.text :=
            List.append_nil _
          rw [Option.elim_some, text, starts, List.findSome?_cons]
          simp only [multipleAfter?_letter letter negative literal.text part, Option.elim_some]

/-- The words behind the sign start with no other sign. -/
theorem exists_head_unsigned :
    ∃ c rest, spell [v] (term.coefficient.elim [] Coefficient.lexemes ++
      .unknown :: partLexemes term.divisors) = c :: rest ∧ isSign c = false := by
  cases term.coefficient with
  | none => exact ⟨v, _, rfl, isSign_letter (isWordLetter_of_isLetter (isLetter_of_isAlpha letter))⟩
  | some coefficient =>
      obtain ⟨first, rest, is, _⟩ := Decimal.head_of_isDecimal coefficient.literal.isDecimal
      have member : first ∈ coefficient.literal.text := by
        rw [is]
        exact List.mem_cons_self
      rw [Option.elim_some, Coefficient.lexemes, List.cons_append, spell_cons, Lexeme.text, is]
      exact ⟨first, rest ++ _, rfl, isSign_literal coefficient.literal first member⟩

/-- **The term of the unknown is read back from its text.** -/
theorem multiple?_term :
    multiple? [v] (spell [v] term.lexemes) =
      some ⟨term.isNegative, term.digits, term.divisor.map Literal.text⟩ := by
  have unsigned := unsignedMultiple?_term term letter
  obtain ⟨c, rest, head, other⟩ := exists_head_unsigned term letter
  rw [UnknownTerm.lexemes, spell_append]
  rw [head] at unsigned ⊢
  obtain ⟨sign, coefficient, divisor, closed⟩ := term
  cases sign with
  | none =>
      change multiple? [v] (c :: rest) = _
      unfold multiple?
      split
      · rename_i is
        obtain ⟨rfl, rfl⟩ := List.cons.inj is
        cases other
      · rename_i is
        obtain ⟨rfl, rfl⟩ := List.cons.inj is
        cases other
      · exact unsigned false
  | some sign =>
      cases sign with
      | plus =>
          change multiple? [v] ('+' :: c :: rest) = _
          rw [multiple?, unsigned]
          rfl
      | minus =>
          change multiple? [v] ('-' :: c :: rest) = _
          rw [multiple?, unsigned]
          rfl

omit letter in
/-- The parts of the term of the unknown have its value, unless its divisor is zero. -/
theorem coefficient_parts :
    Multiple.coefficient ⟨term.isNegative, term.digits, term.divisor.map Literal.text⟩ =
      if term.divisor.any (fun literal => literal.value == 0) then refuse .divisionByZero
      else .ok term.value := by
  have size : (Multiple.size ⟨term.isNegative, term.digits, term.divisor.map Literal.text⟩) =
      .ok term.size := by
    unfold Multiple.size UnknownTerm.digits UnknownTerm.size
    cases term.coefficient with
    | none => rfl
    | some coefficient =>
        obtain ⟨first, rest, is, _⟩ := Decimal.head_of_isDecimal coefficient.literal.isDecimal
        have nonempty : coefficient.literal.text.isEmpty = false := by
          rw [is]
          rfl
        simp only [Option.elim_some, nonempty, readFloat?_literal, Bool.false_eq_true, if_false]
  simp only [Multiple.coefficient, size, Outcome.ok_bind]
  unfold UnknownTerm.value
  cases term.divisor with
  | none => rfl
  | some literal =>
      simp only [Option.map_some, readFloat?_literal, Option.any_some, Option.elim_some]
      rfl

/-- **The coefficient of the unknown** is the value of its term without the unknown, unless its
divisor is zero. -/
theorem coefficient_term :
    Equation.coefficient (spell [v] term.lexemes) [v] =
      if term.divisor.any (fun literal => literal.value == 0) then refuse .divisionByZero
      else .ok term.value := by
  rw [Equation.coefficient, multiple?_term term letter]
  exact coefficient_parts term

omit letter

/-- Nothing is divided by a zero exactly if the divisor of the unknown is none. -/
theorem divisible_multiple :
    (Term.multiple term).Divisible ↔
      term.divisor.any (fun literal => literal.value == 0) = false := by
  obtain ⟨sign, coefficient, divisor, closed⟩ := term
  cases divisor with
  | none => exact iff_of_true nofun rfl
  | some literal =>
      refine List.forall_mem_singleton.trans ⟨fun allowed => allowed rfl, fun nonzero _ => nonzero⟩

end Reckoner.Equation
