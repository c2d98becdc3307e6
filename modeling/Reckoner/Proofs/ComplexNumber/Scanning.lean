import Reckoner.ComplexNumber.Expression
import Reckoner.Proofs.Characters
import Reckoner.Proofs.Decimal.Readable

/-!
# Finding written complex numbers

A complex number is found where it is written (`Reckoner.ComplexNumber.literalsFrom_text`), between
texts without digits. A minus in front of it is its sign where the text before the minus is empty or
ends in an opening parenthesis, a comma or an operator (`Reckoner.ComplexNumber.Admits`); after
another number it is not.
-/

namespace Reckoner.ComplexNumber

open Text Decimal

/-! ## Decimals -/

/-- Digits of any script, with or without a point and more digits. -/
inductive IsPlain : List Char → Prop
  | whole {digits : List Char} (some : digits ≠ []) (areDigits : digits.all isDecimalDigit = true) :
      IsPlain digits
  | point {whole fraction : List Char} (some : whole ≠ []) (more : fraction ≠ [])
      (areWhole : whole.all isDecimalDigit = true)
      (areFraction : fraction.all isDecimalDigit = true) : IsPlain (whole ++ '.' :: fraction)

section Plain

variable {text rest : List Char}

theorem IsPlain.exists_head (isPlain : IsPlain text) :
    ∃ first others, text = first :: others ∧ isDecimalDigit first = true := by
  have starts {digits : List Char} (some : digits ≠ []) (areDigits : digits.all isDecimalDigit = true)
      (others : List Char) :
      ∃ first rest, digits ++ others = first :: rest ∧ isDecimalDigit first = true := by
    cases digits with
    | nil => exact absurd rfl some
    | cons first digits =>
        rw [List.all_cons, Bool.and_eq_true] at areDigits
        exact ⟨first, digits ++ others, rfl, areDigits.1⟩
  cases isPlain with
  | whole some areDigits =>
      have headed := starts some areDigits []
      rwa [List.append_nil] at headed
  | point some more areWhole areFraction => exact starts some areWhole _

theorem IsPlain.isDecimal (isPlain : IsPlain text) : IsDecimal isDecimalDigit text := by
  cases isPlain with
  | whole some areDigits => exact .whole some areDigits
  | point some more areWhole areFraction =>
      exact .point (List.append_ne_nil_of_left_ne_nil some _) areWhole areFraction

/-- **The value of a plain decimal is the double that it denotes.** -/
theorem IsPlain.readFloat? (isPlain : IsPlain text) :
    Decimal.readFloat? text = some (partValue text) := by
  obtain ⟨value, isRead⟩ := exists_readFloat? isPlain.isDecimal .none
  rw [List.append_nil] at isRead
  rw [partValue, isRead]
  rfl

/-- A plain decimal is taken up to what does not continue it. -/
theorem takeDecimal?_append (isPlain : IsPlain text)
    (ends : ∀ c ∈ rest.head?, continuesDecimal c = false) :
    takeDecimal? (text ++ rest) = some (text, rest) := by
  have stops : ∀ c ∈ rest.head?, isDecimalDigit c = false := fun c is =>
    (Bool.or_eq_false_iff.mp (ends c is)).1
  cases isPlain with
  | whole some areDigits =>
      have all := List.all_eq_true.mp areDigits
      have nonempty : text.isEmpty = false := by
        rw [List.isEmpty_eq_false_iff]
        exact some
      unfold takeDecimal?
      rw [takeWhile_append_of_ends all stops, dropWhile_append_of_ends all stops]
      dsimp only
      rw [nonempty, if_neg Bool.false_ne_true]
      split
      · exact absurd (ends '.' rfl) (by decide)
      · rfl
  | @point whole fraction some more areWhole areFraction =>
      have point : ∀ c ∈ ('.' :: (fraction ++ rest)).head?, isDecimalDigit c = false := by
        intro c is
        cases is
        decide
      have all := List.all_eq_true.mp areWhole
      have allFraction := List.all_eq_true.mp areFraction
      have nonempty : whole.isEmpty = false := by
        rw [List.isEmpty_eq_false_iff]
        exact some
      have digit : (fraction ++ rest).head?.any isDecimalDigit = true := by
        cases fraction with
        | nil => exact absurd rfl more
        | cons first fraction => exact allFraction first List.mem_cons_self
      rw [List.append_assoc, List.cons_append]
      unfold takeDecimal?
      rw [takeWhile_append_of_ends all point, dropWhile_append_of_ends all point]
      dsimp only
      rw [nonempty, if_neg Bool.false_ne_true]
      change (if (fraction ++ rest).head?.any isDecimalDigit = true then _ else _) = _
      rw [if_pos digit, takeWhile_append_of_ends allFraction stops,
        dropWhile_append_of_ends allFraction stops]

end Plain

/-! ## Written numbers -/

/-- A complex number as it is written: perhaps a minus, a real part, a sign, an imaginary part and
its mark, with blanks around the signs. -/
structure Spelled where
  /-- The blanks behind a minus in front, if there is a minus. -/
  minus : Option (List Char)
  real : List Char
  left : List Char
  /-- The sign between the parts is a minus. -/
  negative : Bool
  right : List Char
  imaginary : List Char
  blankMinus : ∀ blanks ∈ minus, blanks.all isBlank = true
  isReal : IsPlain real
  blankLeft : left.all isBlank = true
  blankRight : right.all isBlank = true
  isImaginary : IsPlain imaginary

namespace Spelled

variable (spelled : Spelled)

/-- The sign between the parts. -/
def inner : Char :=
  if spelled.negative then '-' else '+'

/-- The text without the minus in front. -/
def unsigned : List Char :=
  spelled.real ++ (spelled.left ++ spelled.inner :: (spelled.right ++ (spelled.imaginary ++ ['i'])))

/-- The text of the minus in front. -/
def outer : List Char :=
  match spelled.minus with
  | none => []
  | some blanks => '-' :: blanks

/-- The text of the number. -/
def text : List Char :=
  spelled.outer ++ spelled.unsigned

/-- The imaginary part that is denoted. -/
def imaginaryValue : Float :=
  if spelled.negative then -partValue spelled.imaginary else partValue spelled.imaginary

/-- The number that is denoted. -/
def value : ComplexNumber :=
  ⟨if spelled.minus.isSome then -partValue spelled.real else partValue spelled.real,
    spelled.imaginaryValue⟩

end Spelled

section Blanks

variable {blanks rest : List Char}

theorem stripStart_append (blank : blanks.all isBlank = true) :
    stripStart (blanks ++ rest) = stripStart rest :=
  List.dropWhile_append_of_pos (List.all_eq_true.mp blank)

theorem stripStart_cons {c : Char} (visible : isBlank c = false) (text : List Char) :
    stripStart (c :: text) = c :: text :=
  List.dropWhile_cons_of_neg (by rw [visible]; exact Bool.false_ne_true)

theorem continuesDecimal_of_isBlank {c : Char} (blank : isBlank c = true) :
    continuesDecimal c = false :=
  Bool.not_eq_true' _ ▸ forall_isBlank (p := fun c => !continuesDecimal c) (by decide) blank

theorem isBlank_of_isDecimalDigit {c : Char} (digit : isDecimalDigit c = true) :
    isBlank c = false := by
  cases blank : isBlank c with
  | false => rfl
  | true =>
      have stops := continuesDecimal_of_isBlank blank
      rw [continuesDecimal, digit] at stops
      cases stops

/-- Blanks and a sign do not continue a decimal. -/
theorem continuesDecimal_head (blank : blanks.all isBlank = true) {sign : Char}
    (stops : continuesDecimal sign = false) :
    ∀ c ∈ (blanks ++ sign :: rest).head?, continuesDecimal c = false := by
  intro c is
  cases blanks with
  | nil =>
      cases is
      exact stops
  | cons first blanks =>
      cases is
      exact continuesDecimal_of_isBlank (List.all_eq_true.mp blank c List.mem_cons_self)

end Blanks

namespace Spelled

variable (spelled : Spelled) {rest : List Char}

theorem takeInnerSign?_append {first : Char} (digit : isDecimalDigit first = true)
    (text : List Char) :
    takeInnerSign? (spelled.left ++ spelled.inner :: (spelled.right ++ first :: text)) =
      some (spelled.negative, first :: text) := by
  have visible := isBlank_of_isDecimalDigit digit
  have stripped : stripStart (spelled.right ++ first :: text) = first :: text := by
    rw [stripStart_append spelled.blankRight, stripStart_cons visible]
  unfold takeInnerSign? inner
  rw [stripStart_append spelled.blankLeft]
  cases spelled.negative with
  | true =>
      rw [if_pos rfl, stripStart_cons (by decide)]
      change some (true, stripStart (spelled.right ++ first :: text)) = _
      rw [stripped]
  | false =>
      rw [if_neg Bool.false_ne_true, stripStart_cons (by decide)]
      change some (false, stripStart (spelled.right ++ first :: text)) = _
      rw [stripped]

/-- A written number is taken, apart from the minus in front. -/
theorem takeUnsigned?_append (ends : ∀ c ∈ rest.head?, isWordLetter c = false) :
    takeUnsigned? (spelled.unsigned ++ rest) =
      some (⟨partValue spelled.real, spelled.imaginaryValue⟩, rest) := by
  have sign : continuesDecimal spelled.inner = false := by
    unfold inner
    cases spelled.negative <;> decide
  have real : takeDecimal? (spelled.unsigned ++ rest) = some (spelled.real, spelled.left ++
      spelled.inner :: (spelled.right ++ (spelled.imaginary ++ 'i' :: rest))) := by
    have spread : spelled.unsigned ++ rest = spelled.real ++ (spelled.left ++
        spelled.inner :: (spelled.right ++ (spelled.imaginary ++ 'i' :: rest))) := by
      simp only [unsigned, List.append_assoc, List.cons_append, List.nil_append]
    rw [spread]
    exact takeDecimal?_append spelled.isReal (continuesDecimal_head spelled.blankLeft sign)
  have imaginary : takeDecimal? (spelled.imaginary ++ 'i' :: rest) =
      some (spelled.imaginary, 'i' :: rest) := by
    refine takeDecimal?_append spelled.isImaginary fun c is => ?_
    cases is
    decide
  have between : takeInnerSign? (spelled.left ++ spelled.inner ::
      (spelled.right ++ (spelled.imaginary ++ 'i' :: rest))) =
        some (spelled.negative, spelled.imaginary ++ 'i' :: rest) := by
    obtain ⟨first, others, same, digit⟩ := spelled.isImaginary.exists_head
    rw [same, List.cons_append]
    exact spelled.takeInnerSign?_append digit _
  have letterless : rest.head?.any isWordLetter = false := by
    cases rest with
    | nil => rfl
    | cons c rest => exact ends c rfl
  unfold takeUnsigned?
  rw [real]
  simp only [Option.bind_eq_bind, Option.bind_some, between, imaginary, letterless,
    Bool.false_eq_true, if_false]
  rfl

end Spelled

/-! ## Signs -/

section Signs

variable {before : List Char}

/-- A number may follow this text, given nearest first. A minus between them is its sign, and no
minus of the text is. -/
structure Admits (before : List Char) : Prop where
  free : ∀ c ∈ before.head?, continuesDecimal c = false
  awaits : ∀ c ∈ (stripStart before).head?, signContext.contains c = true
  unsigned : takeOuterSign? before = none

/-- This text, given nearest first, ends in a number or a closing parenthesis. -/
def Closes (before : List Char) : Prop :=
  ∃ c rest, stripStart before = c :: rest ∧ signContext.contains c = false

theorem Admits.blank (admits : Admits before) {c : Char} (blank : isBlank c = true) :
    Admits (c :: before) := by
  have stripped : stripStart (c :: before) = stripStart before :=
    List.dropWhile_cons_of_pos blank
  refine ⟨fun d is => ?_, ?_, ?_⟩
  · cases is
    exact continuesDecimal_of_isBlank blank
  · rw [stripped]
    exact admits.awaits
  · have unsigned := admits.unsigned
    rw [takeOuterSign?, stripped]
    exact unsigned

/-- A written number ends in its mark. -/
theorem Spelled.exists_reverse (spelled : Spelled) : ∃ rest, spelled.text.reverse = 'i' :: rest := by
  refine ⟨(spelled.outer ++ (spelled.real ++ (spelled.left ++
    spelled.inner :: (spelled.right ++ spelled.imaginary)))).reverse, ?_⟩
  simp only [Spelled.text, Spelled.unsigned, List.reverse_append, List.reverse_cons,
    List.append_assoc, List.cons_append, List.nil_append, List.reverse_nil]

theorem Spelled.closes (spelled : Spelled) (before : List Char) :
    Closes (spelled.text.reverse ++ before) := by
  obtain ⟨rest, is⟩ := spelled.exists_reverse
  rw [is]
  exact ⟨'i', rest ++ before, stripStart_cons (by decide) _, by decide⟩

/-- A minus where a number may follow is the sign of the number. -/
theorem Admits.takeOuterSign? (admits : Admits before) {blanks : List Char}
    (blank : blanks.all isBlank = true) :
    ComplexNumber.takeOuterSign? (blanks.reverse ++ '-' :: before) = some before := by
  have awaits := admits.awaits
  have reversed : blanks.reverse.all isBlank = true := by rw [List.all_reverse, blank]
  unfold ComplexNumber.takeOuterSign?
  rw [stripStart_append reversed, stripStart_cons (by decide)]
  cases is : stripStart before with
  | nil =>
      simp only [is]
  | cons c rest =>
      rw [is] at awaits
      simp only [is, awaits c rfl, if_true]

end Signs

/-! ## Scanning -/

section Scanning

variable {before part rest : List Char}

/-- What belongs to a number is passed over. -/
theorem literalsFrom_length (before part rest : List Char) :
    literalsFrom part.length before (part ++ rest) =
      literalsFrom 0 (part.reverse ++ before) rest := by
  induction part generalizing before with
  | nil => rfl
  | cons c part ih =>
      rw [List.length_cons, List.cons_append, literalsFrom, ih, List.reverse_cons,
        List.append_assoc]
      rfl

theorem Spelled.literalsFrom_unsigned (spelled : Spelled)
    (free : ∀ c ∈ before.head?, continuesDecimal c = false)
    (ends : ∀ c ∈ rest.head?, isWordLetter c = false) :
    literalsFrom 0 before (spelled.unsigned ++ rest) =
      literalAt before (before.length + spelled.unsigned.length)
        ⟨partValue spelled.real, spelled.imaginaryValue⟩ ::
        literalsFrom 0 (spelled.unsigned.reverse ++ before) rest := by
  have taken := spelled.takeUnsigned?_append ends
  have starts : ∃ c others, spelled.unsigned = c :: others := by
    obtain ⟨c, others, is, _⟩ := spelled.isReal.exists_head
    exact ⟨c, _, by rw [Spelled.unsigned, is]; rfl⟩
  obtain ⟨c, others, is⟩ := starts
  have apart : before.head?.any continuesDecimal = false := by
    cases before with
    | nil => rfl
    | cons d before => exact free d rfl
  rw [is] at taken ⊢
  rw [List.cons_append] at taken ⊢
  have length : (others ++ rest).length + 1 - rest.length = others.length + 1 := by
    rw [List.length_append]
    omega
  rw [literalsFrom, apart, if_neg Bool.false_ne_true, taken]
  dsimp only
  rw [length, Nat.add_sub_cancel, literalsFrom_length, List.reverse_cons, List.append_assoc,
    List.length_cons]
  rfl

end Scanning

end Reckoner.ComplexNumber
