import Reckoner.ComplexNumber.Expression
import Reckoner.Equation.Shape
import Reckoner.Proofs.Decimal.Numeral

/-!
# Numbers that are read are numbers

Where a reader takes a number from a text, by digits of any script, the taken characters denote a
double. So a reader never falls back on a default for the value of a number.
-/

namespace Reckoner.Decimal

open Text

/-! ## The texts of decimals -/

/-- Digits with at most one point among them. -/
inductive IsDecimal (digit : Char → Bool) : List Char → Prop
  | whole {digits : List Char} (some : digits ≠ []) (areDigits : digits.all digit = true) :
      IsDecimal digit digits
  | point {whole fraction : List Char} (some : whole ++ fraction ≠ [])
      (areWhole : whole.all digit = true) (areFraction : fraction.all digit = true) :
      IsDecimal digit (whole ++ '.' :: fraction)

theorem IsDecimal.mono {digit other : Char → Bool} {text : List Char}
    (isDecimal : IsDecimal digit text) (weaker : ∀ {c}, digit c = true → other c = true) :
    IsDecimal other text := by
  have weaken {digits : List Char} (areDigits : digits.all digit = true) :
      digits.all other = true :=
    List.all_eq_true.mpr fun c member => weaker (List.all_eq_true.mp areDigits c member)
  cases isDecimal with
  | whole some areDigits => exact .whole some (weaken areDigits)
  | point some areWhole areFraction => exact .point some (weaken areWhole) (weaken areFraction)

/-- No exponent, or a mark, a sign that may be left out, and digits. -/
inductive IsPower (digit : Char → Bool) : List Char → Prop
  | none : IsPower digit []
  | marked {mark : Char} {sign digits : List Char} (isMark : mark = 'e' ∨ mark = 'E')
      (isSign : sign = [] ∨ sign = ['+'] ∨ sign = ['-']) (some : digits ≠ [])
      (areDigits : digits.all digit = true) : IsPower digit (mark :: (sign ++ digits))

theorem IsPower.mono {digit other : Char → Bool} {text : List Char}
    (isPower : IsPower digit text) (weaker : ∀ {c}, digit c = true → other c = true) :
    IsPower other text := by
  cases isPower with
  | none => exact .none
  | marked isMark isSign some areDigits =>
      exact .marked isMark isSign some (List.all_eq_true.mpr fun c member =>
        weaker (List.all_eq_true.mp areDigits c member))

theorem digitOver_lt {zeros : List Nat} {code value : Nat}
    (above : digitOver zeros code = some value) : value < 10 := by
  induction zeros with
  | nil => cases above
  | cons first rest ih =>
      rw [digitOver] at above
      split at above
      · split at above
        · cases above
          omega
        · cases above
      · exact ih above

theorem isDigit_digitChar {value : Nat} (small : value < 10) :
    (Nat.digitChar value).isDigit = true :=
  (by decide : ∀ value < 10, (Nat.digitChar value).isDigit = true) value small

theorem isDigit_plainDigit {c : Char} (digit : isDecimalDigit c = true) :
    (plainDigit c).isDigit = true := by
  obtain ⟨value, is⟩ := Option.isSome_iff_exists.mp digit
  rw [plainDigit, is]
  exact isDigit_digitChar (digitOver_lt is)

theorem all_isDigit_plain {digits : List Char} (areDigits : digits.all isDecimalDigit = true) :
    (digits.map plainDigit).all Char.isDigit = true := by
  rw [List.all_map, List.all_eq_true]
  intro c member
  exact isDigit_plainDigit (List.all_eq_true.mp areDigits c member)

/-- In ASCII a decimal stays one. -/
theorem IsDecimal.plain {text : List Char} (isDecimal : IsDecimal isDecimalDigit text) :
    IsDecimal Char.isDigit (text.map plainDigit) := by
  cases isDecimal with
  | whole some areDigits =>
      exact .whole (by simpa using some) (all_isDigit_plain areDigits)
  | point some areWhole areFraction =>
      have point : plainDigit '.' = '.' := by decide
      rw [List.map_append, List.map_cons, point]
      refine .point ?_ (all_isDigit_plain areWhole) (all_isDigit_plain areFraction)
      rw [← List.map_append]
      simpa using some

theorem IsPower.plain {text : List Char} (isPower : IsPower isDecimalDigit text) :
    IsPower Char.isDigit (text.map plainDigit) := by
  cases isPower with
  | none => exact .none
  | @marked mark sign digits isMark isSign some areDigits =>
      have kept : plainDigit mark = mark := by
        rcases isMark with rfl | rfl <;> decide
      have signKept : sign.map plainDigit = sign := by
        rcases isSign with rfl | rfl | rfl <;> decide
      rw [List.map_cons, List.map_append, kept, signKept]
      exact .marked isMark isSign (by simpa using some) (all_isDigit_plain areDigits)

/-! ## Reading them -/

theorem exists_readExponent? {text : List Char} (isPower : IsPower Char.isDigit text) :
    ∃ power, readExponent? text = some power := by
  cases isPower with
  | none => exact ⟨0, rfl⟩
  | @marked mark sign digits isMark isSign some areDigits =>
      cases digits with
      | nil => exact absurd rfl some
      | cons first rest =>
          have marked : (mark == 'e' || mark == 'E') = true := by
            rcases isMark with rfl | rfl <;> rfl
          have taken : ∃ negative, takeSign (sign ++ first :: rest) = (negative, first :: rest) := by
            rcases isSign with rfl | rfl | rfl
            · rw [List.all_cons, Bool.and_eq_true] at areDigits
              exact ⟨false, takeSign_eq_self (.inl areDigits.1)⟩
            · exact ⟨false, rfl⟩
            · exact ⟨true, rfl⟩
          obtain ⟨negative, taken⟩ := taken
          rw [readExponent?, taken]
          simp only [marked, areDigits, List.isEmpty_cons, Bool.not_false, Bool.and_self, if_true,
            Option.some.injEq, exists_eq']

theorem head_power {text : List Char} (isPower : IsPower Char.isDigit text) :
    ∀ c ∈ text.head?, c.isDigit = false ∧ c ≠ '.' := by
  cases isPower with
  | none => exact nofun
  | marked isMark isSign some areDigits =>
      intro c is
      cases is
      rcases isMark with rfl | rfl <;> decide

/-- The digits of a decimal, without the point. -/
def mantissa (text : List Char) : List Char :=
  text.filter (· != '.')

/-- The number of digits behind the point of a decimal. -/
def places (text : List Char) : Nat :=
  (text.dropWhile (· != '.')).tail.length

theorem pointless_of_digits {digits : List Char} (areDigits : digits.all Char.isDigit = true) :
    ∀ c ∈ digits, (c != '.') = true := fun c member =>
  forall_isDigit (p := fun c => (c != '.') = true) (by decide)
    (List.all_eq_true.mp areDigits c member)

theorem mantissa_whole {digits : List Char} (areDigits : digits.all Char.isDigit = true) :
    mantissa digits = digits :=
  List.filter_eq_self.mpr (pointless_of_digits areDigits)

theorem places_whole {digits : List Char} (areDigits : digits.all Char.isDigit = true) :
    places digits = 0 := by
  have dropped : (digits ++ []).dropWhile (· != '.') = [] :=
    dropWhile_append_of_ends (pointless_of_digits areDigits) nofun
  rw [List.append_nil] at dropped
  rw [places, dropped]
  rfl

section Point

variable {whole fraction : List Char} (areWhole : whole.all Char.isDigit = true)
  (areFraction : fraction.all Char.isDigit = true)

include areWhole

include areFraction in
theorem mantissa_point : mantissa (whole ++ '.' :: fraction) = whole ++ fraction := by
  rw [mantissa, List.filter_append, List.filter_cons_of_neg (by decide),
    List.filter_eq_self.mpr (pointless_of_digits areWhole),
    List.filter_eq_self.mpr (pointless_of_digits areFraction)]

theorem places_point : places (whole ++ '.' :: fraction) = fraction.length := by
  have dropped : (whole ++ '.' :: fraction).dropWhile (· != '.') = '.' :: fraction :=
    dropWhile_append_of_ends (pointless_of_digits areWhole) fun c is => by
      cases is
      rfl
  rw [places, dropped]
  rfl

end Point

/-- **A decimal with an exponent denotes its digits times a power of ten.** -/
theorem readUnsigned?_append {text exponent : List Char}
    (isDecimal : IsDecimal Char.isDigit text) (isPower : IsPower Char.isDigit exponent) :
    readUnsigned? (text ++ exponent) = (readExponent? exponent).map fun power =>
      scaled (digitsValue (mantissa text)) (power - places text) := by
  have ends := head_power isPower
  cases isDecimal with
  | whole some areDigits =>
      obtain ⟨taken, dropped⟩ := takeWhile_digits areDigits fun c is => (ends c is).1
      rw [mantissa_whole areDigits, places_whole areDigits]
      unfold readUnsigned?
      rw [taken, dropped]
      obtain ⟨first, digits, rfl⟩ := List.exists_cons_of_ne_nil some
      cases isPower with
      | none => simp
      | marked isMark => rcases isMark with rfl | rfl <;> simp
  | @point whole fraction some areWhole areFraction =>
      obtain ⟨taken, dropped⟩ := @takeWhile_digits whole ('.' :: (fraction ++ exponent)) areWhole
        fun c is => by
          cases is
          rfl
      obtain ⟨takenFraction, rest⟩ := takeWhile_digits areFraction fun c is => (ends c is).1
      have digits : (whole.isEmpty && fraction.isEmpty) = false := by
        rw [← Bool.not_eq_true, Bool.and_eq_true, List.isEmpty_iff, List.isEmpty_iff,
          ← List.append_eq_nil_iff]
        exact some
      rw [mantissa_point areWhole areFraction, places_point areWhole]
      unfold readUnsigned?
      rw [List.append_assoc, List.cons_append, taken, dropped]
      simp only [takenFraction, rest, digits, Bool.false_eq_true, if_false]

/-- The characters of decimals and exponents with digits of any script. -/
def isNumberCharacter (c : Char) : Bool :=
  isDecimalDigit c || c == '.' || c == 'e' || c == 'E' || c == '+' || c == '-'

theorem all_of_digits {digits : List Char} (areDigits : digits.all isDecimalDigit = true) :
    digits.all isNumberCharacter = true := by
  rw [List.all_eq_true] at areDigits ⊢
  intro c member
  rw [isNumberCharacter, areDigits c member]
  rfl

theorem IsDecimal.characters {text : List Char} (isDecimal : IsDecimal isDecimalDigit text) :
    text.all isNumberCharacter = true := by
  cases isDecimal with
  | whole some areDigits => exact all_of_digits areDigits
  | point some areWhole areFraction =>
      rw [List.all_append, List.all_cons, all_of_digits areWhole, all_of_digits areFraction]
      decide

theorem IsPower.characters {text : List Char} (isPower : IsPower isDecimalDigit text) :
    text.all isNumberCharacter = true := by
  cases isPower with
  | none => rfl
  | marked isMark isSign some areDigits =>
      rw [List.all_cons, List.all_append, all_of_digits areDigits]
      rcases isMark with rfl | rfl <;> rcases isSign with rfl | rfl | rfl <;> decide

theorem isMargin_of_isNumberCharacter {c : Char} (is : isNumberCharacter c = true) :
    isMargin c = false := by
  rw [isMargin]
  cases blank : isBlank c with
  | false => rfl
  | true =>
      have stops := forall_isBlank (p := fun c => !isNumberCharacter c) (by decide) blank
      rw [is] at stops
      cases stops

theorem isDigit_or_of_isNumberCharacter {c : Char} (is : isNumberCharacter c = true) :
    (plainDigit c).isDigit = true ∨ plainDigit c ∈ ['.', 'e', 'E', '+', '-'] := by
  simp only [isNumberCharacter, Bool.or_eq_true, beq_iff_eq] at is
  rcases is with ((((digit | rfl) | rfl) | rfl) | rfl) | rfl
  · exact .inl (isDigit_plainDigit digit)
  all_goals
    right
    decide

theorem plainDigit_ne_underscore {c : Char} (is : isNumberCharacter c = true) :
    plainDigit c ≠ '_' := by
  intro same
  rcases isDigit_or_of_isNumberCharacter is with digit | member
  · rw [same] at digit
    cases digit
  · rw [same] at member
    exact absurd member (by decide)

/-- An ASCII decimal starts with a digit or a point. -/
theorem head_of_isDecimal {text : List Char} (isDecimal : IsDecimal Char.isDigit text) :
    ∃ first rest, text = first :: rest ∧ (first.isDigit = true ∨ first = '.') := by
  cases isDecimal with
  | whole some areDigits =>
      cases text with
      | nil => exact absurd rfl some
      | cons first rest =>
          rw [List.all_cons, Bool.and_eq_true] at areDigits
          exact ⟨first, rest, rfl, .inl areDigits.1⟩
  | @point whole fraction some areWhole areFraction =>
      cases whole with
      | nil => exact ⟨'.', fraction, rfl, .inr rfl⟩
      | cons first rest =>
          rw [List.all_cons, Bool.and_eq_true] at areWhole
          exact ⟨first, _, rfl, .inl areWhole.1⟩

/-- A decimal with an exponent is read as an unsigned decimal, by digits of any script. -/
theorem readFloat?_append {text exponent : List Char} (isDecimal : IsDecimal isDecimalDigit text)
    (isPower : IsPower isDecimalDigit exponent) :
    readFloat? (text ++ exponent) =
      readUnsigned? (text.map plainDigit ++ exponent.map plainDigit) := by
  have characters : ∀ c ∈ text ++ exponent, isNumberCharacter c = true := by
    rw [← List.all_eq_true, List.all_append, isDecimal.characters, isPower.characters]
    rfl
  have trimmed : trimMargins (text ++ exponent) = text ++ exponent :=
    trimMargins_eq_self fun c member => isMargin_of_isNumberCharacter (characters c member)
  have kept : dropUnderscores? ((text ++ exponent).map plainDigit) =
      some ((text ++ exponent).map plainDigit) := by
    apply dropUnderscores?_eq_some
    intro d member
    obtain ⟨c, present, rfl⟩ := List.mem_map.mp member
    exact plainDigit_ne_underscore (characters c present)
  obtain ⟨first, rest, spelled, starts⟩ := head_of_isDecimal isDecimal.plain
  have stops : first.toLower.isAlpha = false := by
    rcases starts with digit | rfl
    · exact isAlpha_toLower_of_isDigit digit
    · rfl
  rw [List.map_append, spelled, List.cons_append] at kept
  unfold readFloat?
  rw [trimmed, List.map_append, spelled, List.cons_append, kept]
  simp only [Option.bind_eq_bind, Option.bind_some, takeSign_eq_self starts,
    readWord?_eq_none _ stops, Option.none_or]
  cases readUnsigned? (first :: (rest ++ exponent.map plainDigit)) <;> rfl

/-- **An ASCII decimal denotes its digits times a power of ten.** -/
theorem readFloat?_of_isDecimal {text : List Char} (isDecimal : IsDecimal Char.isDigit text) :
    readFloat? text = some (scaled (digitsValue (mantissa text)) (-places text)) := by
  have plain : text.map plainDigit = text := by
    refine (List.map_congr_left fun c member => ?_).trans (List.map_id _)
    have kept : ∀ c, c.isDigit = true ∨ c = '.' → plainDigit c = c := by
      rintro c (digit | rfl)
      · exact forall_isDigit (p := fun c => plainDigit c = c) (by decide) digit
      · decide
    apply kept
    cases isDecimal with
    | whole some areDigits => exact .inl (List.all_eq_true.mp areDigits c member)
    | point some areWhole areFraction =>
        rcases List.mem_append.mp member with member | member
        · exact .inl (List.all_eq_true.mp areWhole c member)
        · rcases List.mem_cons.mp member with rfl | member
          · exact .inr rfl
          · exact .inl (List.all_eq_true.mp areFraction c member)
  have read := readFloat?_append (isDecimal.mono isDecimalDigit_of_isDigit) .none
  rw [List.append_nil, plain, List.map_nil, readUnsigned?_append isDecimal .none] at read
  rw [read]
  exact congrArg (fun power => some (scaled _ power)) (Int.zero_sub _)

/-- **A decimal with an exponent denotes a double**, by digits of any script. -/
theorem exists_readFloat? {text exponent : List Char} (isDecimal : IsDecimal isDecimalDigit text)
    (isPower : IsPower isDecimalDigit exponent) :
    ∃ value, readFloat? (text ++ exponent) = some value := by
  obtain ⟨power, read⟩ := exists_readExponent? isPower.plain
  rw [readFloat?_append isDecimal isPower, readUnsigned?_append isDecimal.plain isPower.plain, read]
  exact ⟨_, rfl⟩

/-! ## What readers take -/

theorem all_takeWhile (text : List Char) :
    (text.takeWhile isDecimalDigit).all isDecimalDigit = true :=
  List.all_takeWhile

theorem isPower_takeExponent (text : List Char) :
    IsPower isDecimalDigit (Token.takeExponent text).1 := by
  unfold Token.takeExponent
  split
  · rename_i mark sign digit text
    split
    · rename_i isMark
      simp only [Bool.or_eq_true, beq_iff_eq] at isMark
      split
      · rename_i signed
        simp only [Bool.and_eq_true, Bool.or_eq_true, beq_iff_eq] at signed
        obtain ⟨isSign, first⟩ := signed
        change IsPower isDecimalDigit (mark :: ([sign] ++ digit :: (Token.takeDigits text).1))
        refine .marked isMark ?_ nofun ?_
        · rcases isSign with rfl | rfl
          · exact .inr (.inl rfl)
          · exact .inr (.inr rfl)
        · exact all_cons_of_all first (all_takeWhile text)
      · split
        · rename_i first
          change IsPower isDecimalDigit
            (mark :: ([] ++ sign :: (Token.takeDigits (digit :: text)).1))
          exact .marked isMark (.inl rfl) nofun
            (all_cons_of_all first (all_takeWhile (digit :: text)))
        · exact .none
    · exact .none
  · rename_i mark digit
    split
    · rename_i marked
      simp only [Bool.and_eq_true, Bool.or_eq_true, beq_iff_eq] at marked
      change IsPower isDecimalDigit (mark :: ([] ++ [digit]))
      exact .marked marked.1 (.inl rfl) nofun (all_cons_of_all marked.2 rfl)
    · exact .none
  · exact .none

theorem takePoint_cases (text : List Char) :
    (Token.takePoint text).1 = [] ∨
      ∃ fraction, (Token.takePoint text).1 = '.' :: fraction ∧
        fraction.all isDecimalDigit = true := by
  unfold Token.takePoint
  split
  · exact .inr ⟨_, rfl, all_takeWhile _⟩
  · exact .inl rfl

/-- A number at the start of a text up to its exponent, and what follows. -/
def takeMantissa? : List Char → Option (List Char × List Char)
  | [] => none
  | c :: text =>
      if c.isDigit then
        some (c :: ((Token.takeDigits text).1 ++ (Token.takePoint (Token.takeDigits text).2).1),
          (Token.takePoint (Token.takeDigits text).2).2)
      else if c == '.' && text.head?.any Char.isDigit then
        some (c :: (Token.takeDigits text).1, (Token.takeDigits text).2)
      else none

/-- A number is taken with the exponent that follows it. -/
theorem takeNumber?_eq (text : List Char) :
    Token.takeNumber? text = (takeMantissa? text).map fun taken =>
      (taken.1 ++ (Token.takeExponent taken.2).1, (Token.takeExponent taken.2).2) := by
  cases text with
  | nil => rfl
  | cons c text =>
      rw [Token.takeNumber?, takeMantissa?]
      split
      · simp [Token.takeAfterDigit]
      · split
        · simp [Token.takeAfterPoint]
        · rfl

/-- What a reader of tokens takes before an exponent is a decimal. -/
theorem isDecimal_of_takeMantissa? {text digits rest : List Char}
    (taken : takeMantissa? text = some (digits, rest)) : IsDecimal isDecimalDigit digits := by
  unfold takeMantissa? at taken
  split at taken
  · cases taken
  · rename_i c text
    split at taken
    · rename_i digit
      cases taken
      have whole := all_cons_of_all (isDecimalDigit_of_isDigit digit) (all_takeWhile text)
      rcases takePoint_cases (Token.takeDigits text).2 with none | ⟨fraction, point, all⟩
      · rw [none, List.append_nil]
        exact .whole (List.cons_ne_nil _ _) whole
      · rw [point, ← List.cons_append]
        exact .point (List.append_ne_nil_of_left_ne_nil (List.cons_ne_nil _ _) _) whole all
    · split at taken
      · rename_i starts
        cases taken
        rw [Bool.and_eq_true, beq_iff_eq] at starts
        obtain ⟨rfl, digit⟩ := starts
        change IsDecimal isDecimalDigit ([] ++ '.' :: (Token.takeDigits text).1)
        refine .point ?_ rfl (all_takeWhile text)
        cases text with
        | nil => cases digit
        | cons first text =>
            have first : isDecimalDigit first = true := isDecimalDigit_of_isDigit digit
            rw [List.nil_append, Token.takeDigits, List.takeWhile_cons_of_pos first]
            exact List.cons_ne_nil _ _
      · cases taken

/-- What a reader of tokens takes for a number is a decimal with an exponent. -/
theorem isDecimal_of_takeNumber? {text digits rest : List Char}
    (taken : Token.takeNumber? text = some (digits, rest)) :
    ∃ decimal exponent, digits = decimal ++ exponent ∧ IsDecimal isDecimalDigit decimal ∧
      IsPower isDecimalDigit exponent := by
  rw [takeNumber?_eq] at taken
  obtain ⟨⟨decimal, behind⟩, first, is⟩ := Option.map_eq_some_iff.mp taken
  cases is
  exact ⟨decimal, _, rfl, isDecimal_of_takeMantissa? first, isPower_takeExponent behind⟩

/-- **The reader of tokens never falls back on a default for a number.** -/
theorem readFloat?_of_takeNumber? {text digits rest : List Char}
    (taken : Token.takeNumber? text = some (digits, rest)) :
    readFloat? digits = some (Token.numberValue digits) := by
  obtain ⟨decimal, exponent, rfl, isDecimal, isPower⟩ := isDecimal_of_takeNumber? taken
  obtain ⟨value, read⟩ := exists_readFloat? isDecimal isPower
  rw [Token.numberValue, read]
  rfl

/-- What a reader of complex numbers takes for a part is a decimal. -/
theorem isDecimal_of_takeDecimal? {text digits rest : List Char}
    (taken : ComplexNumber.takeDecimal? text = some (digits, rest)) :
    IsDecimal isDecimalDigit digits := by
  unfold ComplexNumber.takeDecimal? at taken
  simp only at taken
  split at taken
  · cases taken
  · rename_i nonempty
    have some : text.takeWhile isDecimalDigit ≠ [] := fun none => nonempty (by rw [none]; rfl)
    split at taken
    · split at taken
      · cases taken
        exact .point (fun none => some (List.append_eq_nil_iff.mp none).1) (all_takeWhile text)
          (all_takeWhile _)
      · cases taken
        exact .whole some (all_takeWhile text)
    · cases taken
      exact .whole some (all_takeWhile text)

/-- **The reader of complex numbers never falls back on a default for a part.** -/
theorem readFloat?_of_takeDecimal? {text digits rest : List Char}
    (taken : ComplexNumber.takeDecimal? text = some (digits, rest)) :
    readFloat? digits = some (ComplexNumber.partValue digits) := by
  obtain ⟨value, read⟩ := exists_readFloat? (isDecimal_of_takeDecimal? taken) .none
  rw [List.append_nil] at read
  rw [ComplexNumber.partValue, read]
  rfl

/-- A divisor of the unknown is a decimal. -/
theorem isDecimal_of_divisor? {text digits : List Char}
    (divisor : Equation.divisor? text = some digits) : IsDecimal isDecimalDigit digits := by
  unfold Equation.divisor? at divisor
  simp only [Option.ite_none_right_eq_some, Option.some.injEq, Bool.and_eq_true] at divisor
  obtain ⟨⟨last, all⟩, rfl⟩ := divisor
  have split := List.takeWhile_append_dropWhile (p := isDecimalDigit) (l := text)
  generalize parts : text.dropWhile isDecimalDigit = rest at split all
  have whole := all_takeWhile text
  split at all
  · rename_i fraction
    rw [← split] at last ⊢
    apply IsDecimal.point _ whole all
    intro none
    obtain ⟨-, rfl⟩ := List.append_eq_nil_iff.mp none
    rw [List.getLast?_append] at last
    change isDecimalDigit '.' = true at last
    exact absurd last (by decide)
  · have ended : rest = [] := by
      cases rest with
      | nil => rfl
      | cons c others =>
          have stops := List.head_dropWhile_not isDecimalDigit (w := by rw [parts]; exact nofun)
          simp only [parts, List.head_cons] at stops
          rw [List.all_cons, stops] at all
          cases all
    rw [ended, List.append_nil] at split
    rw [split] at whole
    apply IsDecimal.whole _ whole
    rintro rfl
    cases last

/-- A divisor of the unknown denotes a double. -/
theorem exists_readFloat?_of_divisor? {text digits : List Char}
    (divisor : Equation.divisor? text = some digits) : ∃ value, readFloat? digits = some value := by
  have read := exists_readFloat? (isDecimal_of_divisor? divisor) .none
  rwa [List.append_nil] at read

end Reckoner.Decimal
