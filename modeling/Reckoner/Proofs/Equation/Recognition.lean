import Reckoner.Proofs.Acceptance
import Reckoner.Proofs.Equation.Coefficient
import Reckoner.Proofs.Reaching

/-!
# Recognizing sums of numbers

A text of digits, points, operators and blanks that has a value is a text of a side of constant
terms, unless blanks stand inside of its numbers (`Reckoner.Equation.exists_chains_of_evaluate`).
-/

namespace Reckoner.Equation

open Text Token Grammar Outcome Substitution

open Decimal (IsDecimal)

/-! ## Numbers without blanks -/

/-- A character of a number. -/
def isNumberPart (c : Char) : Bool :=
  c.isDigit || c == '.'

/-- No blanks stand between two characters of numbers. -/
def Unbroken (text : List Char) : Prop :=
  ∀ before blanks behind c d, text = before ++ c :: (blanks ++ d :: behind) →
    (∀ b ∈ blanks, isBlank b = true) → isNumberPart c = true → isNumberPart d = true → blanks = []

/-- The text goes on, perhaps behind blanks, with no number. -/
def NumberOver (text : List Char) : Prop :=
  ∀ blanks d behind, text = blanks ++ d :: behind → (∀ b ∈ blanks, isBlank b = true) →
    isNumberPart d = false

section Unbroken

variable {text first rest : List Char}

theorem Unbroken.of_append (unbroken : Unbroken (first ++ rest)) : Unbroken rest := by
  rintro before blanks behind c d rfl
  exact unbroken (first ++ before) blanks behind c d (List.append_assoc _ _ _).symm

theorem Unbroken.of_cons {c : Char} (unbroken : Unbroken (c :: rest)) : Unbroken rest :=
  @Unbroken.of_append [c] rest unbroken

/-- Behind a number of an unbroken text there is no other one. -/
theorem Unbroken.numberOver (unbroken : Unbroken (first ++ rest)) (some : first ≠ [])
    (parts : ∀ c ∈ first, isNumberPart c = true)
    (stops : ∀ c ∈ rest.head?, isNumberPart c = false) : NumberOver rest := by
  rintro blanks d behind rfl areBlank
  obtain ⟨front, last, rfl⟩ := (List.eq_nil_or_concat first).resolve_left some
  rw [List.concat_eq_append] at unbroken parts
  rw [← Bool.not_eq_true]
  intro other
  have inside := parts last (List.mem_append_right _ List.mem_cons_self)
  have none := unbroken front blanks behind last d (List.append_assoc _ _ _) areBlank inside other
  subst none
  rw [stops d rfl] at other
  cases other

/-- A text without blanks is unbroken. -/
theorem unbroken_of_not_blank (none : ∀ c ∈ text, isBlank c = false) : Unbroken text := by
  rintro before blanks behind c d rfl areBlank _ _
  cases blanks with
  | nil => rfl
  | cons b blanks =>
      have other := none b
        (List.mem_append_right _ (List.mem_cons_of_mem _ List.mem_cons_self))
      rw [areBlank b List.mem_cons_self] at other
      cases other

end Unbroken

/-! ## Characters of plain texts -/

section Plain

variable {c : Char} {text : List Char}

theorem isBoundary_of_holdsSign (holds : holdsSign c = true) : isBoundary c = true := by
  unfold holdsSign at holds
  simp only [Bool.or_eq_true, beq_iff_eq] at holds
  rcases holds with ((rfl | rfl) | rfl) | rfl <;> decide

/-- The digits of a plain text are ASCII digits. -/
theorem isDigit_of_isPlain (plain : isPlain c = true) (digit : isDecimalDigit c = true) :
    c.isDigit = true := by
  rcases isPlain_cases plain with is | rfl | blank | holds
  · exact is
  · rw [isDecimalDigit_point] at digit
    cases digit
  · rw [isDecimalDigit_of_isBoundary (isBoundary_of_isBlank blank)] at digit
    cases digit
  · rw [isDecimalDigit_of_isBoundary (isBoundary_of_holdsSign holds)] at digit
    cases digit

/-- A numeric character is plain if it is no digit beyond ASCII. -/
theorem isPlain_of_isNumeric (numeric : isNumeric c = true)
    (ascii : isDecimalDigit c = true → c.isDigit = true) : isPlain c = true := by
  unfold isNumeric at numeric
  unfold isPlain holdsSign
  simp only [Bool.or_eq_true] at numeric ⊢
  tauto

/-- The symbols of a plain text are the signs of sums, products and quotients. -/
theorem exists_lexeme_of_ofChar? (plain : isPlain c = true) {token : Token}
    (is : ofChar? c = some token) (name : List Char) :
    ∃ word : Lexeme, word.operates = true ∧ word.text name = [c] ∧ word.tokens [] = [token] ∧
      isNumber token = false := by
  rcases isPlain_cases plain with digit | rfl | blank | holds
  · have none := forall_isDigit (p := fun c => (ofChar? c).isNone = true) (by decide) digit
    rw [is] at none
    cases none
  · cases is
  · rw [ofChar?_blank blank] at is
    cases is
  · unfold holdsSign at holds
    simp only [Bool.or_eq_true, beq_iff_eq] at holds
    rcases holds with ((rfl | rfl) | rfl) | rfl
    · cases is
      exact ⟨.joint .times, rfl, rfl, rfl, rfl⟩
    · cases is
      exact ⟨.joint .per, rfl, rfl, rfl, rfl⟩
    · cases is
      exact ⟨.sign .plus, rfl, rfl, rfl, rfl⟩
    · cases is
      exact ⟨.sign .minus, rfl, rfl, rfl, rfl⟩

/-- The digits of the text are ASCII digits. -/
def HasPlainDigits (text : List Char) : Prop :=
  ∀ c ∈ text, isDecimalDigit c = true → c.isDigit = true

theorem hasPlainDigits_of_isPlain (plain : ∀ c ∈ text, isPlain c = true) : HasPlainDigits text :=
  fun c member => isDigit_of_isPlain (plain c member)

/-- A decimal with ASCII digits is one in ASCII. -/
theorem isDecimal_of_hasPlainDigits (ascii : HasPlainDigits text)
    (isDecimal : IsDecimal isDecimalDigit text) : IsDecimal Char.isDigit text := by
  have digits {part : List Char} (inside : ∀ c ∈ part, c ∈ text)
      (areDigits : part.all isDecimalDigit = true) : part.all Char.isDigit = true :=
    List.all_eq_true.mpr fun c member =>
      ascii c (inside c member) (List.all_eq_true.mp areDigits c member)
  cases isDecimal with
  | whole some areDigits => exact .whole some (digits (fun c member => member) areDigits)
  | point some areWhole areFraction =>
      exact .point some (digits (fun c member => List.mem_append_left _ member) areWhole)
        (digits (fun c member => List.mem_append_right _ (List.mem_cons_of_mem _ member))
          areFraction)

/-- A number of a plain text is a decimal. -/
theorem isDecimal_of_taken {digits rest : List Char} (plain : ∀ c ∈ text, isPlain c = true)
    (taken : takeNumber? text = some (digits, rest)) : IsDecimal Char.isDigit digits := by
  obtain ⟨spelled, _⟩ := takeNumber?_eq_some taken
  obtain ⟨decimal, exponent, rfl, isDecimal, isPower⟩ := Decimal.isDecimal_of_takeNumber? taken
  have ofDigits : ∀ c ∈ decimal ++ exponent, isPlain c = true := by
    intro c member
    rw [spelled] at plain
    exact plain c (List.mem_append_left _ member)
  cases isPower with
  | none =>
      rw [List.append_nil] at ofDigits ⊢
      exact isDecimal_of_hasPlainDigits (hasPlainDigits_of_isPlain ofDigits) isDecimal
  | marked isMark isSign some areDigits =>
      have marked := isWordLetter_of_isPlain
        (ofDigits _ (List.mem_append_right _ List.mem_cons_self))
      rcases isMark with rfl | rfl
      · exact absurd marked (by decide)
      · exact absurd marked (by decide)

end Plain

theorem isNumberPart_literal (literal : Literal) : ∀ c ∈ literal.text, isNumberPart c = true :=
  forall_literal (p := fun c => isNumberPart c = true) (by decide) (by decide) literal

/-- No number ends where another one starts. -/
theorem not_numberOver_literal (literal : Literal) (rest : List Char) :
    ¬NumberOver (literal.text ++ rest) := by
  intro ended
  have parts := isNumberPart_literal literal
  obtain ⟨c, tail, is⟩ := List.exists_cons_of_ne_nil (literal_ne_nil literal)
  rw [is] at ended parts
  have other := ended [] c (tail ++ rest) rfl fun _ member => absurd member List.not_mem_nil
  rw [parts c List.mem_cons_self] at other
  cases other

/-! ## Words of plain texts -/

/-- A text behind a number does not start with another one. -/
theorem stops_of_taken {text digits rest : List Char}
    (taken : takeNumber? text = some (digits, rest))
    (pointless : ∀ tail, rest ≠ '.' :: tail) : ∀ c ∈ rest.head?, isNumberPart c = false := by
  intro c is
  obtain ⟨_, stops⟩ := takeNumber?_eq_some taken
  have other := stops c is
  obtain ⟨tail, rfl⟩ := List.head?_eq_some_iff.mp is
  rw [isNumberPart, Bool.or_eq_false_iff, beq_eq_false_iff_ne]
  constructor
  · rw [← Bool.not_eq_true]
    intro digit
    rw [isDecimalDigit_of_isDigit digit] at other
    cases other
  · rintro rfl
    exact pointless tail rfl

/-- **What a strict reader takes from a plain text are words**, and no number follows another. -/
theorem exists_lexemes_of_scan {text : List Char} {tokens : List Token}
    (scanned : scan false text = .ok tokens) (plain : ∀ c ∈ text, isPlain c = true)
    (unbroken : Unbroken text) (name : List Char) {previous : Option Token}
    (apart : previous.any isNumber = true → NumberOver text) :
    ∃ words, Spread name words text ∧ Lexeme.unknown ∉ words ∧
      tokens = words.flatMap (Lexeme.tokens []) ∧ numbersApart previous tokens = true := by
  fun_induction scan false text generalizing tokens previous with
  | case1 => cases scanned
  | case2 text digits rest pointless taken _ ih =>
      obtain ⟨others, ended, rfl⟩ := map_eq_ok.mp scanned
      have isDecimal := isDecimal_of_taken plain taken
      have stops := stops_of_taken taken pointless
      obtain ⟨rfl, _⟩ := takeNumber?_eq_some taken
      have parts := isNumberPart_literal ⟨digits, isDecimal⟩
      have some := literal_ne_nil ⟨digits, isDecimal⟩
      obtain ⟨words, spread, named, rfl, further⟩ := @ih _ ended
        (fun c member => plain c (List.mem_append_right _ member)) unbroken.of_append
        (.some (.number (numberValue digits))) fun _ => unbroken.numberOver some parts stops
      refine ⟨.literal ⟨digits, isDecimal⟩ :: words, .word _ spread, ?_, rfl, ?_⟩
      · rw [List.mem_cons, not_or]
        exact ⟨Lexeme.noConfusion, named⟩
      · have first : previous.any isNumber = false := by
          rw [← Bool.not_eq_true]
          exact fun isNumber => not_numberOver_literal ⟨digits, isDecimal⟩ rest (apart isNumber)
        rw [numbersApart, first, further]
        rfl
  | case3 =>
      cases scanned
      exact ⟨[], .nil, List.not_mem_nil, rfl, rfl⟩
  | case4 c text none token is ih =>
      obtain ⟨others, ended, rfl⟩ := map_eq_ok.mp scanned
      obtain ⟨ofC, ofText⟩ := List.forall_mem_cons.mp plain
      obtain ⟨word, operates, spelled, isToken, other⟩ := exists_lexeme_of_ofChar? ofC is name
      obtain ⟨words, spread, named, rfl, further⟩ := @ih _ ended ofText unbroken.of_cons
        (.some token) fun isNumber => by
          rw [Option.any_some, other] at isNumber
          cases isNumber
      have whole := Spread.word word spread
      rw [spelled] at whole
      refine ⟨word :: words, whole, ?_, ?_, ?_⟩
      · rw [List.mem_cons, not_or]
        refine ⟨?_, named⟩
        rintro rfl
        cases operates
      · rw [List.flatMap_cons, isToken]
        rfl
      · rw [numbersApart_cons _ other]
        exact further
  | case5 c text none other blank ih =>
      obtain ⟨_, ofText⟩ := List.forall_mem_cons.mp plain
      obtain ⟨words, spread, named, rfl, further⟩ := @ih _ scanned ofText unbroken.of_cons previous
        fun isNumber blanks d behind is areBlank =>
          apart isNumber (c :: blanks) d behind (congrArg (c :: ·) is)
            (List.forall_mem_cons.mpr ⟨blank, areBlank⟩)
      exact ⟨words, .blank blank spread, named, rfl, further⟩
  | case6 c text none other blank letter _ ih =>
      have stops := isWordLetter_of_isPlain (plain c List.mem_cons_self)
      rw [isWordLetter_of_isLetter letter] at stops
      cases stops
  | case7 _ _ _ _ _ _ strict => cases strict
  | case8 => cases scanned

/-! ## Constant terms among words -/

/-- The chain with one more sign in front. -/
def Chain.sign (sign : Sign) (chain : Chain) : Chain :=
  ⟨⟨sign :: chain.first.signs, chain.first.literal⟩, chain.rest⟩

/-- The words are those of constant terms, all of them but the first with a sign. -/
def AreChains (words : List Lexeme) : Prop :=
  ∃ (chain : Chain) (rest : List Chain), words = chain.lexemes ++ rest.flatMap Chain.lexemes ∧
    ∀ other ∈ rest, other.first.signs ≠ []

/-- The words are those of further factors and of constant terms with signs. -/
def AreParts (words : List Lexeme) : Prop :=
  ∃ (parts : List (Joint × Factor)) (rest : List Chain),
    words = partLexemes parts ++ rest.flatMap Chain.lexemes ∧
    ∀ other ∈ rest, other.first.signs ≠ []

section Words

variable {words : List Lexeme}

theorem AreChains.sign (areChains : AreChains words) (sign : Sign) :
    AreChains (.sign sign :: words) := by
  obtain ⟨chain, rest, rfl, signed⟩ := areChains
  exact ⟨chain.sign sign, rest, rfl, signed⟩

theorem AreChains.ofSign (areChains : AreChains words) (sign : Sign) :
    AreParts (.sign sign :: words) := by
  obtain ⟨chain, rest, rfl, signed⟩ := areChains
  exact ⟨[], chain.sign sign :: rest, rfl,
    List.forall_mem_cons.mpr ⟨List.cons_ne_nil _ _, signed⟩⟩

theorem AreChains.ofJoint (areChains : AreChains words) (joint : Joint) :
    AreParts (.joint joint :: words) := by
  obtain ⟨chain, rest, rfl, signed⟩ := areChains
  refine ⟨(joint, chain.first) :: chain.rest, rest, ?_, signed⟩
  rw [partLexemes, List.flatMap_cons, List.append_assoc, List.cons_append]
  rw [Chain.lexemes, List.append_assoc]
  rfl

theorem AreParts.literal (areParts : AreParts words) (literal : Literal) :
    AreChains (.literal literal :: words) := by
  obtain ⟨parts, rest, rfl, signed⟩ := areParts
  exact ⟨⟨⟨[], literal⟩, parts⟩, rest, rfl, signed⟩

/-- Words in order that are worth one more value are constant terms where an operand is due, and go
on a constant term behind an operand. -/
theorem areChains_of_orderly (named : Lexeme.unknown ∉ words) {previous : Option Token}
    (orderly : Orderly previous (words.flatMap (Lexeme.tokens []))) :
    (operandDue previous = true → totalWorth true (words.flatMap (Lexeme.tokens [])) = 1 →
        AreChains words) ∧
      (operandDue previous = false → totalWorth false (words.flatMap (Lexeme.tokens [])) = 0 →
        AreParts words) := by
  induction words generalizing previous with
  | nil =>
      refine ⟨fun _ one => absurd one (by decide), fun _ _ => ⟨[], [], rfl, ?_⟩⟩
      exact fun _ member => absurd member List.not_mem_nil
  | cons word words ih =>
      obtain ⟨different, further⟩ := not_or.mp (List.mem_cons.not.mp named)
      cases word with
      | sign sign =>
          obtain ⟨_, ofWords⟩ := orderly
          have chains := (ih further ofWords).1 rfl
          have binary : weight (operator sign.op) = -1 := by cases sign <;> rfl
          constructor
          · intro due one
            change 0 + totalWorth true (words.flatMap (Lexeme.tokens [])) = 1 at one
            exact (chains (by omega)).sign sign
          · intro due zero
            change weight (operator sign.op) + totalWorth true (words.flatMap _) = 0 at zero
            exact (chains (by omega)).ofSign sign
      | joint joint =>
          obtain ⟨follows, ofWords⟩ := orderly
          have chains := (ih further ofWords).1 rfl
          have binary : weight (operator joint.op) = -1 := by cases joint <;> rfl
          constructor
          · intro due one
            rw [Follows, if_pos due] at follows
            cases joint with
            | times => exact absurd (follows _ rfl) (by decide)
            | per => exact absurd (follows _ rfl) (by decide)
          · intro due zero
            change weight (operator joint.op) + totalWorth true (words.flatMap _) = 0 at zero
            exact (chains (by omega)).ofJoint joint
      | literal literal =>
          obtain ⟨follows, ofWords⟩ := orderly
          have parts := (ih further ofWords).2 rfl
          constructor
          · intro due one
            change 1 + totalWorth false (words.flatMap (Lexeme.tokens [])) = 1 at one
            exact (parts (by omega)).literal literal
          · intro due zero
            rw [Follows, if_neg (by rw [due]; exact Bool.false_ne_true)] at follows
            rcases follows with ⟨_, is, _⟩ | is | is <;> cases is
      | unknown => exact absurd rfl different

/-- Words have all their signs of products. -/
theorem signed_words (named : Lexeme.unknown ∉ words) {previous : Option Token}
    (operand : ∀ before ∈ previous, before.endsOperand = true → isNumber before = true) :
    Signed previous (words.flatMap (Lexeme.tokens [])) := by
  induction words generalizing previous with
  | nil => exact trivial
  | cons word words ih =>
      obtain ⟨different, further⟩ := not_or.mp (List.mem_cons.not.mp named)
      cases word with
      | sign sign =>
          refine ⟨fun before _ => juxtaposed_eq_false before fun _ => rfl, ih further ?_⟩
          intro before is ends
          cases is
          cases ends
      | joint joint =>
          refine ⟨fun before _ => juxtaposed_eq_false before fun _ => rfl, ih further ?_⟩
          intro before is ends
          cases is
          cases ends
      | literal literal =>
          refine ⟨fun before is => ?_, ih further ?_⟩
          · cases ends : before.endsOperand with
            | false =>
                rw [juxtaposed, ends]
                rfl
            | true =>
                cases before with
                | number value => rfl
                | _ => cases operand _ is ends
          · intro before is _
            cases is
            rfl
      | unknown => exact absurd rfl different

end Words

/-! ## Texts with a value -/

/-- Where there are no letters nothing is written. -/
theorem writeAll_others {rules : List Rule} (fair : ∀ rule ∈ rules, rule.Fair) {text : List Char}
    (others : ∀ c ∈ text, isWordLetter c = false) : writeAll rules text = text := by
  induction rules with
  | nil => rfl
  | cons rule rules ih =>
      obtain ⟨ofRule, ofRules⟩ := List.forall_mem_cons.mp fair
      have same := @replaceFrom_others rule.pattern (enclosed rule.value) [] none ofRule.pattern
        text others
      rw [List.append_nil, replaceFrom, List.append_nil] at same
      change writeAll rules (replaceFrom rule.pattern (enclosed rule.value) 0 none text) = text
      rw [same]
      exact ih ofRules

theorem substitute_others {text : List Char} (others : ∀ c ∈ text, isWordLetter c = false) :
    substitute text [] = .ok text := by
  have written := @substitute_eq [] rfl (fun _ member => absurd member List.not_mem_nil) text
  rw [Bindings.texts_nil, bindingRules, List.append_nil, writeAll_others
    (List.forall_mem_map.mpr fun entry => fair_constantRule) others] at written
  exact written

/-- **A plain text with a value is a text of a sum of constant terms**, if no blanks stand inside of
its numbers. -/
theorem exists_chains_of_evaluate {text : List Char} (plain : ∀ c ∈ text, isPlain c = true)
    (unbroken : Unbroken text) {settings : Settings} (strict : settings.lenient = false)
    {value : Float} (evaluated : (Scalar.evaluate text [] settings).outcome.map Prod.fst = .ok value)
    (name : List Char) :
    ∃ (chains : List Chain) (side : Side), side.terms = chains.map .constant ∧
      Spread name side.lexemes text := by
  obtain ⟨result, ended, _⟩ := map_eq_ok.mp evaluated
  obtain ⟨tokens, ordered, ran, read, converted, run⟩ := stages_of_evaluate ended
  obtain ⟨written, raw, substituted, scanned, _, inserted⟩ := Scalar.tokens_eq_ok.mp read
  rw [substitute_others fun c member => isWordLetter_of_isPlain (plain c member)] at substituted
  cases substituted
  rw [strict] at scanned
  obtain ⟨words, spread, named, rfl, apart⟩ := @exists_lexemes_of_scan _ _ scanned plain unbroken
    name none fun isNumber => by cases isNumber
  rw [insertProducts_of_signed (signed_words named fun before is => by cases is)] at inserted
  subst inserted
  obtain ⟨orderly, one⟩ := orderly_of_stages read converted run apart
  obtain ⟨chain, rest, rfl, signed⟩ := (areChains_of_orderly named orderly).1 rfl one
  refine ⟨chain :: rest, ⟨.constant chain, rest.map .constant, List.forall_mem_map.mpr signed⟩,
    rfl, ?_⟩
  rw [Side.lexemes, Side.terms, List.flatMap_cons, List.flatMap_map]
  exact spread

end Reckoner.Equation
