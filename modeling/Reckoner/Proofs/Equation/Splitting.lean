import Reckoner.Proofs.Equation.Spacing
import Reckoner.Proofs.EquationTerms

/-!
# Cutting a side into its terms

The characters of a text of a side, without the blanks, are cut into the texts of its terms
(`Reckoner.Equation.terms_of_spread`), and the term of the unknown gives its coefficient
(`Reckoner.Equation.coefficient_term`).
-/

namespace Reckoner.Equation

open Text

open Decimal (IsDecimal)

/-- The characters of words without blanks between them. -/
def spell (name : List Char) (words : List Lexeme) : List Char :=
  words.flatMap (Lexeme.text name)

/-- The characters of a constant term, in which no name stands. -/
def Chain.text (chain : Chain) : List Char :=
  spell [] chain.lexemes

variable {v : Char} {words : List Lexeme} {text : List Char}

theorem spell_nil (name : List Char) : spell name [] = [] :=
  List.flatMap_nil

theorem spell_cons (name : List Char) (word : Lexeme) (words : List Lexeme) :
    spell name (word :: words) = word.text name ++ spell name words :=
  List.flatMap_cons

theorem spell_append (name : List Char) (first second : List Lexeme) :
    spell name (first ++ second) = spell name first ++ spell name second :=
  List.flatMap_append

theorem spread_spell (name : List Char) (words : List Lexeme) :
    Spread name words (spell name words) := by
  induction words with
  | nil => exact .nil
  | cons word words ih => exact .word word ih

/-- Without the unknown among them words have the same characters whatever its name is. -/
theorem spell_congr {words : List Lexeme} (named : Lexeme.unknown ∉ words)
    (name other : List Char) : spell name words = spell other words := by
  induction words with
  | nil => rfl
  | cons word words ih =>
      obtain ⟨different, further⟩ := not_or.mp (List.mem_cons.not.mp named)
      rw [spell_cons, spell_cons, ih further]
      cases word with
      | unknown => exact absurd rfl different
      | _ => rfl

/-! ## Where the unknown stands -/

theorem unknown_not_mem_factor (factor : Factor) : Lexeme.unknown ∉ factor.lexemes := by
  intro member
  rcases List.mem_append.mp member with member | member
  · obtain ⟨sign, _, is⟩ := List.mem_map.mp member
    cases is
  · cases List.mem_singleton.mp member

theorem unknown_not_mem_parts (parts : List (Joint × Factor)) :
    Lexeme.unknown ∉ partLexemes parts := by
  intro member
  obtain ⟨part, _, inside⟩ := List.mem_flatMap.mp member
  rcases List.mem_cons.mp inside with is | inside
  · cases is
  · exact unknown_not_mem_factor part.2 inside

theorem unknown_not_mem_chain (chain : Chain) : Lexeme.unknown ∉ chain.lexemes := by
  intro member
  rcases List.mem_append.mp member with member | member
  · exact unknown_not_mem_factor chain.first member
  · exact unknown_not_mem_parts chain.rest member

theorem unknown_not_mem_chains (chains : List Chain) :
    Lexeme.unknown ∉ (chains.map Term.constant).flatMap Term.lexemes := by
  intro member
  obtain ⟨term, ofChains, inside⟩ := List.mem_flatMap.mp member
  obtain ⟨chain, _, rfl⟩ := List.mem_map.mp ofChains
  exact unknown_not_mem_chain chain inside

/-- What stands before the unknown in its term. -/
def UnknownTerm.front (term : UnknownTerm) : List Lexeme :=
  term.sign.toList.map .sign ++ term.coefficient.elim [] Coefficient.lexemes

theorem lexemes_eq_front (term : UnknownTerm) :
    term.lexemes = term.front ++ .unknown :: partLexemes term.divisors :=
  (List.append_assoc _ _ _).symm

theorem unknown_not_mem_front (term : UnknownTerm) : Lexeme.unknown ∉ term.front := by
  intro member
  rcases List.mem_append.mp member with member | member
  · obtain ⟨sign, _, is⟩ := List.mem_map.mp member
    cases is
  · cases is : term.coefficient with
    | none =>
        rw [is] at member
        cases member
    | some coefficient =>
        rw [is, Option.elim_some, Coefficient.lexemes] at member
        cases times : coefficient.times <;> simp [times] at member

/-- What stands before the unknown in a side, and what stands behind it. -/
theorem lexemes_eq_around {side : Side} {before after : List Chain} {term : UnknownTerm}
    (is : side.terms = before.map .constant ++ .multiple term :: after.map .constant) :
    side.lexemes = ((before.map Term.constant).flatMap Term.lexemes ++ term.front) ++
      .unknown :: (partLexemes term.divisors ++ (after.map Term.constant).flatMap Term.lexemes) := by
  rw [Side.lexemes, is, List.flatMap_append, List.flatMap_cons, Term.lexemes, lexemes_eq_front,
    List.append_assoc, List.append_assoc, List.cons_append]

/-! ## Characters -/

/-- A digit or a point. -/
theorem mem_literal {literal : Literal} {c : Char} (member : c ∈ literal.text) :
    c.isDigit = true ∨ c = '.' := by
  obtain ⟨text, isDecimal⟩ := literal
  cases isDecimal with
  | whole some areDigits => exact .inl (List.all_eq_true.mp areDigits c member)
  | point some areWhole areFraction =>
      rcases List.mem_append.mp member with member | member
      · exact .inl (List.all_eq_true.mp areWhole c member)
      · rcases List.mem_cons.mp member with is | member
        · exact .inr is
        · exact .inl (List.all_eq_true.mp areFraction c member)

theorem forall_literal {p : Char → Prop} (digits : ∀ n < 10, p (Char.ofNat (48 + n)))
    (point : p '.') (literal : Literal) : ∀ c ∈ literal.text, p c := by
  intro c member
  rcases mem_literal member with digit | rfl
  · exact forall_isDigit digits digit
  · exact point

/-- What holds of digits, points, operators and the name of the unknown holds of the characters of
every word. -/
theorem forall_lexeme {p : Char → Prop} (digits : ∀ n < 10, p (Char.ofNat (48 + n)))
    (point : p '.') (signs : ∀ sign : Sign, p sign.char) (joints : ∀ joint : Joint, p joint.char)
    {word : Lexeme} (name : word = .unknown → p v) : ∀ c ∈ word.text [v], p c := by
  intro c member
  cases word with
  | sign sign =>
      rw [List.mem_singleton.mp member]
      exact signs sign
  | joint joint =>
      rw [List.mem_singleton.mp member]
      exact joints joint
  | literal literal => exact forall_literal digits point literal c member
  | unknown =>
      rw [List.mem_singleton.mp member]
      exact name rfl

theorem isBlank_lexeme (letter : isWordLetter v = true) (word : Lexeme) :
    ∀ c ∈ word.text [v], isBlank c = false :=
  forall_lexeme (p := fun c => isBlank c = false) (by decide) (by decide)
    (fun sign => by cases sign <;> decide) (fun joint => by cases joint <;> decide)
    fun _ => isBlank_of_isWordLetter letter

theorem holdsSign_letter (letter : isWordLetter v = true) : holdsSign v = false := by
  cases holds : holdsSign v with
  | false => rfl
  | true =>
      unfold holdsSign at holds
      simp only [Bool.or_eq_true, beq_iff_eq] at holds
      rcases holds with ((rfl | rfl) | rfl) | rfl <;> exact absurd letter (by decide)

/-- A character of plain numbers and their arithmetic, with digits in ASCII. -/
def isPlain (c : Char) : Bool :=
  c.isDigit || c == '.' || isBlank c || holdsSign c

theorem isPlain_of_isBlank {c : Char} (blank : isBlank c = true) : isPlain c = true := by
  rw [isPlain, blank, Bool.or_true, Bool.true_or]

theorem isPlain_spread (spread : Spread [v] words text) (named : Lexeme.unknown ∉ words) :
    ∀ c ∈ text, isPlain c = true := by
  induction spread with
  | nil => exact nofun
  | blank blank ofRest ih =>
      exact List.forall_mem_cons.mpr ⟨isPlain_of_isBlank blank, ih named⟩
  | word first ofRest ih =>
      obtain ⟨other, further⟩ := not_or.mp (List.mem_cons.not.mp named)
      refine List.forall_mem_append.mpr ⟨?_, ih further⟩
      exact forall_lexeme (p := fun c => isPlain c = true) (by decide) (by decide)
        (fun sign => by cases sign <;> decide) (fun joint => by cases joint <;> decide)
        fun is => absurd is.symm other

section Plain

variable {c : Char} (plain : isPlain c = true)

include plain

theorem isPlain_cases : c.isDigit = true ∨ c = '.' ∨ isBlank c = true ∨ holdsSign c = true := by
  unfold isPlain at plain
  rw [Bool.or_eq_true, Bool.or_eq_true, Bool.or_eq_true, beq_iff_eq, or_assoc, or_assoc] at plain
  exact plain

theorem isNumeric_of_isPlain : isNumeric c = true := by
  unfold isNumeric
  rcases isPlain_cases plain with digit | rfl | blank | holds
  · rw [isDecimalDigit_of_isDigit digit]
    simp only [Bool.true_or]
  · rw [Bool.or_eq_true]
    exact .inr rfl
  · rw [blank]
    simp only [Bool.or_true, Bool.true_or]
  · unfold holdsSign at holds
    simp only [Bool.or_eq_true] at holds ⊢
    tauto

theorem isWordLetter_of_isPlain : isWordLetter c = false := by
  rcases isPlain_cases plain with digit | rfl | blank | holds
  · exact isWordLetter_of_isDigit digit
  · decide
  · exact isWordLetter_of_isBoundary (isBoundary_of_isBlank blank)
  · cases letter : isWordLetter c with
    | false => rfl
    | true =>
        rw [holdsSign_letter letter] at holds
        cases holds

theorem ne_equals_of_isPlain : c ≠ '=' := by
  rintro rfl
  exact absurd plain (by decide)

end Plain

theorem filter_spread (letter : isWordLetter v = true) (spread : Spread [v] words text) :
    text.filter (fun c => !isBlank c) = spell [v] words := by
  induction spread with
  | nil => rfl
  | blank blank ofRest ih =>
      rw [List.filter_cons_of_neg (by rw [blank]; exact Bool.false_ne_true), ih]
  | word first ofRest ih =>
      have kept : (first.text [v]).filter (fun c => !isBlank c) = first.text [v] := by
        apply List.filter_eq_self.mpr
        intro c member
        rw [isBlank_lexeme letter first c member]
        rfl
      rw [List.filter_append, kept, ih, spell_cons]

/-- A text of some words and others is a text of the first ones and one of the others. -/
theorem exists_spread_append {name : List Char} {first second : List Lexeme}
    (spread : Spread name (first ++ second) text) :
    ∃ before behind, text = before ++ behind ∧ Spread name first before ∧
      Spread name second behind := by
  generalize is : first ++ second = words at spread
  induction spread generalizing first with
  | nil =>
      obtain ⟨rfl, rfl⟩ := List.append_eq_nil_iff.mp is
      exact ⟨[], [], rfl, .nil, .nil⟩
  | @blank words c text blank ofRest ih =>
      obtain ⟨before, behind, rfl, ofFirst, ofSecond⟩ := ih is
      exact ⟨c :: before, behind, rfl, .blank blank ofFirst, ofSecond⟩
  | @word words text word ofRest ih =>
      cases first with
      | nil =>
          have whole : second = word :: words := is
          subst whole
          exact ⟨[], word.text name ++ text, rfl, .nil, .word word ofRest⟩
      | cons head first =>
          obtain ⟨rfl, same⟩ := List.cons.inj is
          obtain ⟨before, behind, rfl, ofFirst, ofSecond⟩ := ih same
          exact ⟨head.text name ++ before, behind, (List.append_assoc _ _ _).symm,
            .word head ofFirst, ofSecond⟩

/-- A text of some words starts with blanks and the first of them. -/
theorem exists_spread_cons {name : List Char} {word : Lexeme}
    (spread : Spread name (word :: words) text) :
    ∃ blanks rest, text = blanks ++ (word.text name ++ rest) ∧
      (∀ c ∈ blanks, isBlank c = true) ∧ Spread name words rest := by
  generalize is : word :: words = all at spread
  induction spread with
  | nil => cases is
  | @blank all c text blank ofRest ih =>
      obtain ⟨blanks, rest, rfl, areBlank, ofWords⟩ := ih is
      exact ⟨c :: blanks, rest, rfl, List.forall_mem_cons.mpr ⟨blank, areBlank⟩, ofWords⟩
  | @word all text first ofRest ih =>
      obtain ⟨rfl, rfl⟩ := List.cons.inj is
      exact ⟨[], text, rfl, nofun, ofRest⟩

/-! ## Blanks around -/

/-- A text of some words is not empty. -/
theorem spread_ne_nil (spread : Spread [v] words text) (some : words ≠ []) : text ≠ [] := by
  cases spread with
  | nil => exact absurd rfl some
  | blank blank ofRest => exact nofun
  | word first ofRest =>
      exact List.append_ne_nil_of_left_ne_nil (lexeme_ne_nil (List.cons_ne_nil v []) first) _

theorem spread_stripStart (letter : isWordLetter v = true) (spread : Spread [v] words text) :
    Spread [v] words (stripStart text) := by
  induction spread with
  | nil => exact .nil
  | blank blank ofRest ih =>
      rw [stripStart, List.dropWhile_cons_of_pos blank]
      exact ih
  | @word words text first ofRest ih =>
      obtain ⟨c, rest, is⟩ := List.exists_cons_of_ne_nil (lexeme_ne_nil (List.cons_ne_nil v []) first)
      have starts : isBlank c = false := isBlank_lexeme letter first c (by
        rw [is]
        exact List.mem_cons_self)
      have whole := Spread.word first ofRest
      rw [is, List.cons_append] at whole ⊢
      rw [stripStart, List.dropWhile_cons_of_neg (Bool.eq_false_iff.mp starts)]
      exact whole

/-- A blank at the end is none of the words. -/
theorem spread_of_concat (letter : isWordLetter v = true) {c : Char} (blank : isBlank c = true)
    (spread : Spread [v] words (text ++ [c])) : Spread [v] words text := by
  generalize is : text ++ [c] = whole at spread
  induction spread generalizing text with
  | nil => exact absurd is (List.append_ne_nil_of_right_ne_nil _ nofun)
  | @blank words d rest first ofRest ih =>
      cases text with
      | nil =>
          obtain ⟨rfl, rfl⟩ := List.cons.inj is
          exact ofRest
      | cons e text =>
          obtain ⟨rfl, same⟩ := List.cons.inj is
          exact .blank first (ih same)
  | @word words rest first ofRest ih =>
      rcases List.eq_nil_or_concat rest with rfl | ⟨others, last, rfl⟩
      · have member : c ∈ first.text [v] := by
          rw [List.append_nil] at is
          rw [← is]
          exact List.mem_append_right _ List.mem_cons_self
        have other := isBlank_lexeme letter first c member
        rw [blank] at other
        cases other
      · rw [List.concat_eq_append, ← List.append_assoc] at is
        obtain ⟨rfl, same⟩ := List.append_inj' is rfl
        obtain ⟨rfl, _⟩ := List.cons.inj same
        exact .word first (ih List.concat_eq_append.symm)

theorem stripEnd_concat (text : List Char) (c : Char) :
    stripEnd (text ++ [c]) = if isBlank c then stripEnd text else text ++ [c] := by
  unfold stripEnd
  rw [List.reverse_concat]
  cases blank : isBlank c with
  | true => rw [List.dropWhile_cons_of_pos blank, if_pos rfl]
  | false =>
      rw [List.dropWhile_cons_of_neg (Bool.eq_false_iff.mp blank), if_neg Bool.false_ne_true,
        List.reverse_cons, List.reverse_reverse]

theorem spread_stripEnd (letter : isWordLetter v = true) (spread : Spread [v] words text) :
    Spread [v] words (stripEnd text) := by
  induction text using List.reverseRecOn with
  | nil => exact spread
  | append_singleton text c ih =>
      rw [stripEnd_concat]
      cases blank : isBlank c with
      | true => exact ih (spread_of_concat letter blank spread)
      | false => exact spread

/-- **Blanks around a text make no difference.** -/
theorem spread_strip (letter : isWordLetter v = true) (spread : Spread [v] words text) :
    Spread [v] words (strip text) :=
  spread_stripEnd letter (spread_stripStart letter spread)

/-! ## Terms -/

theorem isSign_char (sign : Sign) : isSign sign.char = true := by
  cases sign <;> rfl

theorem holdsSign_char (sign : Sign) : holdsSign sign.char = true := by
  cases sign <;> rfl

theorem isSign_joint (joint : Joint) : isSign joint.char = false := by
  cases joint <;> decide

theorem holdsSign_joint (joint : Joint) : holdsSign joint.char = true := by
  cases joint <;> decide

theorem isSign_literal (literal : Literal) : ∀ c ∈ literal.text, isSign c = false :=
  forall_literal (p := fun c => isSign c = false) (by decide) (by decide) literal

theorem holdsSign_literal (literal : Literal) : ∀ c ∈ literal.text, holdsSign c = false :=
  forall_literal (p := fun c => holdsSign c = false) (by decide) (by decide) literal

theorem isSign_letter (letter : isWordLetter v = true) : isSign v = false := by
  have holds := holdsSign_letter letter
  unfold holdsSign at holds
  simp only [Bool.or_eq_false_iff] at holds
  rw [isSign, holds.1.2, holds.2]
  rfl

/-- The text so far can be followed by a sign that belongs to it. -/
def AwaitsSign (term : List Char) : Prop :=
  ∀ last ∈ term.getLast?, holdsSign last = true

theorem awaitsSign_nil : AwaitsSign [] := nofun

theorem awaitsSign_append {c : Char} (holds : holdsSign c = true) (term : List Char) :
    AwaitsSign (term ++ [c]) := by
  intro last is
  rw [List.getLast?_concat] at is
  cases is
  exact holds

theorem termsAfter_sign {term : List Char} (awaits : AwaitsSign term) (c : Char)
    (rest : List Char) : termsAfter term (c :: rest) = termsAfter (term ++ [c]) rest := by
  rw [termsAfter, if_neg]
  cases last : term.getLast? with
  | none => exact Bool.eq_false_iff.mp (Bool.and_false _)
  | some d =>
      have holds := awaits d last
      rw [Option.any_some, holds]
      exact Bool.eq_false_iff.mp (Bool.and_false _)

theorem termsAfter_others {part : List Char} (others : ∀ c ∈ part, isSign c = false)
    (term rest : List Char) : termsAfter term (part ++ rest) = termsAfter (term ++ part) rest := by
  induction part generalizing term with
  | nil => rw [List.append_nil, List.nil_append]
  | cons c part ih =>
      obtain ⟨other, further⟩ := List.forall_mem_cons.mp others
      rw [List.cons_append, termsAfter, if_neg (by rw [other]; exact Bool.false_ne_true),
        ih further, List.append_assoc, List.singleton_append]

theorem termsAfter_cut {term : List Char} {last : Char} (ends : term.getLast? = some last)
    (operand : holdsSign last = false) {c : Char} (sign : isSign c = true) (rest : List Char) :
    termsAfter term (c :: rest) = term :: termsAfter [c] rest := by
  rw [termsAfter, if_pos]
  rw [ends, Option.any_some, operand, sign]
  rfl

/-- The words of a term stay together. -/
theorem termsAfter_words (letter : isWordLetter v = true) (chain : words.IsChain Inside)
    {term : List Char} (starts : ∀ sign, words.head? = some (.sign sign) → AwaitsSign term)
    (rest : List Char) :
    termsAfter term (spell [v] words ++ rest) = termsAfter (term ++ spell [v] words) rest := by
  induction words generalizing term with
  | nil => rw [spell_nil, List.append_nil, List.nil_append]
  | cons word words ih =>
      obtain ⟨neighbour, ofWords⟩ := List.isChain_cons.mp chain
      have operand (sign : Sign) (is : words.head? = some (.sign sign)) :
          word.operates = true := by
        rcases neighbour _ is with operates | ⟨_, other⟩ | ⟨_, _, other⟩
        · exact operates
        · cases other
        · cases other
      rw [spell_cons, List.append_assoc, ← List.append_assoc term]
      cases word with
      | sign sign =>
          exact (termsAfter_sign (starts sign rfl) sign.char _).trans
            (ih ofWords fun _ _ => awaitsSign_append (holdsSign_char sign) term)
      | joint joint =>
          have others : ∀ c ∈ [joint.char], isSign c = false :=
            List.forall_mem_singleton.mpr (isSign_joint joint)
          exact (termsAfter_others others term _).trans
            (ih ofWords fun _ _ => awaitsSign_append (holdsSign_joint joint) term)
      | literal literal =>
          exact (termsAfter_others (isSign_literal literal) term _).trans
            (ih ofWords fun sign is => absurd (operand sign is) Bool.false_ne_true)
      | unknown =>
          have others : ∀ c ∈ [v], isSign c = false :=
            List.forall_mem_singleton.mpr (isSign_letter letter)
          exact (termsAfter_others others term _).trans
            (ih ofWords fun sign is => absurd (operand sign is) Bool.false_ne_true)

/-- The last word is an operand. -/
def EndsOperand (words : List Lexeme) : Prop :=
  ∃ last ∈ words.getLast?, last.operates = false

theorem endsOperand_append (first : List Lexeme) {second : List Lexeme}
    (ends : EndsOperand second) : EndsOperand (first ++ second) := by
  obtain ⟨last, is, operand⟩ := ends
  refine ⟨last, ?_, operand⟩
  rw [List.getLast?_append, Option.mem_def.mp is]
  rfl

theorem endsOperand_parts (ends : EndsOperand words) (parts : List (Joint × Factor)) :
    EndsOperand (words ++ partLexemes parts) := by
  induction parts generalizing words with
  | nil =>
      rw [partLexemes, List.flatMap_nil, List.append_nil]
      exact ends
  | cons part parts ih =>
      have ofPart : EndsOperand (words ++ .joint part.1 :: part.2.lexemes) := by
        apply endsOperand_append
        rw [Factor.lexemes, ← List.cons_append]
        exact endsOperand_append _ ⟨_, rfl, rfl⟩
      have further := ih ofPart
      rwa [List.append_assoc] at further

theorem endsOperand_term (term : Term) : EndsOperand term.lexemes := by
  cases term with
  | constant chain => exact endsOperand_parts (endsOperand_append _ ⟨_, rfl, rfl⟩) chain.rest
  | multiple term =>
      rw [Term.lexemes, UnknownTerm.lexemes, ← List.singleton_append, ← List.append_assoc,
        ← List.append_assoc]
      exact endsOperand_parts (endsOperand_append _ ⟨_, rfl, rfl⟩) term.divisors

theorem getLast?_spell (letter : isWordLetter v = true) (ends : EndsOperand words) :
    ∃ last, (spell [v] words).getLast? = some last ∧ holdsSign last = false := by
  obtain ⟨last, is, operand⟩ := ends
  obtain ⟨front, rfl⟩ := List.getLast?_eq_some_iff.mp is
  have ofLast : ∃ c, (last.text [v]).getLast? = some c ∧ holdsSign c = false := by
    cases last with
    | sign sign => cases operand
    | joint joint => cases operand
    | unknown => exact ⟨v, rfl, holdsSign_letter letter⟩
    | literal literal =>
        have some := literal_ne_nil literal
        exact ⟨_, List.getLast?_eq_some_getLast some,
          holdsSign_literal literal _ (List.getLast_mem some)⟩
  obtain ⟨c, isC, stops⟩ := ofLast
  refine ⟨c, ?_, stops⟩
  rw [spell_append, spell_cons, spell_nil, List.append_nil, List.getLast?_append, isC]
  rfl

/-- Further terms are cut off before their signs. -/
theorem termsAfter_terms (letter : isWordLetter v = true) {terms : List Term}
    (signed : ∀ term ∈ terms, term.signs ≠ []) {text : List Char} {last : Char}
    (ends : text.getLast? = some last) (operand : holdsSign last = false) :
    termsAfter text (spell [v] (terms.flatMap Term.lexemes)) =
      text :: terms.map fun term => spell [v] term.lexemes := by
  induction terms generalizing text last with
  | nil =>
      have some : text.isEmpty = false := by
        cases text with
        | nil => cases ends
        | cons c text => rfl
      rw [List.flatMap_nil, spell_nil, termsAfter, some]
      rfl
  | cons term terms ih =>
      obtain ⟨sign, words, is⟩ := lexemes_eq_sign (signed term List.mem_cons_self)
      obtain ⟨next, isNext, nextOperand⟩ := getLast?_spell letter (endsOperand_term term)
      have further := ih (fun other member => signed other (List.mem_cons_of_mem _ member)) isNext
        nextOperand
      -- A term is read from its sign on as it is read from the start.
      rw [← List.nil_append (spell [v] term.lexemes),
        ← termsAfter_words letter (chain_term term) fun _ _ => awaitsSign_nil] at further
      rw [is, spell_cons, List.append_assoc, Lexeme.text, List.singleton_append,
        termsAfter_sign awaitsSign_nil, List.nil_append] at further
      rw [List.flatMap_cons, spell_append, is, spell_cons, List.append_assoc, Lexeme.text,
        List.singleton_append, termsAfter_cut ends operand (isSign_char sign), further,
        List.map_cons, is, spell_cons]
      rfl

/-- **A side is cut into its terms.** -/
theorem terms_of_spread (letter : isWordLetter v = true) {side : Side}
    (spread : Spread [v] side.lexemes text) :
    terms text = side.terms.map fun term => spell [v] term.lexemes := by
  obtain ⟨last, ends, operand⟩ := getLast?_spell letter (endsOperand_term side.first)
  rw [terms, filter_spread letter spread, Side.lexemes, Side.terms, List.flatMap_cons,
    spell_append, termsAfter_words letter (chain_term side.first) fun _ _ => awaitsSign_nil,
    List.nil_append, termsAfter_terms letter side.signed ends operand]
  rfl

end Reckoner.Equation
