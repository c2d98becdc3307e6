import Mathlib.Data.List.Basic
import Reckoner.Proofs.Equation.Inversion

/-!
# Well-spelled sides

A text of a side has ASCII digits, no blanks inside of its numbers, and no product sign in front of
the unknown without a number in front of it (`Reckoner.Equation.multiplied_of_spread`). A text
without blanks inside of its numbers is read as it is without any blanks
(`Reckoner.Equation.spread_of_filter`).
-/

namespace Reckoner.Equation

open Text

/-! ## Blanks between words -/

section Blanks

variable {v : Char} {words : List Lexeme} {text : List Char}

theorem spread_blanks {name : List Char} (spread : Spread name words text) {blanks : List Char}
    (areBlank : ∀ c ∈ blanks, isBlank c = true) : Spread name words (blanks ++ text) := by
  induction blanks with
  | nil => exact spread
  | cons c blanks ih =>
      obtain ⟨ofC, ofBlanks⟩ := List.forall_mem_cons.mp areBlank
      exact .blank ofC (ih ofBlanks)

/-- The rest of a number of an unbroken text has no blanks. -/
theorem exists_append_of_filter {c : Char} {part rest more : List Char}
    (unbroken : Unbroken (c :: rest)) (first : isNumberPart c = true)
    (parts : ∀ d ∈ part, isNumberPart d = true)
    (filtered : rest.filter (fun c => !isBlank c) = part ++ more) :
    ∃ behind, rest = part ++ behind ∧ behind.filter (fun c => !isBlank c) = more := by
  induction part generalizing c rest with
  | nil => exact ⟨rest, rfl, filtered⟩
  | cons d part ih =>
      obtain ⟨ofD, ofPart⟩ := List.forall_mem_cons.mp parts
      obtain ⟨blanks, tail, rfl, areBlank, _, ofTail⟩ := List.filter_eq_cons_iff.mp filtered
      have none := unbroken [] blanks tail c d rfl
        (fun b member => by simpa using areBlank b member) first ofD
      subst none
      obtain ⟨behind, rfl, further⟩ := ih unbroken.of_cons ofD ofPart ofTail
      exact ⟨behind, rfl, further⟩

/-- An unbroken text without its blanks has the same words. -/
theorem spread_of_filter (unbroken : Unbroken text)
    (filtered : text.filter (fun c => !isBlank c) = spell [v] words) : Spread [v] words text := by
  induction words generalizing text with
  | nil =>
      have areBlank := List.filter_eq_nil_iff.mp filtered
      rw [← List.append_nil text]
      exact spread_blanks .nil fun b member => by simpa using areBlank b member
  | cons word words ih =>
      obtain ⟨c, tail, is⟩ := List.exists_cons_of_ne_nil
        (lexeme_ne_nil (List.cons_ne_nil v []) word)
      rw [spell_cons, is, List.cons_append] at filtered
      obtain ⟨blanks, rest, rfl, areBlank, _, ofRest⟩ := List.filter_eq_cons_iff.mp filtered
      have unbroken := unbroken.of_append
      have exists_behind : ∃ behind, rest = tail ++ behind ∧
          behind.filter (fun c => !isBlank c) = spell [v] words := by
        cases word with
        | literal literal =>
            have parts := isNumberPart_literal literal
            rw [show literal.text = c :: tail from is] at parts
            obtain ⟨ofC, ofTail⟩ := List.forall_mem_cons.mp parts
            exact exists_append_of_filter unbroken ofC ofTail ofRest
        | _ =>
            obtain ⟨_, rfl⟩ := List.cons.inj is
            exact ⟨rest, rfl, ofRest⟩
      obtain ⟨behind, rfl, further⟩ := exists_behind
      refine spread_blanks ?_ fun b member => by simpa using areBlank b member
      rw [← List.cons_append, ← is]
      rw [← List.cons_append, ← is] at unbroken
      exact .word word (ih unbroken.of_append further)

end Blanks

/-! ## Texts of words -/

section Words

variable {v : Char} (letter : isWordLetter v = true) {words : List Lexeme} {text : List Char}

include letter

theorem hasPlainDigits_of_spread (spread : Spread [v] words text) : HasPlainDigits text := by
  induction spread with
  | nil => exact fun c member => absurd member List.not_mem_nil
  | blank blank ofRest ih =>
      refine List.forall_mem_cons.mpr ⟨fun digit => ?_, ih⟩
      rw [isDecimalDigit_of_isBoundary (isBoundary_of_isBlank blank)] at digit
      cases digit
  | word first ofRest ih =>
      refine List.forall_mem_append.mpr ⟨?_, ih⟩
      exact forall_lexeme (p := fun c => isDecimalDigit c = true → c.isDigit = true) (by decide)
        (by decide) (fun sign => by cases sign <;> decide) (fun joint => by cases joint <;> decide)
        fun _ digit => by
          rw [isDecimalDigit_of_isWordLetter letter] at digit
          cases digit

omit letter in
theorem isNumberPart_blank {c : Char} (blank : isBlank c = true) : isNumberPart c = false := by
  have boundary := isBoundary_of_isBlank blank
  rw [isNumberPart, isDigit_of_isBoundary boundary, Bool.false_or, beq_eq_false_iff_ne]
  exact ne_point_of_isBoundary boundary

theorem isNumberPart_letter : isNumberPart v = false := by
  rw [isNumberPart, Bool.or_eq_false_iff, beq_eq_false_iff_ne, ← Bool.not_eq_true]
  constructor
  · intro digit
    rw [isWordLetter_of_isDigit digit] at letter
    cases letter
  · rintro rfl
    exact absurd letter (by decide)

/-- Characters of numbers are in no words but numbers. -/
theorem exists_literal_of_isNumberPart {word : Lexeme} {c : Char} (member : c ∈ word.text [v])
    (part : isNumberPart c = true) : ∃ literal, word = .literal literal := by
  cases word with
  | literal literal => exact ⟨literal, rfl⟩
  | sign sign =>
      rw [List.mem_singleton.mp member] at part
      cases sign <;> cases part
  | joint joint =>
      rw [List.mem_singleton.mp member] at part
      cases joint <;> cases part
  | unknown =>
      rw [List.mem_singleton.mp member, isNumberPart_letter letter] at part
      cases part

/-- A text of words that do not start with a number goes on with no number. -/
theorem numberOver_of_spread (spread : Spread [v] words text)
    (other : ∀ literal, words.head? ≠ some (.literal literal)) : NumberOver text := by
  induction spread with
  | nil => exact fun blanks d behind is => by cases blanks <;> cases is
  | @blank words c text blank ofRest ih =>
      intro blanks d behind is areBlank
      cases blanks with
      | nil =>
          obtain ⟨rfl, _⟩ := List.cons.inj is
          exact isNumberPart_blank blank
      | cons b blanks =>
          obtain ⟨_, rfl⟩ := List.cons.inj is
          exact ih other blanks d behind rfl fun b member =>
            areBlank b (List.mem_cons_of_mem _ member)
  | @word words text first ofRest ih =>
      intro blanks d behind is areBlank
      rw [← Bool.not_eq_true]
      intro part
      obtain ⟨c, tail, head⟩ := List.exists_cons_of_ne_nil
        (lexeme_ne_nil (List.cons_ne_nil v []) first)
      have member : c ∈ first.text [v] := by
        rw [head]
        exact List.mem_cons_self
      rw [head] at is
      cases blanks with
      | nil =>
          obtain ⟨rfl, _⟩ := List.cons.inj is
          obtain ⟨literal, rfl⟩ := exists_literal_of_isNumberPart letter member part
          exact other literal rfl
      | cons b blanks =>
          obtain ⟨rfl, _⟩ := List.cons.inj is
          have blank := areBlank c List.mem_cons_self
          rw [isBlank_lexeme letter first c member] at blank
          cases blank

/-- **No blanks stand inside of the numbers of a text of words.** -/
theorem unbroken_of_spread (spread : Spread [v] words text) (chain : words.IsChain Apart) :
    Unbroken text := by
  induction spread with
  | nil =>
      intro before blanks behind c d is
      exact absurd is.symm (List.append_ne_nil_of_right_ne_nil _ (List.cons_ne_nil _ _))
  | @blank words b text blank ofRest ih =>
      intro before blanks behind c d is areBlank ofC ofD
      cases before with
      | nil =>
          obtain ⟨rfl, _⟩ := List.cons.inj is
          rw [isNumberPart_blank blank] at ofC
          cases ofC
      | cons x before =>
          obtain ⟨_, rfl⟩ := List.cons.inj is
          exact ih chain before blanks behind c d rfl areBlank ofC ofD
  | @word words text first ofRest ih =>
      intro before blanks behind c d is areBlank ofC ofD
      obtain ⟨neighbour, ofWords⟩ := List.isChain_cons.mp chain
      rcases List.append_eq_append_iff.mp is with ⟨further, rfl, rest⟩ | ⟨inside, spelled, rest⟩
      · exact ih ofWords further blanks behind c d rest areBlank ofC ofD
      · cases inside with
        | nil => exact ih ofWords [] blanks behind c d rest.symm areBlank ofC ofD
        | cons x inside =>
            obtain ⟨rfl, behindIs⟩ := List.cons.inj rest
            have member : c ∈ first.text [v] := by
              rw [spelled]
              exact List.mem_append_right _ List.mem_cons_self
            obtain ⟨literal, rfl⟩ := exists_literal_of_isNumberPart letter member ofC
            cases inside with
            | nil =>
                have ended := numberOver_of_spread letter ofRest fun other head =>
                  not_apart_literal rfl other (neighbour _ head)
                have stops := ended blanks d behind behindIs.symm areBlank
                rw [ofD] at stops
                cases stops
            | cons e inside =>
                cases blanks with
                | nil => rfl
                | cons b blanks =>
                    obtain ⟨rfl, _⟩ := List.cons.inj behindIs
                    have visible := isBlank_lexeme letter (.literal literal) b (by
                      rw [spelled]
                      exact List.mem_append_right _ (List.mem_cons_of_mem _ List.mem_cons_self))
                    rw [areBlank b List.mem_cons_self] at visible
                    cases visible

theorem not_mem_spell (named : Lexeme.unknown ∉ words) : v ∉ spell [v] words := by
  intro member
  have stops := isWordLetter_of_isPlain (isPlain_spread (spread_spell [v] words) named v member)
  rw [letter] at stops
  cases stops

/-- No product sign stands behind an operand. -/
theorem spell_ne_concat (ends : EndsOperand words) (front : List Char) :
    spell [v] words ≠ front ++ ['*'] := by
  intro is
  obtain ⟨last, isLast, stops⟩ := getLast?_spell letter ends
  rw [is, List.getLast?_concat] at isLast
  cases isLast
  cases stops

omit letter in
theorem endsOperand_chains {chains : List Chain} (some : chains ≠ []) :
    EndsOperand ((chains.map Term.constant).flatMap Term.lexemes) := by
  obtain ⟨front, last, rfl⟩ := (List.eq_nil_or_concat chains).resolve_left some
  rw [List.concat_eq_append, List.map_append, List.flatMap_append, List.map_singleton,
    List.flatMap_singleton]
  exact endsOperand_append _ (endsOperand_term _)

/-- A product sign in front of the unknown stands behind a number. -/
theorem exists_number_of_times {before : List Chain} {term : UnknownTerm} {front : List Char}
    (is : spell [v] ((before.map Term.constant).flatMap Term.lexemes ++ term.front) =
      front ++ ['*']) : ∃ last ∈ front.getLast?, isNumberPart last = true := by
  obtain ⟨sign, coefficient, divisor, closed⟩ := term
  unfold UnknownTerm.front at is
  cases coefficient with
  | none =>
      rw [Option.elim_none, List.append_nil] at is
      cases sign with
      | none =>
          rw [Option.toList_none, List.map_nil, List.append_nil] at is
          by_cases none : before = []
          · subst none
            cases front <;> cases is
          · exact absurd is (spell_ne_concat letter (endsOperand_chains none) front)
      | some sign =>
          rw [spell_append] at is
          obtain ⟨_, same⟩ := List.append_inj' is rfl
          cases sign <;> cases same
  | some coefficient =>
      obtain ⟨literal, times⟩ := coefficient
      rw [Option.elim_some, Coefficient.lexemes] at is
      cases times with
      | false =>
          refine absurd is (spell_ne_concat letter ?_ front)
          exact endsOperand_append _ (endsOperand_append _ ⟨_, rfl, rfl⟩)
      | true =>
          change spell [v] (_ ++ (_ ++ ([.literal literal] ++ [.joint .times]))) = _ at is
          rw [← List.append_assoc, ← List.append_assoc, spell_append] at is
          obtain ⟨rfl, _⟩ := List.append_inj' is rfl
          rw [spell_append, spell_cons, spell_nil, List.append_nil, Lexeme.text,
            List.getLast?_append_of_ne_nil _ (literal_ne_nil literal)]
          exact ⟨_, List.getLast?_eq_some_getLast (literal_ne_nil literal),
            isNumberPart_literal literal _ (List.getLast_mem _)⟩

/-- **The product signs in front of the unknown of a side stand behind numbers.** -/
theorem multiplied_of_spread {side : Side} {before after : List Chain} {term : UnknownTerm}
    (is : side.terms = before.map .constant ++ .multiple term :: after.map .constant)
    (spread : Spread [v] side.lexemes text) :
    Multiplied v (text.filter fun c => !isBlank c) := by
  intro front behind spelled
  rw [filter_spread letter spread, lexemes_eq_around is, spell_append, spell_cons] at spelled
  rw [List.append_cons] at spelled
  have parts := (List.append_cons_inj_of_notMem (not_mem_spell letter ?_)
    (not_mem_spell letter ?_)).mp spelled
  · exact exists_number_of_times letter parts.1
  · rw [List.mem_append]
    exact not_or.mpr ⟨unknown_not_mem_chains before, unknown_not_mem_front term⟩
  · rw [List.mem_append]
    exact not_or.mpr ⟨unknown_not_mem_parts _, unknown_not_mem_chains after⟩

end Words

end Reckoner.Equation
