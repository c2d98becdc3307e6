import Reckoner.Proofs.Environment
import Reckoner.Proofs.Lexemes

/-!
# Replacing names among lexemes

Writing a number between parentheses in the place of a name makes lexemes of lexemes: what is left
alone is read as before, since neither a number nor a word nor a blank goes on differently, and
what is written is read as a number (`Reckoner.Substitution.lexemes_replaceFrom`).
-/

namespace Reckoner.Substitution

open Text Token Decimal

/-! ## The characters of lexemes -/

/-- Every letter of the text is an ASCII letter. -/
def LettersPlain (text : List Char) : Prop :=
  ∀ c ∈ text, c.isAlpha = true ∨ isWordLetter c = false

theorem lettersPlain_digits {digits : List Char} (areDigits : digits.all Char.isDigit = true) :
    LettersPlain digits := by
  intro c member
  exact .inr (isWordLetter_of_isDigit (List.all_eq_true.mp areDigits c member))

theorem lettersPlain_append {first second : List Char} (ofFirst : LettersPlain first)
    (ofSecond : LettersPlain second) : LettersPlain (first ++ second) := by
  intro c member
  rcases List.mem_append.mp member with member | member
  · exact ofFirst c member
  · exact ofSecond c member

theorem lettersPlain_power {exponent : List Char} (isPower : IsPower Char.isDigit exponent) :
    LettersPlain exponent := by
  cases isPower with
  | none => exact nofun
  | marked isMark isSign some areDigits =>
      intro c member
      rcases List.mem_cons.mp member with rfl | member
      · left
        rcases isMark with rfl | rfl <;> rfl
      · rcases List.mem_append.mp member with member | member
        · right
          rcases isSign with rfl | rfl | rfl
          · cases member
          · rw [List.mem_singleton.mp member]
            decide
          · rw [List.mem_singleton.mp member]
            decide
        · exact lettersPlain_digits areDigits c member

theorem lettersPlain_word {word : List Char} (isWord : IsWord word) : LettersPlain word := by
  intro c member
  exact .inl (List.all_eq_true.mp isWord.2 c member)

theorem lettersPlain_of_lexemes {before : Option Char} {text : List Char} {tokens : List Token}
    (lexemes : Lexemes before text tokens) : LettersPlain text := by
  induction lexemes with
  | nil => exact nofun
  | blank blank _ ih =>
      exact List.forall_mem_cons.mpr
        ⟨.inr (isWordLetter_of_isBoundary (isBoundary_of_isBlank blank)), ih⟩
  | symbol ascii is _ ih =>
      exact List.forall_mem_cons.mpr
        ⟨.inr (isWordLetter_of_isBoundary (isBoundary_of_ascii ascii is)), ih⟩
  | number isDecimal isPower _ _ ih =>
      refine lettersPlain_append (lettersPlain_append ?_ (lettersPlain_power isPower)) ih
      exact fun c member => .inr (not_letter_of_isDecimal isDecimal c member)
  | word isWord _ _ _ _ _ ih => exact lettersPlain_append (lettersPlain_word isWord) ih
  | numbered isWord _ areDigits _ _ _ _ ih =>
      exact lettersPlain_append
        (lettersPlain_append (lettersPlain_word isWord) (lettersPlain_digits areDigits)) ih

/-! ## What a replacement leaves of the start of a text -/

section Head

variable {pattern : Pattern} (fair : pattern.Fair) {x : Float} {before : Option Char} {c : Char}
  {text : List Char}

include fair

/-- The first character stays, or it is a letter and what is written comes in its place. -/
theorem replaceFrom_head (insert : List Char) :
    replaceFrom pattern insert 0 before (c :: text) =
        c :: replaceFrom pattern insert 0 (some c) text ∨
      isWordLetter c = true ∧
        ∃ rest, replaceFrom pattern insert 0 before (c :: text) = insert ++ rest := by
  rcases replaceFrom_cases fair insert c text with
    stays | ⟨_, _, _, _, isLetter, _, _, written⟩
  · exact .inl stays
  · exact .inr ⟨isLetter, _, written⟩

/-- What a text starts with has any property that its first character had, if an opening parenthesis
has it in the place of a letter. -/
theorem forall_head_replaceFrom {p : Char → Prop} (opening : p '(')
    (starts : ∀ c ∈ text.head?, p c) :
    ∀ c ∈ (replaceFrom pattern (enclosed x) 0 before text).head?, p c := by
  cases text with
  | nil => exact nofun
  | cons first text =>
      rcases replaceFrom_head fair (enclosed x) with stays | ⟨_, rest, goes⟩
      · rw [stays]
        exact starts
      · rw [goes]
        rintro c ⟨⟩
        exact opening

/-- A text starts with no other digits than before. -/
theorem any_head_replaceFrom {p : Char → Bool} (opening : p '(' = false)
    (letters : ∀ c, c.isAlpha = true → p c = false) (plain : LettersPlain text) :
    (replaceFrom pattern (enclosed x) 0 before text).head?.any p = text.head?.any p := by
  cases text with
  | nil => rfl
  | cons c text =>
      rcases replaceFrom_head fair (enclosed x) with stays | ⟨isLetter, rest, goes⟩
      · rw [stays]
        rfl
      · have alpha := (plain c List.mem_cons_self).resolve_right
          (Bool.eq_false_iff.not.mpr (not_not.mpr isLetter))
        rw [goes]
        exact opening.trans (letters c alpha).symm

theorem startsWithLetter_replaceFrom {insert : List Char} (ends : startsWithLetter text = false) :
    startsWithLetter (replaceFrom pattern insert 0 before text) = false := by
  cases text with
  | nil => rfl
  | cons c text =>
      rw [replaceFrom_cons fair _ ends]
      exact ends

theorem takeWhile_isDigit_replaceFrom (plain : LettersPlain text) :
    (replaceFrom pattern (enclosed x) 0 before text).takeWhile Char.isDigit =
      text.takeWhile Char.isDigit := by
  induction text generalizing before with
  | nil => rfl
  | cons c text ih =>
      have ofRest : LettersPlain text := fun d member => plain d (List.mem_cons_of_mem _ member)
      cases digit : c.isDigit with
      | true =>
          rw [replaceFrom_cons fair _ (isWordLetter_of_isDigit digit),
            List.takeWhile_cons_of_pos digit, List.takeWhile_cons_of_pos digit, ih ofRest]
      | false =>
          have none : ¬c.isDigit = true := Bool.eq_false_iff.mp digit
          rw [List.takeWhile_cons_of_neg none]
          rcases replaceFrom_head fair (enclosed x) with stays | ⟨_, rest, goes⟩
          · rw [stays, List.takeWhile_cons_of_neg none]
          · rw [goes]
            rfl

theorem startsExponent_replaceFrom (plain : LettersPlain text) :
    startsExponent (replaceFrom pattern (enclosed x) 0 before text) = startsExponent text := by
  cases text with
  | nil => rfl
  | cons c text =>
      have ofRest : LettersPlain text := fun d member => plain d (List.mem_cons_of_mem _ member)
      by_cases signed : c = '+' ∨ c = '-'
      · have stops : isWordLetter c = false := by
          rcases signed with rfl | rfl <;> decide
        rw [replaceFrom_cons fair _ stops, startsExponent_sign signed, startsExponent_sign signed,
          any_head_replaceFrom fair (by decide)
            (fun _ => isDecimalDigit_of_isAlpha) ofRest]
      · rw [not_or] at signed
        rw [startsExponent_unsigned signed]
        rcases replaceFrom_head fair (enclosed x) with stays | ⟨isLetter, rest, goes⟩
        · rw [stays, startsExponent_unsigned signed]
        · have alpha := (plain c List.mem_cons_self).resolve_right
            (Bool.eq_false_iff.not.mpr (not_not.mpr isLetter))
          rw [goes, isDecimalDigit_of_isAlpha alpha]
          rfl

theorem numberEnds_replaceFrom (plain : LettersPlain text) (ends : NumberEnds text) :
    NumberEnds (replaceFrom pattern (enclosed x) 0 before text) := by
  refine ⟨forall_head_replaceFrom fair ⟨by decide, by decide⟩ ends.apart, ?_⟩
  intro mark rest spelled isMark
  cases text with
  | nil => cases spelled
  | cons c text =>
      rcases replaceFrom_head fair (enclosed x) with stays | ⟨_, others, goes⟩
      · rw [stays] at spelled
        cases spelled
        rw [startsExponent_replaceFrom fair fun d member => plain d (List.mem_cons_of_mem _ member)]
        exact ends.unmarked mark text rfl isMark
      · rw [goes] at spelled
        cases spelled
        rcases isMark with isMark | isMark <;> cases isMark

end Head

/-! ## Which names a pattern accepts -/

/-- What is asked of a pattern where lexemes may follow each other: a word that it accepts is a
function exactly if calls are skipped, is no function with digits behind it, and a function goes by
its small letters as well. -/
structure Pattern.Apt (pattern : Pattern) : Prop extends pattern.Fair where
  skips : ∀ word, IsWord word → accepts pattern.spelling word = true →
    (NamedFunction.ofName? (String.ofList word)).isSome = pattern.skipsCalls
  alone : ∀ word digits, IsWord word → digits ≠ [] → digits.all Char.isDigit = true →
    accepts pattern.spelling word = true →
      NamedFunction.ofName? (String.ofList (word ++ digits)) = none
  lower : ∀ word, IsWord word → (NamedFunction.ofName? (String.ofList word)).isSome = true →
    pattern.names (lowerName (String.ofList word)) = accepts pattern.spelling word

/-- A pattern accepts no digits. -/
theorem accepts_append_digits {pattern : Pattern} (fair : pattern.Fair) {word digits : List Char}
    (some : digits ≠ []) (areDigits : digits.all Char.isDigit = true) :
    accepts pattern.spelling (word ++ digits) = false := by
  have letters := fair.letters
  generalize pattern.spelling = places at letters
  induction places generalizing word with
  | nil =>
      cases word with
      | nil =>
          obtain ⟨first, digits, rfl⟩ := List.exists_cons_of_ne_nil some
          rfl
      | cons c word => rfl
  | cons place places ih =>
      cases word with
      | nil =>
          obtain ⟨first, digits, rfl⟩ := List.exists_cons_of_ne_nil some
          rw [List.all_cons, Bool.and_eq_true] at areDigits
          rw [List.nil_append, accepts,
            not_mem_of_letters letters (isWordLetter_of_isDigit areDigits.1), Bool.false_and]
      | cons c word =>
          rw [List.cons_append, accepts,
            ih fun other member => letters other (List.mem_cons_of_mem _ member), Bool.and_false]

/-! ## Numbers in the places of names -/

/-- What a token is replaced by if it stands for a number. -/
def putNumber (value : Option Float) (token : Token) : List Token :=
  match value with
  | some x => enclosedTokens x
  | none => [token]

/-- The tokens with numbers between parentheses in the places of the names that stand for them. The
name of a function is left alone where the next token makes a call of it. -/
def putNumbers (environment : String → Option Float) (calls : Token → Bool) :
    List Token → List Token
  | [] => []
  | identifier name :: rest =>
      putNumber (environment name) (identifier name) ++ putNumbers environment calls rest
  | function name :: rest =>
      (if rest.head?.any calls then [function name]
        else putNumber (environment name) (function name)) ++ putNumbers environment calls rest
  | token :: rest => token :: putNumbers environment calls rest

/-- The number that a rule gives a name. -/
def Rule.given (rule : Rule) (name : String) : Option Float :=
  if rule.pattern.names name then some rule.value else none

theorem ne_function_of_ascii {c : Char} (ascii : c.toNat < 128) {name : String} :
    ofChar? c ≠ some (function name) := by
  intro is
  unfold ofChar? at is
  split at is
  · cases is
  · cases is
  · cases is
  · exact absurd ascii (by decide)
  · cases is
  · cases operator : Operator.ofChar? c with
    | none =>
        rw [operator] at is
        cases is
    | some op =>
        rw [operator] at is
        cases is

theorem putNumbers_symbol {environment : String → Option Float} {calls : Token → Bool} {c : Char}
    {token : Token} (ascii : c.toNat < 128) (is : ofChar? c = some token) (rest : List Token) :
    putNumbers environment calls (token :: rest) = token :: putNumbers environment calls rest := by
  cases token with
  | identifier name => exact absurd is ofChar?_ne_identifier
  | function name => exact absurd is (ne_function_of_ascii ascii)
  | _ => rfl

theorem isOpening_ofName (name : List Char) : isOpening (ofName name) = false := by
  unfold ofName
  dsimp only
  split <;> rfl

/-- A text goes on with a call exactly if an opening parenthesis comes next. -/
theorem startsCall_eq_of_lexemes {before : Option Char} {text : List Char} {tokens : List Token}
    (lexemes : Lexemes before text tokens) :
    startsCall text = tokens.head?.any isOpening := by
  induction lexemes with
  | nil => rfl
  | blank isBlank _ ih => rw [startsCall_blank isBlank, ih]
  | @symbol before c token text tokens ascii is _ _ =>
      have boundary := isBoundary_of_ascii ascii is
      have blank : isBlank c = false := by
        cases blank : isBlank c with
        | false => rfl
        | true =>
            rw [ofChar?_blank blank] at is
            cases is
      rw [startsCall_cons blank, Bool.eq_iff_iff, beq_iff_eq, ← ofChar?_eq_opening boundary, is]
      cases token <;> simp [isOpening]
  | @number before decimal exponent text tokens isDecimal _ _ _ _ =>
      obtain ⟨first, rest, rfl, starts⟩ := head_of_isDecimal isDecimal
      rw [List.cons_append, List.cons_append]
      rcases starts with digit | rfl
      · rw [startsCall_of_isDigit _ digit]
        rfl
      · rw [startsCall_cons (by decide)]
        rfl
  | @word before word text tokens isWord _ _ _ _ _ _ =>
      obtain ⟨first, letters, rfl, isLetter, _⟩ := exists_cons_of_isWord isWord
      rw [List.cons_append, startsCall_of_isAlpha _ isLetter]
      exact (isOpening_ofName _).symm
  | @numbered before word digits text tokens isWord _ _ _ _ _ _ _ =>
      obtain ⟨first, letters, rfl, isLetter, _⟩ := exists_cons_of_isWord isWord
      rw [List.append_assoc, List.cons_append, startsCall_of_isAlpha _ isLetter]
      exact (isOpening_ofName _).symm

/-- A number between parentheses is read on its own. -/
theorem lexemes_enclosed {x : Float} (finite : x.isFinite = true) {before : Option Char}
    {text : List Char} {tokens : List Token} (lexemes : Lexemes (some ')') text tokens) :
    Lexemes before (enclosed x ++ text) (enclosedTokens x ++ tokens) := by
  obtain ⟨numeral, isNumeral, read, is⟩ := Decimal.exists_numeral_of_shortest finite
  obtain ⟨decimal, exponent, rfl, isDecimal, isPower⟩ := exists_decimal_of_isNumeral isNumeral
  have ofNumeral (before : Option Char) :=
    @Lexemes.number before decimal exponent (')' :: text) (closing :: tokens) isDecimal isPower
      (numberEnds_of_atBoundary (atBoundary_cons (by decide))) (.symbol (by decide) rfl lexemes)
  rw [enclosed_append, is]
  unfold enclosedTokens
  cases negative : Decimal.signBit x with
  | false =>
      simp only [negative, Bool.false_eq_true, if_false] at read
      rw [numberValue, read] at ofNumeral
      exact .symbol (by decide) rfl (ofNumeral _)
  | true =>
      simp only [negative, if_true] at read
      rw [numberValue, read] at ofNumeral
      exact .symbol (by decide) rfl (.symbol (c := '-') (by decide) rfl (ofNumeral _))

/-- The small letters of a word with digits behind it. -/
theorem lowerName_append_digits {word digits : List Char} (isWord : IsWord word)
    (areDigits : digits.all Char.isDigit = true) :
    lowerName (String.ofList (word ++ digits)) =
      String.ofList (word.map Char.toLower ++ digits) := by
  have small : digits.map Char.toLower = digits := by
    refine (List.map_congr_left fun c member => ?_).trans (List.map_id digits)
    exact forall_isDigit (p := fun c => c.toLower = c) (by decide)
      (List.all_eq_true.mp areDigits c member)
  rw [lowerName_of_ascii, List.map_append, small]
  intro c member
  rcases List.mem_append.mp member with member | member
  · exact isAscii_of_isAlpha (List.all_eq_true.mp isWord.2 c member)
  · exact isAscii_of_isDigit (List.all_eq_true.mp areDigits c member)

section Names

variable {rule : Rule} (apt : rule.pattern.Apt) {word text : List Char} {tokens : List Token}

include apt

/-- A word stands for the number of a rule if its pattern accepts the word and does not skip it as a
call. -/
theorem putNumbers_word (isWord : IsWord word)
    (calls : startsCall text = tokens.head?.any isOpening) :
    putNumbers rule.given isOpening (ofName word :: tokens) =
      (if accepts rule.pattern.spelling word && !(rule.pattern.skipsCalls && startsCall text) then
        enclosedTokens rule.value else [ofName word]) ++ putNumbers rule.given isOpening tokens := by
  have named : rule.pattern.names (String.ofList word) = accepts rule.pattern.spelling word := by
    rw [Pattern.names, String.toList_ofList]
  have skips := apt.skips word isWord
  have lower := apt.lower word isWord
  unfold ofName
  dsimp only
  cases known : (NamedFunction.ofName? (String.ofList word)).isSome with
  | true =>
      rw [known] at skips
      rw [if_pos rfl, putNumbers, Rule.given, lower known, calls]
      cases accepted : accepts rule.pattern.spelling word with
      | true =>
          rw [← skips accepted]
          cases tokens.head?.any isOpening <;> rfl
      | false => cases tokens.head?.any isOpening <;> rfl
  | false =>
      rw [known] at skips
      rw [if_neg Bool.false_ne_true, putNumbers, Rule.given, named]
      cases accepted : accepts rule.pattern.spelling word with
      | true =>
          rw [← skips accepted]
          rfl
      | false => rfl

/-- The word before the digits of a function is no name of a rule. -/
theorem not_accepts_of_numbered {digits : List Char} (isWord : IsWord word) (some : digits ≠ [])
    (areDigits : digits.all Char.isDigit = true)
    (known : (NamedFunction.ofName? (String.ofList (word ++ digits))).isSome = true) :
    accepts rule.pattern.spelling word = false := by
  by_contra accepted
  rw [apt.alone word digits isWord some areDigits (Bool.not_eq_false _ ▸ accepted)] at known
  cases known

/-- A function with digits in its name is left alone. -/
theorem replaceFrom_numbered {insert digits : List Char} {before : Option Char}
    (isWord : IsWord word) (some : digits ≠ []) (areDigits : digits.all Char.isDigit = true)
    (known : (NamedFunction.ofName? (String.ofList (word ++ digits))).isSome = true)
    (apart : before.any isWordLetter = false) :
    replaceFrom rule.pattern insert 0 before (word ++ digits ++ text) =
      word ++ digits ++ replaceFrom rule.pattern insert 0 (lastOf before (word ++ digits)) text := by
  have fair := apt.toFair
  have areLetters := isWordLetter_of_all_isAlpha isWord.2
  have stops : startsWithLetter (digits ++ text) = false := by
    obtain ⟨first, rest, rfl⟩ := List.exists_cons_of_ne_nil some
    rw [List.all_cons, Bool.and_eq_true] at areDigits
    exact isWordLetter_of_isDigit areDigits.1
  have left : rule.pattern.writesFor before word (digits ++ text) = false := by
    rw [Pattern.writesFor, not_accepts_of_numbered apt isWord some areDigits known, Bool.false_and,
      Bool.false_and]
  rw [List.append_assoc, replaceFrom_run fair apart isWord.1 areLetters stops, left,
    if_neg Bool.false_ne_true, replaceFrom_digits fair areDigits, lastOf_append, List.append_assoc]

/-- A function with digits in its name stands for no number. -/
theorem putNumbers_numbered {digits : List Char} (isWord : IsWord word) (some : digits ≠ [])
    (areDigits : digits.all Char.isDigit = true)
    (known : (NamedFunction.ofName? (String.ofList (word ++ digits))).isSome = true) :
    putNumbers rule.given isOpening (ofName (word ++ digits) :: tokens) =
      ofName (word ++ digits) :: putNumbers rule.given isOpening tokens := by
  have unnamed : rule.pattern.names (lowerName (String.ofList (word ++ digits))) = false := by
    rw [lowerName_append_digits isWord areDigits, Pattern.names, String.toList_ofList]
    exact accepts_append_digits apt.toFair some areDigits
  unfold ofName
  dsimp only
  rw [if_pos known, putNumbers, Rule.given, unnamed]
  cases tokens.head?.any isOpening <;> rfl

end Names

/-- A word ends with a letter. -/
theorem any_lastOf_word {before : Option Char} {word : List Char} (isWord : IsWord word) :
    (lastOf before word).any isWordLetter = true := by
  obtain ⟨first, letters, rfl, isLetter, areLetters⟩ := exists_cons_of_isWord isWord
  refine @any_lastOf isWordLetter (some first) letters
    (isWordLetter_of_isLetter (isLetter_of_isAlpha isLetter)) (List.all_eq_true.mpr ?_)
  intro c member
  exact isWordLetter_of_isLetter (isLetter_of_isAlpha (List.all_eq_true.mp areLetters c member))

theorem lastOf_eq (before after : Option Char) {word : List Char} (some : word ≠ []) :
    lastOf before word = lastOf after word := by
  obtain ⟨first, word, rfl⟩ := List.exists_cons_of_ne_nil some
  rfl

/-- **Replacing a name among lexemes.** An apt pattern replaces exactly the names that it accepts,
save for calls. The invariant: outside of a word, what is written ends like what is read. -/
theorem lexemes_replaceFrom {rule : Rule} (apt : rule.pattern.Apt)
    (finite : rule.value.isFinite = true) {before after : Option Char} {text : List Char}
    {tokens : List Token} (lexemes : Lexemes before text tokens)
    (same : before.any isWordLetter = false → after = before) :
    Lexemes after (replaceFrom rule.pattern (enclosed rule.value) 0 before text)
      (putNumbers rule.given isOpening tokens) := by
  have fair := apt.toFair
  induction lexemes generalizing after with
  | nil => exact .nil
  | @blank before c text tokens isBlank _ ih =>
      have boundary := isBoundary_of_isBlank isBlank
      rw [replaceFrom_cons fair _ (isWordLetter_of_isBoundary boundary)]
      exact .blank isBlank (ih fun _ => rfl)
  | @symbol before c token text tokens ascii is _ ih =>
      have boundary := isBoundary_of_ascii ascii is
      rw [replaceFrom_cons fair _ (isWordLetter_of_isBoundary boundary),
        putNumbers_symbol ascii is]
      exact .symbol ascii is (ih fun _ => rfl)
  | @number before decimal exponent text tokens isDecimal isPower ends ofRest ih =>
      obtain ⟨first, rest, start, _⟩ := head_of_isDecimal isDecimal
      have some : decimal ++ exponent ≠ [] := by
        rw [start]
        nofun
      rw [replaceFrom_number fair isDecimal isPower]
      exact .number isDecimal isPower
        (numberEnds_replaceFrom fair (lettersPlain_of_lexemes ofRest) ends)
        (ih fun _ => lastOf_eq after before some)
  | @word before word text tokens isWord apart ends alone unmarked ofRest ih =>
      obtain rfl := same apart
      have plain := lettersPlain_of_lexemes ofRest
      have areLetters := isWordLetter_of_all_isAlpha isWord.2
      rw [putNumbers_word apt isWord (startsCall_eq_of_lexemes ofRest),
        replaceFrom_run fair apart isWord.1 areLetters ends, Pattern.writesFor, unmarked,
        Bool.not_false, Bool.and_true]
      cases accepts rule.pattern.spelling word && !(rule.pattern.skipsCalls && startsCall text) with
      | true =>
          refine lexemes_enclosed finite (ih fun outside => ?_)
          rw [any_lastOf_word isWord] at outside
          cases outside
      | false =>
          refine .word isWord apart (startsWithLetter_replaceFrom fair ends) ?_ ?_ (ih fun _ => rfl)
          · rw [takeWhile_isDigit_replaceFrom fair plain]
            exact alone
          · unfold isExponentMark at unmarked ⊢
            rw [startsExponent_replaceFrom fair plain]
            exact unmarked
  | @numbered before word digits text tokens isWord some areDigits known apart ends ofRest ih =>
      obtain rfl := same apart
      rw [putNumbers_numbered apt isWord some areDigits known,
        replaceFrom_numbered apt isWord some areDigits known apart]
      exact .numbered isWord some areDigits known apart
        (forall_head_replaceFrom fair rfl ends) (ih fun _ => rfl)

end Reckoner.Substitution
