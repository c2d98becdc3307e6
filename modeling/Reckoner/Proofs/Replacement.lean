import Reckoner.Proofs.Decimal.Readable
import Reckoner.Proofs.Neighbours
import Reckoner.Proofs.Spelling
import Reckoner.Substitution

/-!
# Replacing names in a spelling

A word is replaced as a whole or left alone (`Reckoner.Substitution.replaceFrom_run`). So a name is
replaced in a text exactly where its word stands among the tokens that the text spells: numerals keep
the marks of their exponents, longer words are left alone, and so are calls of the function that the
name may be as well. What comes out spells the tokens with the name replaced
(`Reckoner.Substitution.spelled_replace`).
-/

namespace Reckoner.Substitution

open Text Token Decimal

/-- The spelling accepts the word, letter by letter. -/
def accepts : Spelling → List Char → Bool
  | [], [] => true
  | place :: places, c :: word => place.contains c && accepts places word
  | _, _ => false

/-- What is asked of a pattern: all its places are for letters, and it accepts no function, unless
it skips calls and the name of the function is a word. -/
structure Pattern.Fair (pattern : Pattern) : Prop where
  some : pattern.spelling ≠ []
  letters : ∀ place ∈ pattern.spelling, ∀ c ∈ place, isWordLetter c = true
  functions : ∀ name f, (name, f) ∈ NamedFunction.table →
    accepts pattern.spelling (name.toList.takeWhile Char.isAlpha) = true →
      pattern.skipsCalls = true ∧ name.toList.all Char.isAlpha = true

/-! ## Looking for a name -/

theorem not_mem_of_letters {places : Spelling} {place : List Char}
    (letters : ∀ other ∈ place :: places, ∀ c ∈ other, isWordLetter c = true) {c : Char}
    (stops : isWordLetter c = false) : place.contains c = false := by
  rw [← Bool.not_eq_true, List.contains_iff_mem]
  intro member
  rw [letters place List.mem_cons_self c member] at stops
  cases stops

/-- What a spelling accepts is the start of the text. -/
theorem append_of_matchSpelling? {spelling : Spelling} {text name rest : List Char}
    (found : matchSpelling? spelling text = some (name, rest)) : name ++ rest = text := by
  induction spelling generalizing text name with
  | nil =>
      cases found
      rfl
  | cons place places ih =>
      cases text with
      | nil => cases found
      | cons c text =>
          rw [matchSpelling?] at found
          split at found
          · cases further : matchSpelling? places text with
            | none =>
                rw [further] at found
                cases found
            | some pair =>
                obtain ⟨others, following⟩ := pair
                rw [further] at found
                cases found
                rw [List.cons_append, ih further]
          · cases found

/-- What is found is accepted, letter by letter. -/
theorem accepts_of_match {spelling : Spelling} {text name rest : List Char}
    (found : matchSpelling? spelling text = some (name, rest)) :
    accepts spelling name = true := by
  induction spelling generalizing text name with
  | nil =>
      cases found
      rfl
  | cons place places ih =>
      cases text with
      | nil => cases found
      | cons c text =>
          rw [matchSpelling?] at found
          split at found
          · rename_i inside
            obtain ⟨⟨others, following⟩, further, is⟩ := Option.map_eq_some_iff.mp found
            cases is
            rw [accepts, inside, ih further]
            rfl
          · cases found

theorem isWordLetter_of_all_isAlpha {word : List Char} (areLetters : word.all Char.isAlpha = true) :
    ∀ c ∈ word, isWordLetter c = true := fun c member =>
  isWordLetter_of_isLetter (isLetter_of_isAlpha (List.all_eq_true.mp areLetters c member))

section Match

variable {spelling : Spelling} {word rest : List Char}
  (letters : ∀ place ∈ spelling, ∀ c ∈ place, isWordLetter c = true)
  (areLetters : ∀ c ∈ word, isWordLetter c = true)

/-- A word that the spelling accepts is found at the start of a text. -/
theorem matchSpelling?_of_accepts (accepted : accepts spelling word = true) :
    matchSpelling? spelling (word ++ rest) = some (word, rest) := by
  induction spelling generalizing word with
  | nil =>
      cases word with
      | nil => rfl
      | cons c word => cases accepted
  | cons place places ih =>
      cases word with
      | nil => cases accepted
      | cons c word =>
          rw [accepts, Bool.and_eq_true] at accepted
          rw [List.cons_append, matchSpelling?, if_pos accepted.1, ih accepted.2]
          rfl

include letters areLetters

/-- What is found at the start of a word is the word, or goes on with a letter. -/
theorem accepts_of_matchSpelling? (ends : startsWithLetter rest = false) {name after : List Char}
    (found : matchSpelling? spelling (word ++ rest) = some (name, after))
    (stops : startsWithLetter after = false) : accepts spelling word = true := by
  induction spelling generalizing word name after with
  | nil =>
      cases found
      cases word with
      | nil => rfl
      | cons c word =>
          have letter : startsWithLetter (c :: word ++ rest) = true :=
            areLetters c List.mem_cons_self
          rw [letter] at stops
          cases stops
  | cons place places ih =>
      cases word with
      | nil =>
          cases rest with
          | nil => cases found
          | cons c rest =>
              have none := not_mem_of_letters letters ends
              rw [List.nil_append, matchSpelling?, none] at found
              cases found
      | cons c word =>
          obtain ⟨_, areLetters⟩ := List.forall_mem_cons.mp areLetters
          rw [List.cons_append, matchSpelling?] at found
          split at found
          · rename_i inside
            cases further : matchSpelling? places (word ++ rest) with
            | none =>
                rw [further] at found
                cases found
            | some pair =>
                obtain ⟨others, following⟩ := pair
                rw [further] at found
                cases found
                rw [accepts, inside, Bool.true_and]
                exact ih (fun other member => letters other (List.mem_cons_of_mem _ member))
                  areLetters further stops
          · cases found

end Match

section Find

variable {pattern : Pattern} {before : Option Char} {word rest : List Char}

theorem find?_of_letter (insideWord : before.any isWordLetter = true) (text : List Char) :
    pattern.find? before text = none :=
  if_pos insideWord

/-- No name starts with a character that is no letter. -/
theorem find?_of_head (fair : pattern.Fair) {c : Char} (stops : isWordLetter c = false) :
    pattern.find? before (c :: rest) = none := by
  obtain ⟨some, letters, _⟩ := fair
  unfold Pattern.find?
  split
  · rfl
  · cases spelling : pattern.spelling with
    | nil => exact absurd spelling some
    | cons place places =>
        rw [spelling] at letters
        rw [matchSpelling?, not_mem_of_letters letters stops]
        rfl

/-- A whole word is found if the pattern accepts it and it is not skipped as a call. -/
theorem find?_word (fair : pattern.Fair) (outside : before.any isWordLetter = false)
    (areLetters : ∀ c ∈ word, isWordLetter c = true) (ends : startsWithLetter rest = false) :
    pattern.find? before (word ++ rest) =
      if accepts pattern.spelling word && !(pattern.skipsCalls && startsCall rest) then
        some (word, rest)
      else none := by
  unfold Pattern.find?
  rw [outside, if_neg Bool.false_ne_true]
  cases accepted : accepts pattern.spelling word with
  | true =>
      rw [matchSpelling?_of_accepts accepted]
      dsimp only
      rw [ends, Bool.false_or, Bool.true_and]
      cases pattern.skipsCalls && startsCall rest <;> rfl
  | false =>
      rw [Bool.false_and, if_neg Bool.false_ne_true]
      split
      · rename_i name after found
        split
        · rfl
        · rename_i goesOn
          rw [Bool.not_eq_true, Bool.or_eq_false_iff] at goesOn
          rw [accepts_of_matchSpelling? fair.letters areLetters ends found goesOn.1] at accepted
          cases accepted
      · rfl

/-- A name that is found stands on its own. -/
theorem find?_eq_some {text name : List Char}
    (found : pattern.find? before text = some (name, rest)) :
    before.any isWordLetter = false ∧ accepts pattern.spelling name = true ∧ name ++ rest = text ∧
      startsWithLetter rest = false := by
  unfold Pattern.find? at found
  split at found
  · cases found
  · rename_i outside
    rw [Bool.not_eq_true] at outside
    split at found
    · rename_i matched
      split at found
      · cases found
      · rename_i ends
        cases found
        rw [Bool.not_eq_true, Bool.or_eq_false_iff] at ends
        exact ⟨outside, accepts_of_match matched, append_of_matchSpelling? matched, ends.1⟩
    · cases found

/-- A name that is found has letters. -/
theorem ne_nil_of_find? (fair : pattern.Fair) {text name : List Char}
    (found : pattern.find? before text = some (name, rest)) : name ≠ [] := by
  rintro rfl
  obtain ⟨_, accepted, _, _⟩ := find?_eq_some found
  cases spelling : pattern.spelling with
  | nil => exact fair.some spelling
  | cons place places =>
      rw [spelling] at accepted
      cases accepted

end Find


/-! ## What is left alone -/

/-- The last character of a word, or the one before it. -/
def lastOf (before : Option Char) (word : List Char) : Option Char :=
  word.foldl (fun _ c => some c) before

theorem lastOf_append (before : Option Char) (first second : List Char) :
    lastOf before (first ++ second) = lastOf (lastOf before first) second :=
  List.foldl_append

theorem any_lastOf {p : Char → Bool} {before : Option Char} {word : List Char}
    (ofBefore : before.any p = true) (ofWord : word.all p = true) :
    (lastOf before word).any p = true := by
  induction word generalizing before with
  | nil => exact ofBefore
  | cons c word ih =>
      rw [List.all_cons, Bool.and_eq_true] at ofWord
      exact @ih (some c) ofWord.1 ofWord.2

/-! ## Numbers among names -/

theorem isWordLetter_of_number {c : Char} (is : (c.isDigit || c == '.') = true) :
    isWordLetter c = false := by
  rw [Bool.or_eq_true, beq_iff_eq] at is
  rcases is with digit | rfl
  · exact isWordLetter_of_isDigit digit
  · decide

theorem not_letter_of_isDecimal {decimal : List Char} (isDecimal : IsDecimal Char.isDigit decimal) :
    ∀ c ∈ decimal, isWordLetter c = false := by
  intro c member
  cases isDecimal with
  | whole some areDigits => exact isWordLetter_of_isDigit (List.all_eq_true.mp areDigits c member)
  | point some areWhole areFraction =>
      rcases List.mem_append.mp member with member | member
      · exact isWordLetter_of_isDigit (List.all_eq_true.mp areWhole c member)
      · rcases List.mem_cons.mp member with rfl | member
        · decide
        · exact isWordLetter_of_isDigit (List.all_eq_true.mp areFraction c member)

theorem not_letter_of_signed {sign digits : List Char}
    (isSign : sign = [] ∨ sign = ['+'] ∨ sign = ['-']) (areDigits : digits.all Char.isDigit = true) :
    ∀ c ∈ sign ++ digits, isWordLetter c = false := by
  intro c member
  rcases List.mem_append.mp member with member | member
  · rcases isSign with rfl | rfl | rfl
    · cases member
    · rw [List.mem_singleton.mp member]
      decide
    · rw [List.mem_singleton.mp member]
      decide
  · exact isWordLetter_of_isDigit (List.all_eq_true.mp areDigits c member)

theorem startsExponent_sign {c : Char} (isSign : c = '+' ∨ c = '-') (rest : List Char) :
    startsExponent (c :: rest) = rest.head?.any isDecimalDigit := by
  cases rest with
  | nil => rcases isSign with rfl | rfl <;> decide
  | cons d rest => rcases isSign with rfl | rfl <;> rfl

theorem startsExponent_unsigned {c : Char} (unsigned : c ≠ '+' ∧ c ≠ '-') (rest : List Char) :
    startsExponent (c :: rest) = isDecimalDigit c := by
  unfold startsExponent
  split
  · rename_i is
    exact absurd (List.cons.inj is).1 unsigned.1
  · rename_i is
    exact absurd (List.cons.inj is).1 unsigned.2
  · rename_i is
    rw [(List.cons.inj is).1]
  · rename_i is
    cases is

theorem startsExponent_of_isDecimalDigit {c : Char} (digit : isDecimalDigit c = true)
    (rest : List Char) : startsExponent (c :: rest) = true := by
  rw [startsExponent_unsigned _ rest, digit]
  constructor
  · rintro rfl
    exact absurd digit (by decide)
  · rintro rfl
    exact absurd digit (by decide)

theorem startsExponent_signed {sign digits rest : List Char}
    (isSign : sign = [] ∨ sign = ['+'] ∨ sign = ['-']) (some : digits ≠ [])
    (areDigits : digits.all Char.isDigit = true) :
    startsExponent (sign ++ digits ++ rest) = true := by
  obtain ⟨first, digits, rfl⟩ := List.exists_cons_of_ne_nil some
  rw [List.all_cons, Bool.and_eq_true] at areDigits
  have digit := isDecimalDigit_of_isDigit areDigits.1
  rcases isSign with rfl | rfl | rfl
  · exact startsExponent_of_isDecimalDigit digit _
  · exact digit
  · exact digit

/-- A number ends with a digit or a point. -/
theorem lastOf_number {before : Option Char} {decimal exponent : List Char}
    (isDecimal : IsDecimal Char.isDigit decimal) (isPower : IsPower Char.isDigit exponent) :
    (lastOf before (decimal ++ exponent)).any (fun c => c.isDigit || c == '.') = true := by
  have weaken {digits : List Char} (areDigits : digits.all Char.isDigit = true) :
      digits.all (fun c => c.isDigit || c == '.') = true := by
    rw [List.all_eq_true] at areDigits ⊢
    intro c member
    rw [areDigits c member, Bool.true_or]
  have ofDigits {before : Option Char} {digits : List Char} (some : digits ≠ [])
      (areDigits : digits.all Char.isDigit = true) :
      (lastOf before digits).any (fun c => c.isDigit || c == '.') = true := by
    cases digits with
    | nil => exact absurd rfl some
    | cons first digits =>
        have all := weaken areDigits
        rw [List.all_cons, Bool.and_eq_true] at all
        exact @any_lastOf _ (.some first) digits all.1 all.2
  rw [lastOf_append]
  cases isPower with
  | none =>
      change (lastOf before decimal).any _ = true
      cases isDecimal with
      | whole some areDigits => exact ofDigits some areDigits
      | @point whole fraction some areWhole areFraction =>
          rw [lastOf_append]
          exact @any_lastOf (fun c => c.isDigit || c == '.') (.some '.') fraction rfl
            (weaken areFraction)
  | @marked mark sign digits isMark isSign some areDigits =>
      rw [← List.cons_append, lastOf_append]
      exact ofDigits some areDigits

/-- A numeral is a decimal with an exponent. -/
theorem exists_decimal_of_isNumeral {numeral : List Char} (isNumeral : IsNumeral numeral) :
    ∃ decimal exponent, numeral = decimal ++ exponent ∧ IsDecimal Char.isDigit decimal ∧
      IsPower Char.isDigit exponent := by
  have ofExponent {exponent : List Char} (isExponent : IsExponent exponent) :
      IsPower Char.isDigit exponent := by
    cases isExponent with
    | none => exact .none
    | @marked sign first digits isSign isDigit areDigits =>
        refine @IsPower.marked _ 'e' [sign] (first :: digits) (.inl rfl) (.inr ?_)
          (List.cons_ne_nil _ _) (all_cons_of_all isDigit areDigits)
        rcases isSign with rfl | rfl
        · exact .inl rfl
        · exact .inr rfl
  cases isNumeral with
  | @whole first digits exponent isDigit areDigits isExponent =>
      exact ⟨first :: digits, exponent, rfl,
        .whole (List.cons_ne_nil _ _) (all_cons_of_all isDigit areDigits), ofExponent isExponent⟩
  | @point first digits fraction exponent isDigit areDigits areFraction isExponent =>
      refine ⟨first :: digits ++ '.' :: fraction, exponent, ?_,
        .point nofun (all_cons_of_all isDigit areDigits) areFraction, ofExponent isExponent⟩
      rw [List.append_assoc]
      rfl

section Keep

variable {pattern : Pattern} {insert rest : List Char} {before : Option Char}

theorem replaceFrom_skip (word : List Char) :
    replaceFrom pattern insert word.length before (word ++ rest) =
      replaceFrom pattern insert 0 (lastOf before word) rest := by
  induction word generalizing before with
  | nil => rfl
  | cons c word ih =>
      rw [List.length_cons, List.cons_append, replaceFrom, ih]
      rfl

theorem replaceFrom_of_none {c : Char} (none : pattern.find? before (c :: rest) = none) :
    replaceFrom pattern insert 0 before (c :: rest) =
      c :: replaceFrom pattern insert 0 (some c) rest := by
  rw [replaceFrom, none]

/-- Inside of a word nothing is replaced. -/
theorem replaceFrom_letters {word : List Char} (areLetters : ∀ c ∈ word, isWordLetter c = true)
    (insideWord : before.any isWordLetter = true) :
    replaceFrom pattern insert 0 before (word ++ rest) =
      word ++ replaceFrom pattern insert 0 (lastOf before word) rest := by
  induction word generalizing before with
  | nil => rfl
  | cons c word ih =>
      obtain ⟨ofFirst, ofRest⟩ := List.forall_mem_cons.mp areLetters
      have isLetter : (some c).any isWordLetter = true := ofFirst
      rw [List.cons_append, replaceFrom_of_none (find?_of_letter insideWord _), ih ofRest isLetter]
      rfl

/-- A word that is not found is left alone. -/
theorem replaceFrom_word_of_none {word : List Char}
    (areLetters : ∀ c ∈ word, isWordLetter c = true)
    (none : pattern.find? before (word ++ rest) = none) :
    replaceFrom pattern insert 0 before (word ++ rest) =
      word ++ replaceFrom pattern insert 0 (lastOf before word) rest := by
  cases word with
  | nil => rfl
  | cons c word =>
      obtain ⟨ofFirst, ofRest⟩ := List.forall_mem_cons.mp areLetters
      have isLetter : (some c).any isWordLetter = true := ofFirst
      rw [List.cons_append] at none ⊢
      rw [replaceFrom_of_none none, replaceFrom_letters ofRest isLetter]
      rfl

/-- A name that is found is written back as the mark of an exponent, or replaced. -/
theorem replaceFrom_of_some {text name : List Char} (nonempty : name ≠ [])
    (found : pattern.find? before text = some (name, rest)) :
    replaceFrom pattern insert 0 before text =
      (if isExponentMark before name rest then name else insert) ++
        replaceFrom pattern insert 0 (lastOf before name) rest := by
  obtain ⟨_, _, rfl, _⟩ := find?_eq_some found
  cases name with
  | nil => exact absurd rfl nonempty
  | cons c name =>
      rw [List.cons_append] at found ⊢
      rw [replaceFrom, found]
      dsimp only
      rw [List.length_cons, Nat.add_sub_cancel, replaceFrom_skip]
      rfl

/-- The pattern writes for a word between the character before it and the rest of the text. -/
def Pattern.writesFor (pattern : Pattern) (before : Option Char) (word rest : List Char) : Bool :=
  accepts pattern.spelling word && !(pattern.skipsCalls && startsCall rest) &&
    !isExponentMark before word rest

/-- A word is replaced as a whole or left alone. -/
theorem replaceFrom_run {word : List Char} (fair : pattern.Fair)
    (outside : before.any isWordLetter = false) (nonempty : word ≠ [])
    (areLetters : ∀ c ∈ word, isWordLetter c = true) (ends : startsWithLetter rest = false) :
    replaceFrom pattern insert 0 before (word ++ rest) =
      (if pattern.writesFor before word rest then insert else word) ++
        replaceFrom pattern insert 0 (lastOf before word) rest := by
  have found := @find?_word pattern before word rest fair outside areLetters ends
  unfold Pattern.writesFor
  cases accepted : accepts pattern.spelling word && !(pattern.skipsCalls && startsCall rest) with
  | true =>
      rw [accepted, if_pos rfl] at found
      rw [replaceFrom_of_some nonempty found, Bool.true_and]
      cases isExponentMark before word rest <;> rfl
  | false =>
      rw [accepted, if_neg Bool.false_ne_true] at found
      exact replaceFrom_word_of_none areLetters found

variable (fair : pattern.Fair)

include fair

/-- A character that is no letter stays. -/
theorem replaceFrom_cons (insert : List Char) {c : Char} (stops : isWordLetter c = false) :
    replaceFrom pattern insert 0 before (c :: rest) =
      c :: replaceFrom pattern insert 0 (some c) rest :=
  replaceFrom_of_none (find?_of_head fair stops)

/-- **Steps of a replacement.** The first character stays, or a name that it starts and that stands
on its own is replaced. -/
theorem replaceFrom_cases (insert : List Char) (c : Char) (text : List Char) :
    replaceFrom pattern insert 0 before (c :: text) =
        c :: replaceFrom pattern insert 0 (some c) text ∨
      ∃ name rest, name ≠ [] ∧ name ++ rest = c :: text ∧ isWordLetter c = true ∧
        before.any isWordLetter = false ∧ startsWithLetter rest = false ∧
        replaceFrom pattern insert 0 before (c :: text) =
          insert ++ replaceFrom pattern insert 0 (lastOf before name) rest := by
  cases found : pattern.find? before (c :: text) with
  | none => exact .inl (replaceFrom_of_none found)
  | some pair =>
      obtain ⟨name, rest⟩ := pair
      have nonempty := ne_nil_of_find? fair found
      obtain ⟨outside, _, start, ends⟩ := find?_eq_some found
      have isLetter : isWordLetter c = true := by
        by_contra other
        rw [find?_of_head fair (Bool.not_eq_true _ ▸ other)] at found
        cases found
      rw [replaceFrom_of_some nonempty found]
      by_cases marked : isExponentMark before name rest = true
      · left
        rw [if_pos marked]
        simp only [isExponentMark, Bool.and_eq_true, Bool.or_eq_true, beq_iff_eq] at marked
        rcases marked.1.1 with rfl | rfl
        · cases start
          rfl
        · cases start
          rfl
      · rw [if_neg marked]
        exact .inr ⟨name, rest, nonempty, start, isLetter, outside, ends, rfl⟩

/-- Where there are no letters nothing is replaced. -/
theorem replaceFrom_others {word : List Char} (none : ∀ c ∈ word, isWordLetter c = false) :
    replaceFrom pattern insert 0 before (word ++ rest) =
      word ++ replaceFrom pattern insert 0 (lastOf before word) rest := by
  induction word generalizing before with
  | nil => rfl
  | cons c word ih =>
      rw [List.cons_append, replaceFrom_cons fair _ (none c List.mem_cons_self),
        ih fun d member => none d (List.mem_cons_of_mem _ member)]
      rfl

theorem replaceFrom_digits {digits : List Char} (areDigits : digits.all Char.isDigit = true) :
    replaceFrom pattern insert 0 before (digits ++ rest) =
      digits ++ replaceFrom pattern insert 0 (lastOf before digits) rest :=
  replaceFrom_others fair fun c member =>
    isWordLetter_of_isDigit (List.all_eq_true.mp areDigits c member)

theorem replaceFrom_decimal {decimal : List Char} (isDecimal : IsDecimal Char.isDigit decimal) :
    replaceFrom pattern insert 0 before (decimal ++ rest) =
      decimal ++ replaceFrom pattern insert 0 (lastOf before decimal) rest :=
  replaceFrom_others fair (not_letter_of_isDecimal isDecimal)

/-- The mark of an exponent is no name: if it is found, it is written back. -/
theorem replaceFrom_power {exponent : List Char} (isPower : IsPower Char.isDigit exponent)
    (follows : before.any (fun c => c.isDigit || c == '.') = true) :
    replaceFrom pattern insert 0 before (exponent ++ rest) =
      exponent ++ replaceFrom pattern insert 0 (lastOf before exponent) rest := by
  cases isPower with
  | none => rfl
  | @marked mark sign digits isMark isSign some areDigits =>
      have others := not_letter_of_signed isSign areDigits
      have ofRest := @replaceFrom_others pattern insert rest (.some mark) fair _ others
      cases before with
      | none => cases follows
      | some d =>
          have outside : (Option.some d).any isWordLetter = false := isWordLetter_of_number follows
          have isMarked : isExponentMark (Option.some d) [mark] (sign ++ digits ++ rest) = true := by
            change (_ && startsExponent (sign ++ digits ++ rest) && (d.isDigit || d == '.')) = true
            rw [startsExponent_signed isSign some areDigits, Bool.and_true, Bool.and_eq_true]
            refine ⟨?_, follows⟩
            rcases isMark with rfl | rfl <;> rfl
          have areLetters : ∀ c ∈ [mark], isWordLetter c = true := by
            rw [List.forall_mem_singleton]
            rcases isMark with rfl | rfl <;> rfl
          have apart : startsWithLetter (sign ++ digits ++ rest) = false := by
            have signed : sign ++ digits ≠ [] := fun none =>
              some (List.append_eq_nil_iff.mp none).2
            obtain ⟨c, following, is⟩ := List.exists_cons_of_ne_nil signed
            rw [is] at others ⊢
            exact others c List.mem_cons_self
          change replaceFrom pattern insert 0 (Option.some d) ([mark] ++ (sign ++ digits ++ rest)) =
            mark :: (sign ++ digits ++ replaceFrom pattern insert 0 _ rest)
          rw [replaceFrom_run fair outside (List.cons_ne_nil _ _) areLetters apart,
            Pattern.writesFor, isMarked, Bool.not_true, Bool.and_false]
          exact congrArg (mark :: ·) ofRest

/-- Numbers are left alone. -/
theorem replaceFrom_number {decimal exponent : List Char}
    (isDecimal : IsDecimal Char.isDigit decimal) (isPower : IsPower Char.isDigit exponent) :
    replaceFrom pattern insert 0 before (decimal ++ exponent ++ rest) =
      decimal ++ exponent ++ replaceFrom pattern insert 0 (lastOf before (decimal ++ exponent))
        rest := by
  have follows := @lastOf_number before decimal [] isDecimal .none
  rw [List.append_nil] at follows
  rw [List.append_assoc, replaceFrom_decimal fair isDecimal, replaceFrom_power fair isPower follows,
    lastOf_append, List.append_assoc]

end Keep

/-! ## Calls -/

theorem startsCall_blank {c : Char} {text : List Char} (blank : isBlank c = true) :
    startsCall (c :: text) = startsCall text := by
  unfold startsCall stripStart
  rw [List.dropWhile_cons_of_pos blank]

theorem startsCall_cons {c : Char} {text : List Char} (blank : isBlank c = false) :
    startsCall (c :: text) = (c == '(') := by
  unfold startsCall stripStart
  rw [List.dropWhile_cons_of_neg (by rw [blank]; exact Bool.false_ne_true)]
  split
  · rename_i is
    rw [(List.cons.inj is).1]
    rfl
  · rename_i other
    rw [eq_comm, beq_eq_false_iff_ne]
    rintro rfl
    exact other text rfl

/-- The token is an opening parenthesis. -/
def isOpening : Token → Bool
  | opening => true
  | _ => false

theorem ofChar?_eq_opening {c : Char} (boundary : isBoundary c = true) :
    ofChar? c = some opening ↔ c = '(' := by
  constructor
  · intro is
    rw [isBoundary, Bool.or_eq_true] at boundary
    rcases boundary with blank | symbol
    · rw [ofChar?_blank blank] at is
      cases is
    · have one := @forall_isSymbol (fun c => c == '(' || (ofChar? c).all (! isOpening ·))
        (by decide) c symbol
      rw [is] at one
      simpa [isOpening] using one
  · rintro rfl
    rfl

theorem startsCall_of_isDigit {c : Char} (text : List Char) (digit : c.isDigit = true) :
    startsCall (c :: text) = false := by
  have other := forall_isDigit (p := fun c => isBlank c = false ∧ (c == '(') = false) (by decide)
    digit
  rw [startsCall_cons other.1, other.2]

theorem startsCall_of_isAlpha {c : Char} (text : List Char) (isLetter : c.isAlpha = true) :
    startsCall (c :: text) = false := by
  have other := forall_isAlpha (p := fun c => !isBlank c && !(c == '(')) (by decide) isLetter
  rw [Bool.and_eq_true, Bool.not_eq_true', Bool.not_eq_true'] at other
  rw [startsCall_cons other.1, other.2]

/-- A spelling goes on with a call exactly if an opening parenthesis comes next. -/
theorem startsCall_iff {tokens : List Token} {text : List Char} (spelled : Spelled tokens text) :
    startsCall text = true ↔ tokens.head? = some opening := by
  induction spelled with
  | nil => exact ⟨nofun, nofun⟩
  | blank isBlank _ ih => rw [startsCall_blank isBlank, ih]
  | @symbol c token tokens text boundary is _ ih =>
      have blank : isBlank c = false := by
        cases blank : isBlank c with
        | false => rfl
        | true =>
            rw [ofChar?_blank blank] at is
            cases is
      rw [startsCall_cons blank, beq_iff_eq, ← ofChar?_eq_opening boundary, is]
      rfl
  | @number numeral tokens text isNumeral _ _ _ =>
      obtain ⟨first, rest, rfl, digit⟩ := Decimal.exists_head_of_isNumeral isNumeral
      rw [List.cons_append, startsCall_of_isDigit _ digit]
      exact ⟨nofun, nofun⟩
  | @identifier name tokens text isWord _ _ _ =>
      obtain ⟨first, letters, word, isLetter, _⟩ := exists_cons_of_isWord isWord
      rw [word, List.cons_append, startsCall_of_isAlpha _ isLetter]
      exact ⟨nofun, nofun⟩
  | @function name f tokens text known _ _ _ =>
      obtain ⟨first, letters, digits, word, isLetter, _⟩ := split_of_mem_table known
      rw [word, List.cons_append, List.cons_append, startsCall_of_isAlpha _ isLetter]
      exact ⟨nofun, nofun⟩

/-! ## Replacing a name -/

theorem enclosed_append (x : Float) (rest : List Char) :
    enclosed x ++ rest = '(' :: ((Decimal.shortest x).toList ++ ')' :: rest) := by
  rw [enclosed, List.cons_append, List.cons_append, List.append_assoc, List.singleton_append]

/-- The tokens of a number between parentheses, a sign apart from the number. -/
def enclosedTokens (x : Float) : List Token :=
  opening :: ((if Decimal.signBit x then [operator .subtract, number (-x)] else [number x]) ++
    [closing])

/-- The tokens with a number between parentheses in the place of some names. -/
def replaceTokens (named : String → Bool) (x : Float) (tokens : List Token) : List Token :=
  tokens.flatMap fun token =>
    match token with
    | identifier name => if named name then enclosedTokens x else [identifier name]
    | token => [token]

theorem replaceTokens_identifier (named : String → Bool) (x : Float) (name : String)
    (tokens : List Token) :
    replaceTokens named x (identifier name :: tokens) =
      (if named name then enclosedTokens x else [identifier name]) ++
        replaceTokens named x tokens :=
  List.flatMap_cons

/-- The name is one that a pattern accepts. -/
def Pattern.names (pattern : Pattern) (name : String) : Bool :=
  accepts pattern.spelling name.toList

theorem spelled_enclosed {x : Float} (finite : x.isFinite = true) {tokens : List Token}
    {text : List Char} (spelled : Spelled tokens text) :
    Spelled (enclosedTokens x ++ tokens) (enclosed x ++ text) := by
  obtain ⟨numeral, isNumeral, read, is⟩ := Decimal.exists_numeral_of_shortest finite
  have closed : Spelled (closing :: tokens) (')' :: text) := spelled_symbol rfl rfl spelled
  have ofNumeral := Spelled.number isNumeral (atBoundary_cons (by decide)) closed
  rw [enclosed_append, is]
  unfold enclosedTokens
  cases negative : Decimal.signBit x with
  | false =>
      rw [negative] at read
      rw [numberValue, read] at ofNumeral
      exact spelled_symbol rfl rfl ofNumeral
  | true =>
      rw [negative] at read
      rw [numberValue, read] at ofNumeral
      exact spelled_symbol rfl rfl (@spelled_symbol '-' _ _ _ rfl rfl ofNumeral)

section Replace

variable {pattern : Pattern} {x : Float} {text : List Char} {before : Option Char}
  (fair : pattern.Fair)

theorem any_isWordLetter_of_boundary (apart : ∀ c ∈ before, isBoundary c = true) :
    before.any isWordLetter = false := by
  cases before with
  | none => rfl
  | some c => exact isWordLetter_of_isBoundary (apart c rfl)

theorem isExponentMark_of_boundary (apart : ∀ c ∈ before, isBoundary c = true)
    (name rest : List Char) : isExponentMark before name rest = false := by
  cases before with
  | none => exact Bool.and_false _
  | some c =>
      have boundary := apart c rfl
      have digit := isDigit_of_isBoundary boundary
      have point : (c == '.') = false := beq_eq_false_iff_ne.mpr (ne_point_of_isBoundary boundary)
      change (_ && (c.isDigit || c == '.')) = false
      rw [digit, point]
      exact Bool.and_false _

theorem startsWithLetter_of_atBoundary (ends : AtBoundary text) :
    startsWithLetter text = false := by
  cases text with
  | nil => rfl
  | cons c text => exact isWordLetter_of_isBoundary (ends c rfl)

theorem ofChar?_ne_identifier {c : Char} {name : String} : ofChar? c ≠ some (identifier name) := by
  intro is
  unfold ofChar? at is
  split at is
  · cases is
  · cases is
  · cases is
  · cases is
  · cases is
  · cases operator : Operator.ofChar? c with
    | none =>
        rw [operator] at is
        cases is
    | some op =>
        rw [operator] at is
        cases is

include fair

theorem atBoundary_replaceFrom {insert : List Char} (ends : AtBoundary text) :
    AtBoundary (replaceFrom pattern insert 0 before text) := by
  cases text with
  | nil => exact atBoundary_nil
  | cons c text =>
      have boundary := ends c rfl
      rw [replaceFrom_cons fair _ (isWordLetter_of_isBoundary boundary)]
      exact atBoundary_cons boundary

/-- A name of a function is left alone where it is called. -/
theorem replaceFrom_function {insert : List Char} {name : String} {f : NamedFunction}
    (known : (name, f) ∈ NamedFunction.table) (ends : AtBoundary text)
    (called : startsCall text = true) (apart : ∀ c ∈ before, isBoundary c = true) :
    replaceFrom pattern insert 0 before (name.toList ++ text) =
      name.toList ++ replaceFrom pattern insert 0 (lastOf before name.toList) text := by
  obtain ⟨first, letters, digits, word, isLetter, areLetters, areDigits⟩ :=
    split_of_mem_table known
  have all := all_cons_of_all isLetter areLetters
  have digitsHead : ∀ digit ∈ digits.head?, digit.isDigit = true := by
    intro digit isHead
    exact List.all_eq_true.mp areDigits digit (List.mem_of_mem_head? isHead)
  have taken : name.toList.takeWhile Char.isAlpha = first :: letters := by
    rw [word]
    exact takeWhile_append_of_ends (List.all_eq_true.mp all) fun digit isHead =>
      isAlpha_of_isDigit (digitsHead digit isHead)
  have apartDigits : startsWithLetter (digits ++ text) = false := by
    cases digits with
    | nil => exact startsWithLetter_of_atBoundary ends
    | cons digit digits => exact isWordLetter_of_isDigit (digitsHead digit rfl)
  have left : pattern.writesFor before (first :: letters) (digits ++ text) = false := by
    rw [Pattern.writesFor, Bool.and_eq_false_iff, ← Bool.not_eq_true, Bool.and_eq_true,
      Bool.not_eq_true', not_and, Bool.not_eq_false]
    refine .inl fun accepted => ?_
    rw [← taken] at accepted
    obtain ⟨skips, whole⟩ := fair.functions name f known accepted
    have noDigits : digits = [] := by
      cases digits with
      | nil => rfl
      | cons digit digits =>
          rw [word, List.all_append, List.all_cons (a := digit),
            isAlpha_of_isDigit (digitsHead digit rfl), Bool.false_and, Bool.and_false] at whole
          cases whole
    rw [noDigits, List.nil_append, skips, called]
    rfl
  rw [word, List.append_assoc,
    replaceFrom_run fair (any_isWordLetter_of_boundary apart) (List.cons_ne_nil _ _)
      (isWordLetter_of_all_isAlpha all) apartDigits,
    left, if_neg Bool.false_ne_true, replaceFrom_digits fair areDigits, lastOf_append,
    List.append_assoc]

/-- A word that stands on its own and is not called is replaced if the pattern accepts it. -/
theorem replaceFrom_uncalled {insert word : List Char} (nonempty : word ≠ [])
    (areLetters : ∀ c ∈ word, isWordLetter c = true) (ends : AtBoundary text)
    (uncalled : startsCall text = false) (apart : ∀ c ∈ before, isBoundary c = true) :
    replaceFrom pattern insert 0 before (word ++ text) =
      (if accepts pattern.spelling word then insert else word) ++
        replaceFrom pattern insert 0 (lastOf before word) text := by
  rw [replaceFrom_run fair (any_isWordLetter_of_boundary apart) nonempty areLetters
      (startsWithLetter_of_atBoundary ends),
    Pattern.writesFor, uncalled, isExponentMark_of_boundary apart, Bool.and_false, Bool.not_false,
    Bool.and_true, Bool.and_true]

/-- A name that is not called is replaced if the pattern accepts it. -/
theorem replaceFrom_identifier {insert : List Char} {name : String} (isWord : IsWord name.toList)
    (ends : AtBoundary text) (uncalled : startsCall text = false)
    (apart : ∀ c ∈ before, isBoundary c = true) :
    replaceFrom pattern insert 0 before (name.toList ++ text) =
      (if pattern.names name then insert else name.toList) ++
        replaceFrom pattern insert 0 (lastOf before name.toList) text :=
  replaceFrom_uncalled fair isWord.1 (isWordLetter_of_all_isAlpha isWord.2) ends uncalled apart

/-- A number between parentheses is left alone. -/
theorem replaceFrom_enclosed {insert : List Char} (finite : x.isFinite = true) :
    replaceFrom pattern insert 0 before (enclosed x ++ text) =
      enclosed x ++ replaceFrom pattern insert 0 (some ')') text := by
  obtain ⟨numeral, isNumeral, _, is⟩ := Decimal.exists_numeral_of_shortest finite
  obtain ⟨decimal, exponent, rfl, isDecimal, isPower⟩ := exists_decimal_of_isNumeral isNumeral
  have ofNumber (before : Option Char) :
      replaceFrom pattern insert 0 before (decimal ++ exponent ++ ')' :: text) =
        decimal ++ exponent ++ ')' :: replaceFrom pattern insert 0 (some ')') text := by
    rw [replaceFrom_number fair isDecimal isPower,
      replaceFrom_cons fair _ (by decide)]
  rw [enclosed_append, replaceFrom_cons fair _ (by decide), enclosed, is]
  split
  · rw [List.cons_append, replaceFrom_cons fair _ (by decide), ofNumber]
    simp
  · rw [ofNumber]
    simp

/-- Replacing a name in a spelling of arranged tokens gives a spelling of the tokens with the name
replaced. -/
theorem spelled_replaceFrom (finite : x.isFinite = true) {tokens : List Token}
    (spelled : Spelled tokens text) (arranged : tokens ≠ [] → Arranged tokens)
    (apart : AtBoundary text ∨ ∀ c ∈ before, isBoundary c = true) :
    Spelled (replaceTokens pattern.names x tokens)
      (replaceFrom pattern (enclosed x) 0 before text) := by
  induction spelled generalizing before with
  | nil => exact .nil
  | @blank c tokens text isBlank _ ih =>
      have boundary := isBoundary_of_isBlank isBlank
      rw [replaceFrom_cons fair _ (isWordLetter_of_isBoundary boundary)]
      refine .blank isBlank (ih arranged (.inr fun d is => ?_))
      cases is
      exact boundary
  | @symbol c token tokens text boundary is _ ih =>
      have same : replaceTokens pattern.names x (token :: tokens) =
          token :: replaceTokens pattern.names x tokens := by
        cases token with
        | identifier name => exact absurd is ofChar?_ne_identifier
        | _ => rfl
      rw [same, replaceFrom_cons fair _ (isWordLetter_of_isBoundary boundary)]
      refine .symbol boundary is (ih (arranged (List.cons_ne_nil _ _)).tail (.inr fun d is => ?_))
      cases is
      exact boundary
  | number isNumeral ends _ ih =>
      obtain ⟨decimal, exponent, rfl, isDecimal, isPower⟩ := exists_decimal_of_isNumeral isNumeral
      rw [replaceFrom_number fair isDecimal isPower]
      exact .number isNumeral (atBoundary_replaceFrom fair ends)
        (ih (arranged (List.cons_ne_nil _ _)).tail (.inl ends))
  | @function name f tokens text known ends ofRest ih =>
      have arranged := arranged (List.cons_ne_nil _ _)
      have called := (startsCall_iff ofRest).mpr arranged.head_of_function
      obtain ⟨first, letters, digits, word, isLetter, _⟩ := split_of_mem_table known
      rw [word] at apart
      have apart := apart.resolve_left (not_atBoundary_of_isAlpha isLetter)
      rw [replaceFrom_function fair known ends called apart]
      exact .function known (atBoundary_replaceFrom fair ends) (ih arranged.tail (.inl ends))
  | @identifier name tokens text isWord ends ofRest ih =>
      have arranged := arranged (List.cons_ne_nil _ _)
      have uncalled : startsCall text = false := by
        rw [← Bool.not_eq_true, startsCall_iff ofRest]
        exact arranged.head_ne_of_endsOperand rfl
      obtain ⟨first, letters, word, isLetter, _⟩ := exists_cons_of_isWord isWord
      rw [word] at apart
      have apart := apart.resolve_left (not_atBoundary_of_isAlpha isLetter)
      have ofTokens := @ih (lastOf before name.toList) arranged.tail (.inl ends)
      rw [replaceTokens_identifier, replaceFrom_identifier fair isWord ends uncalled apart]
      cases pattern.names name with
      | true => exact spelled_enclosed finite ofTokens
      | false => exact .identifier isWord (atBoundary_replaceFrom fair ends) ofTokens

end Replace

/-- **Replacing a name in a spelling.** In a spelling of arranged tokens, a fair pattern replaces
exactly the names that it accepts. -/
theorem spelled_replace {pattern : Pattern} (fair : pattern.Fair) {x : Float}
    (finite : x.isFinite = true) {tokens : List Token} {text : List Char}
    (spelled : Spelled tokens text) (arranged : Arranged tokens) :
    Spelled (replaceTokens pattern.names x tokens) (replace pattern (enclosed x) text) :=
  spelled_replaceFrom fair finite spelled (fun _ => arranged) (.inr nofun)

end Reckoner.Substitution
