import Reckoner.Proofs.Environment
import Reckoner.Proofs.Reaching

/-!
# Functions of angles in a text

Six functions take or give angles. Whether a text has tokens of them shows in its words of letters
(`Reckoner.isAngleless_eq_of_scan`), and what is written in the places of names adds no such word
(`Reckoner.Substitution.isAngleless_of_substitute`). So the tokens of an expression tell whether
there are functions of angles among the tokens that are evaluated.
-/

namespace Reckoner

open Text Outcome

/-- The functions whose argument or value is an angle. -/
def angleFunctions : List String :=
  ["sin", "cos", "tan", "asin", "acos", "atan"]

/-- The token is a function of angles. -/
def Token.isAngular : Token → Bool
  | function name => angleFunctions.contains (lowerName name)
  | _ => false

/-! ## Names of functions of angles -/

/-- The word is the name of a function of angles, in any case of its letters. -/
def namesAngle (word : List Char) : Bool :=
  angleFunctions.contains (lowerName (String.ofList word))

theorem exists_of_namesAngle {word : List Char} (names : namesAngle word = true) :
    ∃ name ∈ angleFunctions, lower word = name.toList := by
  refine ⟨_, List.contains_iff_mem.mp names, ?_⟩
  rw [lowerName, String.toList_ofList, String.toList_ofList]

/-- The letters that the texts of numbers are made of. -/
def numberLetters : List Char :=
  ['e', 'E', 'i', 'n', 'f', 'a']

/-- The letters of numbers name no function of angles. -/
theorem namesAngle_of_numberLetters {word : List Char} (letters : ∀ c ∈ word, c ∈ numberLetters) :
    namesAngle word = false := by
  rw [← Bool.not_eq_true]
  intro names
  obtain ⟨name, member, is⟩ := exists_of_namesAngle names
  have few : numberLetters.all (fun c => c.toNat < 128) = true := by decide
  have ascii : IsAscii word := fun c inside =>
    of_decide_eq_true (List.all_eq_true.mp few c (letters c inside))
  rw [lower_of_isAscii ascii] at is
  have strange : ∀ name ∈ angleFunctions,
      name.toList.any (fun c => !(numberLetters.map Char.toLower).contains c) = true := by decide
  obtain ⟨c, inside, other⟩ := List.any_eq_true.mp (strange name member)
  rw [← is] at inside
  obtain ⟨d, ofWord, rfl⟩ := List.mem_map.mp inside
  rw [List.contains_iff_mem.mpr (List.mem_map_of_mem (letters d ofWord))] at other
  cases other

/-- The token of a name is a function of angles if the name is one. -/
theorem isAngular_ofName (name : List Char) : (Token.ofName name).isAngular = namesAngle name := by
  have within : ∀ name ∈ angleFunctions, (NamedFunction.table.get? name).isSome = true := by decide
  unfold Token.ofName namesAngle
  dsimp only
  cases found : NamedFunction.ofName? (String.ofList name) with
  | some f =>
      have small := (Token.ofName_of_mem_table (Entries.mem_of_get? found)).2
      change angleFunctions.contains (lowerName (lowerName (String.ofList name))) = _
      rw [small]
  | none =>
      change false = angleFunctions.contains (lowerName (String.ofList name))
      rw [eq_comm, ← Bool.not_eq_true, List.contains_iff_mem]
      intro member
      have known := within _ member
      rw [NamedFunction.ofName?] at found
      rw [found] at known
      cases known

/-- The lower case of a text starts with that of its first character, whatever follows it. -/
theorem head?_lower (c : Char) (text : List Char) :
    (lower (c :: text)).head? = (lower [c]).head? := by
  have alone : lowerBetween [] c text = lowerBetween [] c [] := by
    unfold lowerBetween
    rfl
  have some : lowerBetween [] c [] ≠ [] := by
    unfold lowerBetween
    split
    · exact List.cons_ne_nil _ _
    · split <;> exact List.cons_ne_nil _ _
  change (lowerBetween [] c text ++ _).head? = (lowerBetween [] c [] ++ []).head?
  rw [alone, List.append_nil, List.head?_append_of_ne_nil _ some]

/-- A digit is its own lower case. -/
theorem mem_lowerAfter_of_isDigit {text : List Char} {digit : Char} (member : digit ∈ text)
    (isDigit : digit.isDigit = true) (before : List Char) : digit ∈ lowerAfter before text := by
  induction text generalizing before with
  | nil => cases member
  | cons c text ih =>
      rw [lowerAfter, List.mem_append]
      rcases List.mem_cons.mp member with rfl | member
      · left
        have kept := forall_isDigit (p := fun c => (c == '\u03a3') = false ∧
          (c == '\u0130') = false ∧ lowerChar c = c) (by decide) isDigit
        rw [lowerBetween, kept.1, kept.2.1, kept.2.2]
        exact List.mem_singleton_self _
      · exact .inr (ih member _)

/-- No function of angles has digits behind its name, nor has what stands before the digits of a
function the name of one. -/
theorem namesAngle_of_digits {letters digits : List Char} (nonempty : letters ≠ [])
    (some : digits ≠ []) (areDigits : digits.all Char.isDigit = true)
    (known : (NamedFunction.ofName? (String.ofList (letters ++ digits))).isSome = true) :
    namesAngle letters = false ∧ namesAngle (letters ++ digits) = false := by
  obtain ⟨f, found⟩ := Option.isSome_iff_exists.mp known
  have listed := Entries.mem_of_get? found
  rw [lowerName, String.toList_ofList] at listed
  have numbered : ∀ entry ∈ NamedFunction.table, entry.1.toList.any Char.isDigit = true →
      entry.1.toList.head? = .some 'l' := by decide
  obtain ⟨digit, others, is⟩ := List.exists_cons_of_ne_nil some
  have isDigit : digit.isDigit = true := by
    refine List.all_eq_true.mp areDigits digit ?_
    rw [is]
    exact List.mem_cons_self
  have head := numbered _ listed (List.any_eq_true.mpr ⟨digit, by
    rw [String.toList_ofList]
    refine mem_lowerAfter_of_isDigit ?_ isDigit []
    rw [is]
    exact List.mem_append_right _ List.mem_cons_self, isDigit⟩)
  rw [String.toList_ofList] at head
  obtain ⟨c, tail, rfl⟩ := List.exists_cons_of_ne_nil nonempty
  have apart : ∀ name ∈ angleFunctions, name.toList.head? ≠ .some 'l' := by decide
  constructor
  · rw [← Bool.not_eq_true]
    intro names
    obtain ⟨name, member, same⟩ := exists_of_namesAngle names
    refine apart name member ?_
    rw [← same, head?_lower, ← head?_lower c (tail ++ digits)]
    exact head
  · rw [← Bool.not_eq_true]
    intro names
    obtain ⟨name, member, same⟩ := exists_of_namesAngle names
    refine apart name member ?_
    rw [← same]
    exact head

/-! ## Words of a text -/

/-- No word of the text is the name of a function of angles, where `word` holds the letters of the
current word so far. The letter π in front of a word is no part of it. -/
def isAngleless (word : List Char) : List Char → Bool
  | [] => !namesAngle word
  | c :: text =>
      if isLetter c && !(c == 'π' && word.isEmpty) then isAngleless (word ++ [c]) text
      else !namesAngle word && isAngleless [] text

theorem namesAngle_nil : namesAngle [] = false := by decide

theorem isAngleless_nil : isAngleless [] [] = true := by decide

section Words

variable {word part text : List Char} {c : Char}

/-- A character that is no letter ends a word. -/
theorem isAngleless_cons (stops : isLetter c = false) :
    isAngleless word (c :: text) = (!namesAngle word && isAngleless [] text) := by
  rw [isAngleless, stops, Bool.false_and, if_neg Bool.false_ne_true]

/-- A letter goes on with a word. -/
theorem isAngleless_letter (letter : isLetter c = true) (inside : c ≠ 'π' ∨ word ≠ []) :
    isAngleless word (c :: text) = isAngleless (word ++ [c]) text := by
  have goesOn : (c == 'π' && word.isEmpty) = false := by
    rw [Bool.and_eq_false_iff, beq_eq_false_iff_ne, List.isEmpty_eq_false_iff]
    exact inside
  rw [isAngleless, letter, goesOn]
  rfl

/-- A text at the end of a word. -/
theorem isAngleless_of_end (ends : ∀ c ∈ text.head?, isLetter c = false) :
    isAngleless word text = (!namesAngle word && isAngleless [] text) := by
  cases text with
  | nil => rw [isAngleless, isAngleless_nil, Bool.and_true]
  | cons c text =>
      rw [isAngleless_cons (ends c rfl), isAngleless_cons (ends c rfl), namesAngle_nil,
        Bool.not_false, Bool.true_and]

/-- Letters up to the end of a word. -/
theorem isAngleless_letters (letters : ∀ c ∈ part, isLetter c = true) (some : word ≠ [])
    (ends : ∀ c ∈ text.head?, isLetter c = false) :
    isAngleless word (part ++ text) = (!namesAngle (word ++ part) && isAngleless [] text) := by
  induction part generalizing word with
  | nil => rw [List.nil_append, List.append_nil, isAngleless_of_end ends]
  | cons c part ih =>
      obtain ⟨letter, others⟩ := List.forall_mem_cons.mp letters
      rw [List.cons_append, isAngleless_letter letter (.inr some),
        ih others (List.append_ne_nil_of_left_ne_nil some _), List.append_assoc,
        List.singleton_append]

/-- What follows characters that are no letters. -/
theorem isAngleless_others (others : ∀ c ∈ part, isLetter c = false) :
    isAngleless [] (part ++ text) = isAngleless [] text := by
  induction part with
  | nil => rfl
  | cons c part ih =>
      obtain ⟨stops, others⟩ := List.forall_mem_cons.mp others
      rw [List.cons_append, isAngleless_cons stops, namesAngle_nil, ih others, Bool.not_false,
        Bool.true_and]

/-- The text of a number adds no word, if it ends in a character that is no letter. -/
theorem isAngleless_number (letters : ∀ c ∈ part, isLetter c = true → c ∈ numberLetters)
    (ofWord : ∀ c ∈ word, c ∈ numberLetters) (stops : isLetter c = false) :
    isAngleless word (part ++ c :: text) = isAngleless [] text := by
  induction part generalizing word with
  | nil =>
      rw [List.nil_append, isAngleless_cons stops, namesAngle_of_numberLetters ofWord,
        Bool.not_false, Bool.true_and]
  | cons d part ih =>
      obtain ⟨ofFirst, others⟩ := List.forall_mem_cons.mp letters
      rw [List.cons_append]
      cases letter : isLetter d with
      | true =>
          have number := ofFirst letter
          have plain : d ≠ 'π' := by
            rintro rfl
            exact absurd (List.contains_iff_mem.mpr number) (by decide)
          rw [isAngleless_letter letter (.inl plain)]
          exact ih others (List.forall_mem_append.mpr ⟨ofWord, List.forall_mem_singleton.mpr number⟩)
      | false =>
          rw [isAngleless_cons letter, namesAngle_of_numberLetters ofWord, Bool.not_false,
            Bool.true_and]
          exact ih others fun c member => absurd member List.not_mem_nil

/-- What stands behind the end of a word has no more words than the whole. -/
theorem isAngleless_of_append (none : isAngleless word (part ++ text) = true)
    (ends : ∀ c ∈ text.head?, isLetter c = false) : isAngleless [] text = true := by
  induction part generalizing word with
  | nil =>
      rw [List.nil_append, isAngleless_of_end ends, Bool.and_eq_true] at none
      exact none.2
  | cons c part ih =>
      rw [List.cons_append, isAngleless] at none
      split at none
      · exact ih none
      · exact ih (Bool.and_eq_true_iff.mp none).2

end Words


/-! ## Numbers -/

section Numbers

variable {decimal exponent : List Char} (isDecimal : Decimal.IsDecimal isDecimalDigit decimal)
  (isPower : Decimal.IsPower isDecimalDigit exponent)

theorem not_isLetter_of_digits {digits : List Char} (areDigits : digits.all isDecimalDigit = true) :
    ∀ c ∈ digits, isLetter c = false := fun c member => isLetter_of_not_isWordLetter
  (isWordLetter_of_isDecimalDigit (List.all_eq_true.mp areDigits c member))

include isDecimal

/-- A decimal has no letters. -/
theorem not_isLetter_of_isDecimal : ∀ c ∈ decimal, isLetter c = false := by
  cases isDecimal with
  | whole some areDigits => exact not_isLetter_of_digits areDigits
  | point some areWhole areFraction =>
      exact List.forall_mem_append.mpr ⟨not_isLetter_of_digits areWhole,
        List.forall_mem_cons.mpr ⟨by decide, not_isLetter_of_digits areFraction⟩⟩

include isPower

/-- The only letter of a number is the mark of its exponent. -/
theorem numberLetters_of_number :
    ∀ c ∈ decimal ++ exponent, isLetter c = true → c ∈ numberLetters := by
  have strange {c : Char} (none : isLetter c = false) (letter : isLetter c = true) :
      c ∈ numberLetters := by
    rw [none] at letter
    cases letter
  refine List.forall_mem_append.mpr
    ⟨fun c member => strange (not_isLetter_of_isDecimal isDecimal c member), ?_⟩
  cases isPower with
  | none => exact fun c member => absurd member List.not_mem_nil
  | @marked mark sign digits isMark isSign some areDigits =>
      refine List.forall_mem_cons.mpr ⟨fun _ => ?_, List.forall_mem_append.mpr
        ⟨fun c member => strange ?_, fun c member =>
          strange (not_isLetter_of_digits areDigits c member)⟩⟩
      · rcases isMark with rfl | rfl <;> exact List.contains_iff_mem.mp (by decide)
      · rcases isSign with rfl | rfl | rfl
        · cases member
        · rw [List.mem_singleton.mp member]
          decide
        · rw [List.mem_singleton.mp member]
          decide

/-- A number ends in no letter. -/
theorem ends_of_number : decimal ++ exponent ≠ [] ∧
    ∀ last ∈ (decimal ++ exponent).getLast?, isLetter last = false := by
  cases isPower with
  | none =>
      rw [List.append_nil]
      refine ⟨?_, fun last is => not_isLetter_of_isDecimal isDecimal last (List.mem_of_getLast? is)⟩
      cases isDecimal with
      | whole some _ => exact some
      | point some _ _ => exact List.append_ne_nil_of_right_ne_nil _ (List.cons_ne_nil _ _)
  | @marked mark sign digits isMark isSign some areDigits =>
      refine ⟨List.append_ne_nil_of_right_ne_nil _ (List.cons_ne_nil _ _), fun last is => ?_⟩
      rw [← List.cons_append, ← List.append_assoc,
        List.getLast?_append_of_ne_nil _ some] at is
      exact not_isLetter_of_digits areDigits last (List.mem_of_getLast? is)

end Numbers

/-! ## Tokens and words -/

namespace Token

/-- The text of a number that has been read has letters of numbers only, and ends in none. -/
theorem exists_last_of_takeNumber? {text digits rest : List Char}
    (taken : takeNumber? text = some (digits, rest)) :
    ∃ front last, digits = front ++ [last] ∧ isLetter last = false ∧
      ∀ c ∈ front, isLetter c = true → c ∈ numberLetters := by
  obtain ⟨decimal, exponent, rfl, isDecimal, isPower⟩ := Decimal.isDecimal_of_takeNumber? taken
  obtain ⟨some, ends⟩ := ends_of_number isDecimal isPower
  obtain ⟨front, last, is⟩ := (List.eq_nil_or_concat _).resolve_left some
  rw [List.concat_eq_append] at is
  rw [is] at ends
  refine ⟨front, last, is, ends last List.getLast?_concat, fun c member => ?_⟩
  refine numberLetters_of_number isDecimal isPower c ?_
  rw [is]
  exact List.mem_append_left _ member

/-- The token of a character is no function of angles, and the character no letter but π. -/
theorem not_isAngular_of_ofChar? {c : Char} {token : Token} (is : ofChar? c = some token) :
    token.isAngular = false ∧ (isLetter c = false ∨ c = 'π') := by
  have ofSymbol (symbol : isSymbol c = true) : isLetter c = false :=
    isLetter_of_isBoundary (isBoundary_of_isSymbol symbol)
  unfold ofChar? at is
  split at is
  · cases is
    exact ⟨rfl, .inl (ofSymbol rfl)⟩
  · cases is
    exact ⟨rfl, .inl (ofSymbol rfl)⟩
  · cases is
    exact ⟨rfl, .inl (ofSymbol rfl)⟩
  · cases is
    exact ⟨by decide, .inl (ofSymbol rfl)⟩
  · cases is
    exact ⟨rfl, .inr rfl⟩
  · obtain ⟨op, known, rfl⟩ := Option.map_eq_some_iff.mp is
    refine ⟨rfl, .inl (ofSymbol ?_)⟩
    unfold Operator.ofChar? at known
    split at known
    any_goals rfl
    cases known

end Token

/-- The words of a text that starts with a name. -/
theorem isAngleless_takeName {c : Char} {text : List Char} (letter : isLetter c = true)
    (notPi : c ≠ 'π') : isAngleless [] (c :: text) =
      (!namesAngle (Token.takeName c text).1 && isAngleless [] (Token.takeName c text).2) := by
  have word : isAngleless [] (c :: text) = (!namesAngle (c :: text.takeWhile isLetter) &&
      isAngleless [] (text.dropWhile isLetter)) := by
    rw [isAngleless_letter letter (.inl notPi)]
    nth_rewrite 1 [← @List.takeWhile_append_dropWhile _ isLetter text]
    refine isAngleless_letters (fun d member => List.mem_takeWhile_imp member)
      (List.cons_ne_nil c []) fun d is => ?_
    have stops := List.head?_dropWhile_not isLetter text
    rw [is] at stops
    exact stops
  rw [word]
  unfold Token.takeName
  dsimp only
  split
  · rename_i numbered
    rw [Bool.and_eq_true, Bool.not_eq_true', List.isEmpty_eq_false_iff] at numbered
    obtain ⟨ofLetters, ofName⟩ := namesAngle_of_digits (List.cons_ne_nil c _) numbered.1
      List.all_takeWhile numbered.2
    rw [ofLetters, ofName]
    congr 1
    nth_rewrite 1 [← @List.takeWhile_append_dropWhile _ Char.isDigit (text.dropWhile isLetter)]
    refine isAngleless_others fun d member => ?_
    exact isLetter_of_not_isWordLetter (isWordLetter_of_isDigit (List.mem_takeWhile_imp member))
  · rfl

/-- **Tokens show in words.** There is a function of angles among the tokens of a text if there is
one among its words. -/
theorem isAngleless_eq_of_scan {lenient : Bool} {text : List Char} {tokens : List Token}
    (scanned : Token.scan lenient text = .ok tokens) :
    isAngleless [] text = tokens.all fun token => !token.isAngular := by
  fun_induction Token.scan lenient text generalizing tokens with
  | case1 => cases scanned
  | case2 text digits rest _ taken _ ih =>
      obtain ⟨others, ofRest, rfl⟩ := map_eq_ok.mp scanned
      obtain ⟨rfl, -⟩ := Token.takeNumber?_eq_some taken
      obtain ⟨front, last, rfl, stops, letters⟩ := Token.exists_last_of_takeNumber? taken
      rw [List.append_assoc, List.singleton_append, isAngleless_number letters
        (fun c member => absurd member List.not_mem_nil) stops, ih ofRest]
      rfl
  | case3 =>
      cases scanned
      exact isAngleless_nil
  | case4 c text none token is ih =>
      obtain ⟨others, ofRest, rfl⟩ := map_eq_ok.mp scanned
      obtain ⟨plain, stops⟩ := Token.not_isAngular_of_ofChar? is
      rw [List.all_cons, plain, Bool.not_false, Bool.true_and, ← ih ofRest]
      rcases stops with stops | rfl
      · rw [isAngleless_cons stops, namesAngle_nil, Bool.not_false, Bool.true_and]
      · rfl
  | case5 c text none is blank ih =>
      rw [isAngleless_cons (isLetter_of_isBoundary (isBoundary_of_isBlank blank)), namesAngle_nil,
        Bool.not_false, Bool.true_and]
      exact ih scanned
  | case6 c text none is blank letter _ ih =>
      obtain ⟨others, ofRest, rfl⟩ := map_eq_ok.mp scanned
      rw [List.all_cons, isAngular_ofName, ← ih ofRest]
      refine isAngleless_takeName letter ?_
      rintro rfl
      cases is
  | case7 c text none is blank letter lenient ih =>
      rw [Bool.not_eq_true] at letter
      rw [isAngleless_cons letter, namesAngle_nil, Bool.not_false, Bool.true_and]
      exact ih scanned
  | case8 => cases scanned

/-! ## Words of what is written -/

namespace Substitution

/-- The letters of the text of a double are letters of numbers. -/
theorem numberLetters_of_shortest (x : Float) :
    ∀ c ∈ (Decimal.shortest x).toList, isLetter c = true → c ∈ numberLetters := by
  have ofWord {word : List Char}
      (few : word.all (fun c => !isLetter c || numberLetters.contains c) = true) :
      ∀ c ∈ word, isLetter c = true → c ∈ numberLetters := by
    intro c member letter
    have ofChar := List.all_eq_true.mp few c member
    rw [letter] at ofChar
    exact List.contains_iff_mem.mp ofChar
  have ofMinus {word : List Char} (ofRest : ∀ c ∈ word, isLetter c = true → c ∈ numberLetters) :
      ∀ c ∈ '-' :: word, isLetter c = true → c ∈ numberLetters :=
    List.forall_mem_cons.mpr ⟨fun letter => absurd letter (by decide), ofRest⟩
  cases finite : x.isFinite with
  | true =>
      obtain ⟨numeral, isNumeral, _, is⟩ := Decimal.exists_numeral_of_shortest finite
      obtain ⟨decimal, exponent, rfl, isDecimal, isPower⟩ := exists_decimal_of_isNumeral isNumeral
      have ofNumeral := numberLetters_of_number (isDecimal.mono isDecimalDigit_of_isDigit)
        (isPower.mono isDecimalDigit_of_isDigit)
      rw [is]
      split
      · exact ofMinus ofNumeral
      · exact ofNumeral
  | false =>
      rcases Decimal.eq_special finite with rfl | rfl | rfl
      · exact ofWord (by decide)
      · exact ofWord (by decide)
      · exact ofWord (by decide)

/-- The text of a double between parentheses adds no word. -/
theorem isAngleless_enclosed (x : Float) (text : List Char) :
    isAngleless [] (enclosed x ++ text) = isAngleless [] text := by
  have letters : ∀ c ∈ '(' :: (Decimal.shortest x).toList,
      isLetter c = true → c ∈ numberLetters :=
    List.forall_mem_cons.mpr ⟨fun letter => absurd letter (by decide),
      numberLetters_of_shortest x⟩
  rw [enclosed, List.append_assoc, List.singleton_append]
  exact isAngleless_number letters (fun c member => absurd member List.not_mem_nil) (by decide)

/-- What is written in the places of names adds no name of a function of angles, if it adds no
word. -/
theorem isAngleless_replaceFrom {pattern : Pattern} (fair : pattern.Fair) {insert : List Char}
    (inert : ∀ text, isAngleless [] (insert ++ text) = isAngleless [] text) {word text : List Char}
    {before : Option Char} (inside : word ≠ [] → before.any isWordLetter = true)
    (none : isAngleless word text = true) :
    isAngleless word (replaceFrom pattern insert 0 before text) = true := by
  cases text with
  | nil => exact none
  | cons c text =>
      rcases replaceFrom_cases fair insert c text with
        stays | ⟨name, rest, nonempty, is, _, outside, ends, written⟩
      · rw [stays]
        rw [isAngleless] at none ⊢
        split at none
        · rename_i goesOn
          rw [if_pos goesOn]
          refine isAngleless_replaceFrom fair inert (fun _ => ?_) none
          exact isWordLetter_of_isLetter (Bool.and_eq_true_iff.mp goesOn).1
        · rename_i ends
          rw [if_neg ends]
          rw [Bool.and_eq_true] at none ⊢
          exact ⟨none.1, isAngleless_replaceFrom fair inert (fun some => absurd rfl some) none.2⟩
      · have shorter : rest.length < text.length + 1 := by
          rw [← List.length_cons (a := c), ← is, List.length_append]
          have := List.length_pos_iff.mpr nonempty
          omega
        have start : word = [] := by
          by_contra some
          rw [inside some] at outside
          cases outside
        subst start
        have stops : ∀ d ∈ rest.head?, isLetter d = false := by
          intro d isHead
          obtain ⟨tail, rfl⟩ := List.head?_eq_some_iff.mp isHead
          exact isLetter_of_not_isWordLetter ends
        rw [written, inert]
        rw [← is] at none
        exact isAngleless_replaceFrom fair inert (fun some => absurd rfl some)
          (isAngleless_of_append none stops)
termination_by text.length

/-- **Substitution adds no function of angles.** -/
theorem isAngleless_of_substitute {text written : List Char} {bindings : Bindings}
    (substituted : substitute text bindings = .ok written) (none : isAngleless [] text = true) :
    isAngleless [] written = true := by
  refine @keeps_of_substitute (fun text => isAngleless [] text = true) ?_ _ _ _ substituted none
  intro pattern x text fair none
  exact isAngleless_replaceFrom fair (isAngleless_enclosed x) (fun some => absurd rfl some) none

end Substitution

end Reckoner
