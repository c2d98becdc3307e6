import Reckoner.Proofs.Case
import Reckoner.Proofs.Decimal.RoundTrip
import Reckoner.Proofs.Expression

/-!
# Spelling tokens

A text is a spelling of tokens (`Reckoner.Token.Spelled`) if it has their numerals, words and
symbols in order. Blanks may stand anywhere between tokens, and a boundary follows every number and
every name. Spelled tokens are what the reader reads (`Reckoner.Token.scan_of_spelled`), and tokens
with blanks between them are spelled (`Reckoner.Token.spelled_spaced`).
-/

namespace Reckoner.Token

open Text

/-- The characters are a word of ASCII letters. -/
def IsWord (word : List Char) : Prop :=
  word ≠ [] ∧ word.all Char.isAlpha = true

instance (word : List Char) : Decidable (IsWord word) :=
  inferInstanceAs (Decidable (_ ∧ _))

theorem exists_cons_of_isWord {word : List Char} (isWord : IsWord word) :
    ∃ first letters, word = first :: letters ∧ first.isAlpha = true ∧
      letters.all Char.isAlpha = true := by
  obtain ⟨some, areLetters⟩ := isWord
  cases word with
  | nil => exact absurd rfl some
  | cons first letters =>
      rw [List.all_cons, Bool.and_eq_true] at areLetters
      exact ⟨first, letters, rfl, areLetters⟩

/-- The text is a spelling of the tokens. -/
inductive Spelled : List Token → List Char → Prop
  | nil : Spelled [] []
  | blank {c : Char} {tokens : List Token} {text : List Char} (isBlank : isBlank c = true)
      (ofRest : Spelled tokens text) : Spelled tokens (c :: text)
  | symbol {c : Char} {token : Token} {tokens : List Token} {text : List Char}
      (boundary : isBoundary c = true) (is : ofChar? c = some token)
      (ofRest : Spelled tokens text) : Spelled (token :: tokens) (c :: text)
  | number {numeral : List Char} {tokens : List Token} {text : List Char}
      (isNumeral : IsNumeral numeral) (ends : AtBoundary text) (ofRest : Spelled tokens text) :
      Spelled (number (numberValue numeral) :: tokens) (numeral ++ text)
  | identifier {name : String} {tokens : List Token} {text : List Char}
      (isWord : IsWord name.toList) (ends : AtBoundary text) (ofRest : Spelled tokens text) :
      Spelled (identifier name :: tokens) (name.toList ++ text)
  | function {name : String} {f : NamedFunction} {tokens : List Token} {text : List Char}
      (known : (name, f) ∈ NamedFunction.table) (ends : AtBoundary text)
      (ofRest : Spelled tokens text) : Spelled (function name :: tokens) (name.toList ++ text)

/-! ## Reading a spelling -/

section Word

variable {lenient : Bool} {first : Char} {letters digits text : List Char}
  (letter : isLetter first = true) (areLetters : letters.all isLetter = true)
  (areDigits : digits.all Char.isDigit = true) (ends : AtBoundary text)

include areLetters areDigits ends

/-- A name is taken to its end, if a function goes by it with the digits at its end. -/
theorem takeName_append (known : digits ≠ [] →
      (NamedFunction.ofName? (String.ofList (first :: letters ++ digits))).isSome = true) :
    takeName first (letters ++ (digits ++ text)) = (first :: letters ++ digits, text) := by
  have digitsEnd : ∀ c ∈ text.head?, c.isDigit = false := by
    intro c is
    exact isDigit_of_isBoundary (ends c is)
  cases digits with
  | nil =>
      have lettersEnd : ∀ c ∈ text.head?, isLetter c = false := by
        intro c is
        exact isLetter_of_isBoundary (ends c is)
      have none : text.takeWhile Char.isDigit = [] :=
        @takeWhile_append_of_ends _ _ [] _ nofun digitsEnd
      rw [List.nil_append, takeName_letters areLetters lettersEnd, none, if_neg (by simp),
        List.append_nil]
  | cons digit digits =>
      apply takeName_known areLetters areDigits digitsEnd
      rw [known (List.cons_ne_nil _ _)]
      rfl

include letter

theorem scan_word (none : ofChar? first = none) (known : digits ≠ [] →
      (NamedFunction.ofName? (String.ofList (first :: letters ++ digits))).isSome = true) :
    scan lenient (first :: letters ++ (digits ++ text)) =
      (scan lenient text).map (ofName (first :: letters ++ digits) :: ·) := by
  rw [List.cons_append, scan_letter letter none, takeName_append areLetters areDigits ends known]

end Word

/-- The names of functions are words, some of them with digits behind. -/
theorem split_of_mem_table {name : String} {f : NamedFunction}
    (known : (name, f) ∈ NamedFunction.table) :
    ∃ first letters digits, name.toList = first :: letters ++ digits ∧ first.isAlpha = true ∧
      letters.all Char.isAlpha = true ∧ digits.all Char.isDigit = true := by
  have each : (NamedFunction.table.all fun entry => entry.1.toList.head?.any Char.isAlpha &&
      (entry.1.toList.tail.dropWhile Char.isAlpha).all Char.isDigit) = true := by
    decide
  have split := List.all_eq_true.mp each _ known
  rw [Bool.and_eq_true] at split
  cases word : name.toList with
  | nil =>
      rw [word] at split
      cases split.1
  | cons first rest =>
      rw [word] at split
      refine ⟨first, rest.takeWhile Char.isAlpha, rest.dropWhile Char.isAlpha, ?_, split.1,
        List.all_takeWhile, split.2⟩
      rw [List.cons_append, List.takeWhile_append_dropWhile]

/-- Functions go by the names of the table. -/
theorem ofName_of_mem_table {name : String} {f : NamedFunction}
    (known : (name, f) ∈ NamedFunction.table) :
    NamedFunction.ofName? name = some f ∧ lowerName name = name := by
  have each : ∀ entry ∈ NamedFunction.table,
      NamedFunction.ofName? entry.1 = some entry.2 ∧ lowerName entry.1 = entry.1 := by
    decide
  have ofEntry := each (name, f) known
  exact ofEntry

theorem map_toLower_of_mem_table {name : String} {f : NamedFunction}
    (known : (name, f) ∈ NamedFunction.table) : name.toList.map Char.toLower = name.toList := by
  have each : ∀ entry ∈ NamedFunction.table,
      entry.1.toList.map Char.toLower = entry.1.toList := by
    decide
  exact each (name, f) known

/-- The name of a function in any case consists of letters, and of digits behind them. -/
theorem split_of_map_toLower {word : List Char} {name : String} {f : NamedFunction}
    (known : (name, f) ∈ NamedFunction.table) (same : word.map Char.toLower = name.toList) :
    ∃ first letters digits, word = first :: letters ++ digits ∧ first.isAlpha = true ∧
      letters.all Char.isAlpha = true ∧ digits.all Char.isDigit = true := by
  obtain ⟨_, _, _, lowered, isLetter, areLetters, areDigits⟩ := split_of_mem_table known
  rw [lowered, List.map_eq_append_iff] at same
  obtain ⟨front, digits, rfl, ofFront, rfl⟩ := same
  obtain ⟨first, letters, rfl, rfl, ofLetters⟩ := List.map_eq_cons_iff.mp ofFront
  refine ⟨first, letters, digits, rfl, ?_, all_isAlpha_of_map_toLower ofLetters areLetters, ?_⟩
  · rwa [isAlpha_toLower] at isLetter
  · have same : Char.isDigit ∘ Char.toLower = Char.isDigit := funext isDigit_toLower
    rwa [List.all_map, same] at areDigits

/-- The function goes by its name in any case. -/
theorem ofName_of_map_toLower {word : List Char} {name : String} {f : NamedFunction}
    (known : (name, f) ∈ NamedFunction.table) (same : word.map Char.toLower = name.toList) :
    NamedFunction.ofName? (String.ofList word) = some f ∧
      lowerName (String.ofList word) = name := by
  obtain ⟨first, letters, digits, rfl, isLetter, areLetters, areDigits⟩ :=
    split_of_map_toLower known same
  have ascii : IsAscii (first :: letters ++ digits) := by
    intro c member
    rcases List.mem_append.mp member with inFront | inDigits
    · rcases List.mem_cons.mp inFront with rfl | inLetters
      · exact isAscii_of_isAlpha isLetter
      · exact isAscii_of_all_isAlpha areLetters c inLetters
    · exact isAscii_of_isDigit (List.all_eq_true.mp areDigits c inDigits)
  have lowered : lowerName (String.ofList (first :: letters ++ digits)) = name := by
    rw [lowerName, String.toList_ofList, lower_of_isAscii ascii, same, String.ofList_toList]
  obtain ⟨named, lower⟩ := ofName_of_mem_table known
  rw [NamedFunction.ofName?, lower] at named
  rw [NamedFunction.ofName?, lowered]
  exact ⟨named, rfl⟩

section Name

variable {lenient : Bool} {text : List Char} (ends : AtBoundary text)

include ends

/-- A name that no function goes by is read as a variable. -/
theorem scan_identifier {name : String} {first : Char} {letters : List Char}
    (is : name.toList = first :: letters) (letter : isLetter first = true)
    (areLetters : letters.all isLetter = true) (single : ofChar? first = none)
    (free : NamedFunction.ofName? name = none) :
    scan lenient (name.toList ++ text) = (scan lenient text).map (identifier name :: ·) := by
  have back : String.ofList name.toList = name := String.ofList_toList
  have read := @scan_word lenient first letters [] text letter areLetters rfl ends single
    fun none => absurd rfl none
  rw [List.append_nil, List.nil_append, ← is] at read
  rw [read, ofName, back, free]
  rfl

theorem scan_function {word : List Char} {name : String} {f : NamedFunction}
    (known : (name, f) ∈ NamedFunction.table) (same : word.map Char.toLower = name.toList) :
    scan lenient (word ++ text) = (scan lenient text).map (function name :: ·) := by
  obtain ⟨named, lowered⟩ := ofName_of_map_toLower known same
  obtain ⟨first, letters, digits, rfl, letter, areLetters, areDigits⟩ :=
    split_of_map_toLower known same
  have areLetters := all_isLetter_of_all_isAlpha areLetters
  have read := @scan_word lenient first letters digits text (isLetter_of_isAlpha letter)
    areLetters areDigits ends (ofChar?_of_isAlpha letter) fun _ => by rw [named]; rfl
  rw [← List.append_assoc] at read
  rw [read, ofName, named, lowered]
  rfl

end Name

/-- **Spelled tokens are read.** Names that no function has are read as variables. -/
theorem scan_of_spelled {lenient : Bool} {tokens : List Token} {text : List Char}
    (spelled : Spelled tokens text)
    (free : ∀ name, identifier name ∈ tokens → NamedFunction.ofName? name = none) :
    scan lenient text = .ok tokens := by
  induction spelled with
  | nil => exact scan_nil
  | blank isBlank _ ih => rw [scan_blank isBlank, ih free]
  | symbol boundary is _ ih =>
      rw [scan_boundary boundary is,
        ih fun name member => free name (List.mem_cons_of_mem _ member)]
      rfl
  | number isNumeral ends _ ih =>
      rw [scan_numeral isNumeral ends,
        ih fun name member => free name (List.mem_cons_of_mem _ member)]
      rfl
  | @identifier name tokens text isWord ends _ ih =>
      obtain ⟨first, letters, word, isLetter, areLetters⟩ := exists_cons_of_isWord isWord
      rw [scan_identifier ends word (isLetter_of_isAlpha isLetter)
        (all_isLetter_of_all_isAlpha areLetters) (ofChar?_of_isAlpha isLetter)
        (free name List.mem_cons_self),
        ih fun name member => free name (List.mem_cons_of_mem _ member)]
      rfl
  | function known ends _ ih =>
      rw [scan_function ends known (map_toLower_of_mem_table known),
        ih fun name member => free name (List.mem_cons_of_mem _ member)]
      rfl

/-! ## Writing tokens with blanks between them -/

/-- The text of a token in an expression. -/
def spelling : Token → String
  | number value => Decimal.shortest value
  | identifier name => name
  | operator op => op.symbol
  | function name => name
  | opening => "("
  | closing => ")"
  | comma => ","
  | unknown text => text

/-- The tokens with a blank between each two. -/
def spaced (tokens : List Token) : String :=
  join " " (tokens.map spelling)

/-- The token can be spelled: numbers are finite and have no sign, names are words of ASCII letters,
functions go by the names of the table, and operators are binary. -/
def IsPlain : Token → Prop
  | number value => value.isFinite = true ∧ Decimal.signBit value = false
  | identifier name => IsWord name.toList
  | operator op => op.isBinary = true
  | function name => ∃ f, (name, f) ∈ NamedFunction.table
  | opening | closing | comma => True
  | unknown _ => False

/-- The text of a finite double without a sign is a numeral for it. -/
theorem numberValue_shortest {x : Float} (finite : x.isFinite = true)
    (unsigned : Decimal.signBit x = false) :
    IsNumeral (Decimal.shortest x).toList ∧ numberValue (Decimal.shortest x).toList = x := by
  obtain ⟨numeral, isNumeral, read, text⟩ := Decimal.exists_numeral_of_shortest finite
  rw [unsigned] at read text
  simp only [Bool.false_eq_true, if_false] at read text
  subst text
  exact ⟨isNumeral, by rw [numberValue, read]; rfl⟩

theorem spelled_symbol {c : Char} {token : Token} {tokens : List Token} {text : List Char}
    (symbol : isSymbol c = true) (is : ofChar? c = some token) (ofRest : Spelled tokens text) :
    Spelled (token :: tokens) (c :: text) :=
  .symbol (isBoundary_of_isSymbol symbol) is ofRest

/-- A token in front of a boundary is spelled by its text. -/
theorem spelled_cons {token : Token} {tokens : List Token} {text : List Char}
    (isPlain : token.IsPlain) (ends : AtBoundary text) (ofRest : Spelled tokens text) :
    Spelled (token :: tokens) (token.spelling.toList ++ text) := by
  cases token with
  | number value =>
      obtain ⟨isNumeral, is⟩ := numberValue_shortest isPlain.1 isPlain.2
      have spelled := Spelled.number isNumeral ends ofRest
      rwa [is] at spelled
  | identifier name => exact .identifier isPlain ends ofRest
  | function name =>
      obtain ⟨f, known⟩ := isPlain
      exact .function known ends ofRest
  | opening => exact spelled_symbol (c := '(') rfl rfl ofRest
  | closing => exact spelled_symbol (c := ')') rfl rfl ofRest
  | comma => exact spelled_symbol (c := ',') rfl rfl ofRest
  | operator op =>
      cases op with
      | add => exact spelled_symbol (c := '+') rfl rfl ofRest
      | subtract => exact spelled_symbol (c := '-') rfl rfl ofRest
      | multiply => exact spelled_symbol (c := '*') rfl rfl ofRest
      | divide => exact spelled_symbol (c := '/') rfl rfl ofRest
      | power => exact spelled_symbol (c := '^') rfl rfl ofRest
      | cross => exact spelled_symbol (c := '×') rfl rfl ofRest
      | negate => cases isPlain
      | unknown symbol => cases isPlain
  | unknown text => exact absurd isPlain id

/-- **Plain tokens with blanks between them are spelled.** -/
theorem spelled_spaced {tokens : List Token} (plain : ∀ token ∈ tokens, token.IsPlain) :
    Spelled tokens (spaced tokens).toList := by
  induction tokens with
  | nil => exact .nil
  | cons token rest ih =>
      have ofToken := plain token List.mem_cons_self
      have ofRest := ih fun other member => plain other (List.mem_cons_of_mem _ member)
      cases rest with
      | nil =>
          have spelled := spelled_cons ofToken atBoundary_nil .nil
          rwa [List.append_nil] at spelled
      | cons next others =>
          have text : (spaced (token :: next :: others)).toList =
              token.spelling.toList ++ ' ' :: (spaced (next :: others)).toList := by
            change (token.spelling ++ " " ++ spaced (next :: others)).toList = _
            rw [String.toList_append, String.toList_append, List.append_assoc]
            rfl
          rw [text]
          exact spelled_cons ofToken (atBoundary_cons (by decide)) (.blank (by decide) ofRest)

end Reckoner.Token
