import Reckoner.Proofs.Spelling

/-!
# Joining spelled tokens

Tokens are written one after the other (`Reckoner.Token.Joined`): numbers by their shortest text,
functions in any case of their letters or as a root, and everything else as it is. Blanks may stand
anywhere between them and only have to stand between two words, that is, numbers or names. No
spelling runs into the next one, so the tokens are read back (`Reckoner.Token.scan_of_joined`).
-/

namespace Reckoner.Token

open Text

/-! ## Spellings -/

/-- The text is a spelling of the token by a word: a number without a sign, a name of letters that
no function goes by, or a function in any case of its letters. A name does not start with `π`. -/
inductive SpelledByWord : Token → List Char → Prop
  | number {value : Float} (finite : value.isFinite = true)
      (unsigned : Decimal.signBit value = false) :
      SpelledByWord (.number value) (Decimal.shortest value).toList
  | identifier {name : String} {first : Char} {letters : List Char}
      (is : name.toList = first :: letters) (areLetters : name.toList.all isLetter = true)
      (other : first ≠ 'π') (free : NamedFunction.ofName? name = none) :
      SpelledByWord (.identifier name) name.toList
  | function {name : String} {f : NamedFunction} {word : List Char}
      (known : (name, f) ∈ NamedFunction.table) (same : word.map Char.toLower = name.toList) :
      SpelledByWord (.function name) word

/-- The character is a spelling of the token. -/
inductive SpelledBySymbol : Token → Char → Prop
  | opening : SpelledBySymbol .opening '('
  | closing : SpelledBySymbol .closing ')'
  | comma : SpelledBySymbol .comma ','
  | root : SpelledBySymbol (.function "sqrt") '√'
  | operator {op : Operator} {c : Char} (binary : op.isBinary = true)
      (is : op.symbol.toList = [c]) : SpelledBySymbol (.operator op) c

/-- The text has spellings of the tokens in order, and blanks between them and at its ends. Where a
word stands before the text, as it does after each word inside of it, a blank comes before the next
word. -/
inductive Joined : (afterWord : Bool) → List Token → List Char → Prop
  | nil {afterWord : Bool} {gap : List Char} (blank : gap.all isBlank = true) :
      Joined afterWord [] gap
  | word {afterWord : Bool} {token : Token} {tokens : List Token} {gap spelling text : List Char}
      (blank : gap.all isBlank = true) (apart : afterWord = true → gap ≠ [])
      (spelled : SpelledByWord token spelling) (ofRest : Joined true tokens text) :
      Joined afterWord (token :: tokens) (gap ++ (spelling ++ text))
  | symbol {afterWord : Bool} {token : Token} {tokens : List Token} {gap text : List Char}
      {c : Char} (blank : gap.all isBlank = true) (spelled : SpelledBySymbol token c)
      (ofRest : Joined false tokens text) : Joined afterWord (token :: tokens) (gap ++ c :: text)

/-! ## No spelling runs into the next one -/

theorem atBoundary_append {gap text : List Char} (blank : gap.all isBlank = true)
    (ends : gap = [] → AtBoundary text) : AtBoundary (gap ++ text) := by
  cases gap with
  | nil => exact ends rfl
  | cons c gap =>
      rw [List.all_cons, Bool.and_eq_true] at blank
      exact atBoundary_cons (isBoundary_of_isBlank blank.1)

/-- A symbol is a boundary, and it stands for its token. -/
theorem SpelledBySymbol.isSymbol {token : Token} {c : Char} (spelled : SpelledBySymbol token c) :
    isSymbol c = true ∧ ofChar? c = some token := by
  cases spelled with
  | @operator op c binary is =>
      cases op with
      | negate | unknown => cases binary
      | _ =>
          cases is
          exact ⟨rfl, rfl⟩
  | _ => exact ⟨rfl, rfl⟩

theorem Joined.atBoundary {tokens : List Token} {text : List Char}
    (joined : Joined true tokens text) : AtBoundary text := by
  cases joined with
  | nil blank =>
      rw [← List.append_nil text]
      exact atBoundary_append blank fun _ => atBoundary_nil
  | word blank apart _ _ => exact atBoundary_append blank fun none => absurd none (apart rfl)
  | symbol blank spelled _ =>
      exact atBoundary_append blank fun _ =>
        atBoundary_cons (isBoundary_of_isSymbol spelled.isSymbol.1)

/-! ## Reading joined tokens -/

section Reading

variable {lenient : Bool} {token : Token} {text : List Char}

theorem scan_gap {gap : List Char} (blank : gap.all isBlank = true) :
    scan lenient (gap ++ text) = scan lenient text := by
  induction gap with
  | nil => rfl
  | cons c gap ih =>
      rw [List.all_cons, Bool.and_eq_true] at blank
      rw [List.cons_append, scan_blank blank.1, ih blank.2]

/-- A word in front of a boundary is read as its token. -/
theorem scan_spelledByWord {spelling : List Char} (spelled : SpelledByWord token spelling)
    (ends : AtBoundary text) :
    scan lenient (spelling ++ text) = (scan lenient text).map (token :: ·) := by
  cases spelled with
  | number finite unsigned =>
      obtain ⟨isNumeral, value⟩ := numberValue_shortest finite unsigned
      rw [scan_numeral isNumeral ends, value]
  | identifier is areLetters other free =>
      rw [is, List.all_cons, Bool.and_eq_true] at areLetters
      exact scan_identifier ends is areLetters.1 areLetters.2 (ofChar?_letter areLetters.1 other)
        free
  | function known same => exact scan_function ends known same

end Reading

/-- **Joined tokens are read back**, by a strict reader and by a lenient one. -/
theorem scan_of_joined {afterWord : Bool} {tokens : List Token} {text : List Char}
    (joined : Joined afterWord tokens text) (lenient : Bool) : scan lenient text = .ok tokens := by
  induction joined with
  | @nil _ gap blank =>
      rw [← List.append_nil gap, scan_gap blank, scan_nil]
  | word blank _ spelled ofRest ih =>
      rw [scan_gap blank, scan_spelledByWord spelled ofRest.atBoundary, ih]
      rfl
  | symbol blank spelled _ ih =>
      obtain ⟨symbol, is⟩ := spelled.isSymbol
      rw [scan_gap blank, scan_boundary (isBoundary_of_isSymbol symbol) is, ih]
      rfl

theorem joined_logarithm : Joined false
    [.number 1e16, .function "log10", .opening, .identifier "éa", .closing, .operator .power,
      .function "sqrt", .number 0.5]
    "1e+16 LoG10(éa\t)^√0.5 ".toList := by
  have large : SpelledByWord (.number 1e16) "1e+16".toList := by
    have text : "1e+16".toList = (Decimal.shortest 1e16).toList := by decide +kernel
    rw [text]
    exact .number (by decide +kernel) (by decide +kernel)
  have half : SpelledByWord (.number 0.5) "0.5".toList := by
    have text : "0.5".toList = (Decimal.shortest 0.5).toList := by decide +kernel
    rw [text]
    exact .number (by decide +kernel) (by decide +kernel)
  have name : SpelledByWord (.identifier "éa") "éa".toList :=
    .identifier rfl (by decide) (by decide) (by decide)
  have logarithm : SpelledByWord (.function "log10") "LoG10".toList := by
    have known : ("log10", NamedFunction.log10) ∈ NamedFunction.table := by decide
    exact .function known (by decide)
  have root := @Joined.word false _ _ [] _ _ rfl nofun half (@Joined.nil _ [' '] (by decide))
  have power := @Joined.symbol false _ _ [] _ _ rfl (@SpelledBySymbol.operator .power '^' rfl rfl)
    (@Joined.symbol _ _ _ [] _ _ rfl .root root)
  have argument := @Joined.word false _ _ [] _ _ rfl nofun name
    (@Joined.symbol _ _ _ ['\t'] _ _ (by decide) .closing power)
  have call := @Joined.word true _ _ [' '] _ _ (by decide) (by simp) logarithm
    (@Joined.symbol _ _ _ [] _ _ rfl .opening argument)
  exact @Joined.word false _ _ [] _ _ rfl nofun large call

theorem scan_logarithm : scan true "1e+16 LoG10(éa\t)^√0.5 ".toList =
    .ok [.number 1e16, .function "log10", .opening, .identifier "éa", .closing, .operator .power,
      .function "sqrt", .number 0.5] :=
  scan_of_joined joined_logarithm true

end Reckoner.Token
