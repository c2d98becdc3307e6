import Reckoner.Proofs.Respelling

/-!
# Reading texts that spell some parts differently

Of two texts that spell some parts differently the same tokens are read, up to what a view of
tokens hides, if this is so where a part comes next (`Reckoner.Substitution.Respelled.readAlike`).
A part may be the mark of an exponent in the middle of a number, which has the same value in either
case of the letter. A name stays one, and the digits behind it are the same.
-/

namespace Reckoner.Substitution

open Text Token Outcome Decimal

/-! ## Marks of exponents -/

/-- The word is a letter that marks exponents. -/
def isMark (word : List Char) : Bool :=
  word == ['e'] || word == ['E']

/-- No exponent starts with the part, whatever text that starts with no letter comes behind. -/
def StartsNoExponent (part : List Char) : Prop :=
  ∀ ⦃rest : List Char⦄, startsWithLetter rest = false →
    takeExponent (part ++ rest) = ([], part ++ rest)

/-- Both spellings of a part mark exponents, or neither starts one. -/
def MarksAlike (swap : List Char → List Char → Prop) : Prop :=
  ∀ ⦃part part'⦄, swap part part' →
    isMark part = true ∧ isMark part' = true ∨ StartsNoExponent part ∧ StartsNoExponent part'

theorem isMark_eq_true {word : List Char} (marks : isMark word = true) :
    ∃ mark, word = [mark] ∧ (mark = 'e' ∨ mark = 'E') := by
  rw [isMark, Bool.or_eq_true, beq_iff_eq, beq_iff_eq] at marks
  rcases marks with rfl | rfl
  · exact ⟨'e', rfl, .inl rfl⟩
  · exact ⟨'E', rfl, .inr rfl⟩

/-- A word that is more than a mark starts no exponent. -/
theorem startsNoExponent_of_word {word : List Char} (nonempty : word ≠ [])
    (areLetters : ∀ c ∈ word, isWordLetter c = true) (none : isMark word = false) :
    StartsNoExponent word := by
  intro rest _
  obtain ⟨c, letters, rfl⟩ := List.exists_cons_of_ne_nil nonempty
  apply takeExponent_unmarked
  rintro mark behind ⟨⟩ isMark
  cases letters with
  | nil => rcases isMark with rfl | rfl <;> cases none
  | cons d letters =>
      have letter := areLetters d (.tail _ (.head _))
      exact Respelled.startsExponent_of_unjoined (joinsNumber_of_isWordLetter letter) _

theorem startsNoExponent_of_head {c : Char} (other : c ≠ 'e' ∧ c ≠ 'E') (part : List Char) :
    StartsNoExponent (c :: part) := by
  intro rest _
  apply takeExponent_unmarked
  rintro mark behind ⟨⟩ isMark
  exact absurd isMark (not_or.mpr other)

namespace Respelled

variable {swap : List Char → List Char → Prop} {text text' rest rest' : List Char}
  (apart : KeepsApart swap)

/-! ## Numbers -/

section Numbers

include apart

/-- Both texts start with the same digits, and go on alike. -/
theorem span {p : Char → Bool} (numeric : ∀ c, joinsNumber c = false → p c = false)
    (respelled : Respelled swap text text') :
    text'.takeWhile p = text.takeWhile p ∧
      Respelled swap (text.dropWhile p) (text'.dropWhile p) := by
  have stopped {c d : Char} {rest rest' : List Char} (first : joinsNumber c = false)
      (second : joinsNumber d = false) (alike : Respelled swap (c :: rest) (d :: rest')) :
      (d :: rest').takeWhile p = (c :: rest).takeWhile p ∧
        Respelled swap ((c :: rest).dropWhile p) ((d :: rest').dropWhile p) := by
    have ofFirst := Bool.eq_false_iff.mp (numeric c first)
    have ofSecond := Bool.eq_false_iff.mp (numeric d second)
    rw [List.takeWhile_cons_of_neg ofFirst, List.takeWhile_cons_of_neg ofSecond,
      List.dropWhile_cons_of_neg ofFirst, List.dropWhile_cons_of_neg ofSecond]
    exact ⟨rfl, alike⟩
  induction respelled with
  | nil => exact ⟨rfl, .nil⟩
  | @other c rest rest' stops ofRest ih =>
      by_cases digit : p c = true
      · rw [List.takeWhile_cons_of_pos digit, List.takeWhile_cons_of_pos digit,
          List.dropWhile_cons_of_pos digit, List.dropWhile_cons_of_pos digit, ih.1]
        exact ⟨rfl, ih.2⟩
      · rw [List.takeWhile_cons_of_neg digit, List.takeWhile_cons_of_neg digit,
          List.dropWhile_cons_of_neg digit, List.dropWhile_cons_of_neg digit]
        exact ⟨rfl, .other stops ofRest⟩
  | @word word rest rest' nonempty areLetters ends ofRest =>
      have alike := Respelled.word nonempty areLetters ends ofRest
      obtain ⟨c, letters, rfl⟩ := List.exists_cons_of_ne_nil nonempty
      have unjoined := joinsNumber_of_isWordLetter (areLetters c List.mem_cons_self)
      exact stopped unjoined unjoined alike
  | swapped given ends ofRest =>
      have alike := Respelled.swapped given ends ofRest
      obtain ⟨c, behind, rfl, first⟩ := apart.first given
      obtain ⟨d, behind', rfl, second⟩ := apart.second given
      exact stopped first second alike

theorem takeDigits_alike (respelled : Respelled swap text text') :
    (takeDigits text').1 = (takeDigits text).1 ∧
      Respelled swap (takeDigits text).2 (takeDigits text').2 :=
  respelled.span apart fun _ unjoined => (joinsNumber_eq_false.mp unjoined).1

theorem takePoint_alike (respelled : Respelled swap text text') :
    (takePoint text').1 = (takePoint text).1 ∧
      Respelled swap (takePoint text).2 (takePoint text').2 := by
  have pointless {c d : Char} {rest rest' : List Char} (first : c ≠ '.') (second : d ≠ '.')
      (alike : Respelled swap (c :: rest) (d :: rest')) :
      (takePoint (d :: rest')).1 = (takePoint (c :: rest)).1 ∧
        Respelled swap (takePoint (c :: rest)).2 (takePoint (d :: rest')).2 := by
    have ofFirst : takePoint (c :: rest) = ([], c :: rest) :=
      takePoint_of_head fun e is => by cases is; exact first
    have ofSecond : takePoint (d :: rest') = ([], d :: rest') :=
      takePoint_of_head fun e is => by cases is; exact second
    rw [ofFirst, ofSecond]
    exact ⟨rfl, alike⟩
  have alike := respelled
  cases respelled with
  | nil => exact ⟨rfl, .nil⟩
  | @other c rest rest' stops ofRest =>
      by_cases point : c = '.'
      · subst point
        obtain ⟨same, behind⟩ := ofRest.takeDigits_alike apart
        exact ⟨congrArg ('.' :: ·) same, behind⟩
      · exact pointless point point alike
  | word nonempty areLetters =>
      obtain ⟨c, letters, rfl⟩ := List.exists_cons_of_ne_nil nonempty
      have unjoined := joinsNumber_of_isWordLetter (areLetters c List.mem_cons_self)
      have point := (joinsNumber_eq_false.mp unjoined).2.1
      exact pointless point point alike
  | swapped given =>
      obtain ⟨c, behind, rfl, first⟩ := apart.first given
      obtain ⟨d, behind', rfl, second⟩ := apart.second given
      exact pointless (joinsNumber_eq_false.mp first).2.1 (joinsNumber_eq_false.mp second).2.1 alike

omit apart in
theorem isDigit_of_unjoined {c : Char} (unjoined : joinsNumber c = false) : c.isDigit = false := by
  rw [← Bool.not_eq_true]
  intro digit
  rw [joinsNumber, isDecimalDigit_of_isDigit digit] at unjoined
  cases unjoined

omit apart in
theorem takeMantissa?_eq_none {c : Char} (unjoined : joinsNumber c = false) (rest : List Char) :
    takeMantissa? (c :: rest) = none := by
  have point := beq_eq_false_iff_ne.mpr (joinsNumber_eq_false.mp unjoined).2.1
  rw [takeMantissa?, isDigit_of_unjoined unjoined, point]
  rfl

/-- Numbers have the same digits up to their exponents, and what follows is alike. -/
theorem takeMantissa?_alike (respelled : Respelled swap text text') :
    Option.Rel (fun first second => second.1 = first.1 ∧ Respelled swap first.2 second.2)
      (takeMantissa? text) (takeMantissa? text') := by
  cases respelled with
  | nil => exact .none
  | @other c rest rest' stops ofRest =>
      obtain ⟨whole, behind⟩ := ofRest.takeDigits_alike apart
      rw [takeMantissa?, takeMantissa?, ofRest.any_head apart fun _ => isDigit_of_unjoined]
      split
      · obtain ⟨fraction, last⟩ := behind.takePoint_alike apart
        exact .some ⟨by rw [whole, fraction], last⟩
      · split
        · exact .some ⟨by rw [whole], behind⟩
        · exact .none
  | word nonempty areLetters =>
      obtain ⟨c, letters, rfl⟩ := List.exists_cons_of_ne_nil nonempty
      have unjoined := joinsNumber_of_isWordLetter (areLetters c List.mem_cons_self)
      rw [List.cons_append, List.cons_append, takeMantissa?_eq_none unjoined,
        takeMantissa?_eq_none unjoined]
      exact .none
  | swapped given =>
      obtain ⟨c, behind, rfl, first⟩ := apart.first given
      obtain ⟨d, behind', rfl, second⟩ := apart.second given
      rw [List.cons_append, List.cons_append, takeMantissa?_eq_none first,
        takeMantissa?_eq_none second]
      exact .none

/-- The sign and the first digit of an exponent are the same, and what follows is alike. -/
theorem exists_exponent (respelled : Respelled swap text text')
    (starts : startsExponent text = true) : ∃ sign digit rest rest', text = sign ++ digit :: rest ∧
      text' = sign ++ digit :: rest' ∧ (sign = [] ∨ sign = ['+'] ∨ sign = ['-']) ∧
      isDecimalDigit digit = true ∧ Respelled swap rest rest' := by
  have unjoined {c : Char} {rest : List Char} (none : joinsNumber c = false) :
      startsExponent (c :: rest) ≠ true := by
    rw [startsExponent_of_unjoined none]
    exact Bool.false_ne_true
  have head {text text' : List Char} (respelled : Respelled swap text text')
      (digit : text.head?.any isDecimalDigit = true) : ∃ digit rest rest', text = digit :: rest ∧
        text' = digit :: rest' ∧ isDecimalDigit digit = true ∧ Respelled swap rest rest' := by
    cases respelled with
    | nil => cases digit
    | other _ ofRest => exact ⟨_, _, _, rfl, rfl, digit, ofRest⟩
    | word nonempty areLetters =>
        obtain ⟨c, letters, rfl⟩ := List.exists_cons_of_ne_nil nonempty
        have none := isDecimalDigit_of_isWordLetter (areLetters c List.mem_cons_self)
        exact absurd digit (Bool.eq_false_iff.mp none)
    | swapped given =>
        obtain ⟨c, behind, rfl, first⟩ := apart.first given
        exact absurd digit (Bool.eq_false_iff.mp (joinsNumber_eq_false.mp first).1)
  cases respelled with
  | nil => cases starts
  | @other c rest rest' stops ofRest =>
      by_cases signed : c = '+' ∨ c = '-'
      · rw [startsExponent_sign signed] at starts
        obtain ⟨digit, behind, behind', rfl, rfl, isDigit, alike⟩ := head ofRest starts
        refine ⟨[c], digit, behind, behind', rfl, rfl, .inr ?_, isDigit, alike⟩
        rcases signed with rfl | rfl
        · exact .inl rfl
        · exact .inr rfl
      · rw [startsExponent_unsigned (not_or.mp signed)] at starts
        exact ⟨[], c, rest, rest', rfl, rfl, .inl rfl, starts, ofRest⟩
  | word nonempty areLetters =>
      obtain ⟨c, letters, rfl⟩ := List.exists_cons_of_ne_nil nonempty
      have none := joinsNumber_of_isWordLetter (areLetters c List.mem_cons_self)
      exact absurd starts (unjoined none)
  | swapped given =>
      obtain ⟨c, behind, rfl, first⟩ := apart.first given
      exact absurd starts (unjoined first)

/-- A mark in either case starts an exponent of the same value in both texts, or in none of them. -/
theorem takeExponent_mark {mark mark' : Char} (isMark : mark = 'e' ∨ mark = 'E')
    (isMark' : mark' = 'e' ∨ mark' = 'E') (ofRest : Respelled swap rest rest')
    (alike : Respelled swap (mark :: rest) (mark' :: rest')) :
    readExponent? ((takeExponent (mark' :: rest')).1.map plainDigit) =
        readExponent? ((takeExponent (mark :: rest)).1.map plainDigit) ∧
      Respelled swap (takeExponent (mark :: rest)).2 (takeExponent (mark' :: rest')).2 := by
  cases starts : startsExponent rest with
  | true =>
      obtain ⟨sign, digit, behind, behind', rfl, rfl, isSign, isDigit, ofBehind⟩ :=
        ofRest.exists_exponent apart starts
      obtain ⟨digits, last⟩ := ofBehind.takeDigits_alike apart
      rw [takeExponent_marked isMark isSign isDigit, takeExponent_marked isMark' isSign isDigit,
        digits]
      refine ⟨?_, last⟩
      rcases isMark with rfl | rfl <;> rcases isMark' with rfl | rfl <;> rfl
  | false =>
      have starts' := (ofRest.startsExponent_eq apart).trans starts
      have ofFirst : takeExponent (mark :: rest) = ([], mark :: rest) :=
        takeExponent_unmarked fun _ _ is _ => by cases is; exact starts
      have ofSecond : takeExponent (mark' :: rest') = ([], mark' :: rest') :=
        takeExponent_unmarked fun _ _ is _ => by cases is; exact starts'
      rw [ofFirst, ofSecond]
      exact ⟨rfl, alike⟩

theorem takeExponent_alike (marks : MarksAlike swap) (respelled : Respelled swap text text') :
    readExponent? ((takeExponent text').1.map plainDigit) =
        readExponent? ((takeExponent text).1.map plainDigit) ∧
      Respelled swap (takeExponent text).2 (takeExponent text').2 := by
  have alike := respelled
  cases respelled with
  | nil => exact ⟨rfl, .nil⟩
  | @other c rest rest' stops ofRest =>
      have none (behind : List Char) : takeExponent (c :: behind) = ([], c :: behind) := by
        apply takeExponent_unmarked
        rintro mark rest ⟨⟩ (rfl | rfl)
        · exact absurd stops (by decide)
        · exact absurd stops (by decide)
      rw [none, none]
      exact ⟨rfl, alike⟩
  | @word word rest rest' nonempty areLetters ends ofRest =>
      have ends' := ofRest.startsWithLetter_eq_false apart ends
      cases marked : isMark word with
      | true =>
          obtain ⟨mark, rfl, isMark⟩ := isMark_eq_true marked
          exact takeExponent_mark apart isMark isMark ofRest alike
      | false =>
          have none := startsNoExponent_of_word nonempty areLetters marked
          rw [none ends, none ends']
          exact ⟨rfl, alike⟩
  | swapped given ends ofRest =>
      have ends' := ofRest.startsWithLetter_eq_false apart ends
      rcases marks given with ⟨first, second⟩ | ⟨first, second⟩
      · obtain ⟨mark, rfl, isMark⟩ := isMark_eq_true first
        obtain ⟨mark', rfl, isMark'⟩ := isMark_eq_true second
        exact takeExponent_mark apart isMark isMark' ofRest alike
      · rw [first ends, second ends']
        exact ⟨rfl, alike⟩

/-- **Numbers have the same value**, and what follows them is alike. -/
theorem takeNumber?_alike (marks : MarksAlike swap) (respelled : Respelled swap text text') :
    Option.Rel (fun first second => numberValue second.1 = numberValue first.1 ∧
      Respelled swap first.2 second.2) (takeNumber? text) (takeNumber? text') := by
  have mantissas := respelled.takeMantissa?_alike apart
  rw [takeNumber?_eq, takeNumber?_eq]
  cases first : takeMantissa? text with
  | none =>
      rw [first] at mantissas
      generalize takeMantissa? text' = second at mantissas
      cases mantissas
      exact .none
  | some taken =>
      rw [first] at mantissas
      generalize takeMantissa? text' = second at mantissas
      cases mantissas with
      | @some _ taken' alike =>
          obtain ⟨digits, rest⟩ := taken
          obtain ⟨_, rest'⟩ := taken'
          obtain ⟨rfl, ofRest⟩ := alike
          have isDecimal := isDecimal_of_takeMantissa? first
          have power (rest : List Char) := isPower_takeExponent rest
          obtain ⟨exponents, behind⟩ := ofRest.takeExponent_alike apart marks
          refine .some ⟨?_, behind⟩
          simp only [numberValue, readFloat?_append isDecimal (power _),
            readUnsigned?_append isDecimal.plain (power _).plain, exponents]

/-! ## Names -/

omit apart in
/-- A word stays a word before a text that goes on alike, and the function that goes by it and the
digits behind it is the same. -/
theorem takeName_alike (apart : KeepsApart swap) (first : Char) {letters : List Char}
    (areLetters : ∀ c ∈ letters, isWordLetter c = true) (ends : startsWithLetter rest = false)
    (ofRest : Respelled swap rest rest') :
    (takeName first (letters ++ rest')).1 = (takeName first (letters ++ rest)).1 ∧
      Respelled swap (takeName first (letters ++ rest)).2 (takeName first (letters ++ rest')).2 := by
  -- Numerals that are no letters end the name inside of the word.
  have split := List.takeWhile_append_dropWhile (p := isLetter) (l := letters)
  have areName := List.all_takeWhile (p := isLetter) (l := letters)
  have stops := ends_dropWhile (p := isLetter) letters
  have areOthers : ∀ c ∈ letters.dropWhile isLetter, isWordLetter c = true :=
    fun c member => areLetters c ((List.dropWhile_sublist isLetter).mem member)
  generalize letters.takeWhile isLetter = name at split areName
  generalize letters.dropWhile isLetter = others at split stops areOthers
  subst split
  have head {text : List Char} (ends : startsWithLetter text = false) :
      ∀ c ∈ (others ++ text).head?, isLetter c = false := by
    cases others with
    | nil => exact isLetter_of_startsWithLetter ends
    | cons c others => exact stops
  have alike : Respelled swap (others ++ rest) (others ++ rest') := .ofWord areOthers ends ofRest
  obtain ⟨digits, behind⟩ := alike.span apart fun _ => isDigit_of_unjoined
  rw [List.append_assoc, List.append_assoc, takeName_letters areName (head ends),
    takeName_letters areName (head (ofRest.startsWithLetter_eq_false apart ends)), digits]
  split
  · exact ⟨rfl, behind⟩
  · exact ⟨rfl, alike⟩

end Numbers

end Respelled

/-! ## Tokens -/

section Read

variable {β : Type} {view : Token → β} {lenient : Bool} {text text' rest rest' : List Char}

/-- Both texts are read as tokens with the same view, or refused for the same cause. -/
def ReadAlike (view : Token → β) (lenient : Bool) (text text' : List Char) : Prop :=
  EndsAlike (fun tokens tokens' => tokens'.map view = tokens.map view) (· = ·) (scan lenient text)
    (scan lenient text')

theorem ReadAlike.cons {token token' : Token} (alike : ReadAlike view lenient text text')
    (same : view token' = view token) :
    EndsAlike (fun tokens tokens' => tokens'.map view = tokens.map view) (· = ·)
      ((scan lenient text).map (token :: ·)) ((scan lenient text').map (token' :: ·)) :=
  alike.map fun tokens tokens' others => by rw [List.map_cons, List.map_cons, same, others]

variable {swap : List Char → List Char → Prop}

/-- What comes after a part is read alike makes the part read alike. -/
def ReadsParts (view : Token → β) (lenient : Bool) (swap : List Char → List Char → Prop) : Prop :=
  ∀ ⦃part part' rest rest'⦄, swap part part' → startsWithLetter rest = false →
    startsWithLetter rest' = false → Respelled swap rest rest' →
    (∀ ⦃behind behind'⦄, Respelled swap behind behind' → behind.length ≤ rest.length →
      ReadAlike view lenient behind behind') →
    ReadAlike view lenient (part ++ rest) (part' ++ rest')

theorem exists_point {text : List Char} (point : text.head?.any (· == '.') = true) :
    ∃ behind, text = '.' :: behind := by
  cases text with
  | nil => cases point
  | cons c behind =>
      obtain rfl : c = '.' := beq_iff_eq.mp point
      exact ⟨behind, rfl⟩

/-- Numbers of the same value are read alike, and so are texts that go on with another point. -/
theorem readAlike_of_taken (apart : KeepsApart swap) {digits digits' : List Char}
    (taken : takeNumber? text = some (digits, rest))
    (taken' : takeNumber? text' = some (digits', rest'))
    (same : numberValue digits' = numberValue digits) (alike : Respelled swap rest rest')
    (ofRest : ReadAlike view lenient rest rest') : ReadAlike view lenient text text' := by
  have points := alike.any_head apart (p := (· == '.')) fun c unjoined =>
    beq_eq_false_iff_ne.mpr (joinsNumber_eq_false.mp unjoined).2.1
  cases point : rest.head?.any (· == '.') with
  | true =>
      rw [point] at points
      obtain ⟨behind, rfl⟩ := exists_point point
      obtain ⟨behind', rfl⟩ := exists_point points
      rw [ReadAlike, scan_of_point taken, scan_of_point taken']
      exact .error rfl
  | false =>
      rw [point] at points
      have other {text : List Char} (none : text.head?.any (· == '.') = false)
          (behind : List Char) : text ≠ '.' :: behind := by
        rintro rfl
        cases none
      rw [ReadAlike, scan_of_taken taken (other point), scan_of_taken taken' (other points)]
      exact ofRest.cons (congrArg (view ∘ number) same)

/-- The same character that is no letter and in no number is read alike. -/
theorem readAlike_cons {c : Char} (stops : isWordLetter c = false)
    (none : takeNumber? (c :: rest) = none) (none' : takeNumber? (c :: rest') = .none)
    (ofRest : ReadAlike view lenient rest rest') :
    ReadAlike view lenient (c :: rest) (c :: rest') := by
  rw [isWordLetter, Bool.or_eq_false_iff] at stops
  rw [ReadAlike, scan_cons none, scan_cons none', stops.1]
  cases ofChar? c with
  | some token => exact ofRest.cons rfl
  | none =>
      cases isBlank c with
      | true => exact ofRest
      | false =>
          cases lenient with
          | true => exact ofRest
          | false => exact .error rfl

/-- The same word is read alike, as a name or letter by letter. -/
theorem readAlike_word (apart : KeepsApart swap) {c : Char} {letters : List Char}
    (areLetters : ∀ d ∈ c :: letters, isWordLetter d = true) (ends : startsWithLetter rest = false)
    (ofRest : Respelled swap rest rest')
    (ih : ∀ ⦃behind behind'⦄, Respelled swap behind behind' →
      behind.length < (c :: letters ++ rest).length → ReadAlike view lenient behind behind') :
    ReadAlike view lenient (c :: letters ++ rest) (c :: letters ++ rest') := by
  obtain ⟨letter, others⟩ := List.forall_mem_cons.mp areLetters
  obtain ⟨_, point, _⟩ := joinsNumber_eq_false.mp (joinsNumber_of_isWordLetter letter)
  have digit := Respelled.isDigit_of_unjoined (joinsNumber_of_isWordLetter letter)
  have step (behind : List Char) :=
    @scan_cons lenient (letters ++ behind) c (takeNumber?_eq_none digit point)
  have behind := ih (.ofWord others ends ofRest) (Nat.lt_succ_self _)
  rw [ReadAlike, List.cons_append, List.cons_append, step, step]
  cases ofChar? c with
  | some token => exact behind.cons rfl
  | none =>
      cases isBlank c with
      | true => exact behind
      | false =>
          cases isLetter c with
          | true =>
              obtain ⟨same, alike⟩ := ofRest.takeName_alike apart c others ends
              have shorter := length_takeName c (letters ++ rest)
              have further := ih alike (Nat.lt_succ_of_le shorter)
              exact further.cons (congrArg (view ∘ ofName) same)
          | false =>
              cases lenient with
              | true => exact behind
              | false => exact .error rfl

/-- **Texts are read alike** if this is so where a part comes next. -/
theorem Respelled.readAlike (apart : KeepsApart swap) (marks : MarksAlike swap)
    (parts : ReadsParts view lenient swap) (respelled : Respelled swap text text') :
    ReadAlike view lenient text text' := by
  induction length : text.length using Nat.strong_induction_on generalizing text text' with
  | _ length ih =>
      subst length
      have ih {behind behind' : List Char} (alike : Respelled swap behind behind')
          (shorter : behind.length < text.length) : ReadAlike view lenient behind behind' :=
        ih behind.length shorter alike rfl
      have numbers := respelled.takeNumber?_alike apart marks
      cases taken : takeNumber? text with
      | some pair =>
          rw [taken] at numbers
          cases taken' : takeNumber? text' with
          | none =>
              rw [taken'] at numbers
              cases numbers
          | some pair' =>
              rw [taken'] at numbers
              obtain ⟨same, alike⟩ : numberValue pair'.1 = numberValue pair.1 ∧ _ := by
                cases numbers with
                | some both => exact both
              exact readAlike_of_taken apart taken taken' same alike
                (ih alike (length_takeNumber? taken))
      | none =>
          rw [taken] at numbers
          cases taken' : takeNumber? text' with
          | some pair' =>
              rw [taken'] at numbers
              cases numbers
          | none =>
              cases respelled with
              | nil =>
                  rw [ReadAlike, scan_nil]
                  exact .ok rfl
              | other stops ofRest =>
                  exact readAlike_cons stops taken taken' (ih ofRest (Nat.lt_succ_self _))
              | word nonempty areLetters ends ofRest =>
                  obtain ⟨c, letters, rfl⟩ := List.exists_cons_of_ne_nil nonempty
                  exact readAlike_word apart areLetters ends ofRest fun _ _ => ih
              | @swapped part _ rest _ given ends ofRest =>
                  have ends' := ofRest.startsWithLetter_eq_false apart ends
                  have some := List.length_pos_iff.mpr (apart.nonempty given)
                  refine parts given ends ends' ofRest fun _ _ alike shorter => ih alike ?_
                  rw [List.length_append]
                  omega

end Read

end Reckoner.Substitution
