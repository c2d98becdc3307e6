import Mathlib.Logic.Relation
import Reckoner.Proofs.Lexemes

/-!
# The places that a reader reaches

A strict reader goes through a text from one token or blank to the next
(`Reckoner.Token.Reaches`). Where every mark of an exponent lies inside a number that is read, a
text that is read is made of lexemes (`Reckoner.Token.lexemes_of_scan`).
-/

namespace Reckoner.Token

open Text Decimal Substitution

/-- What a strict reader goes on with after the first token or blank of a text. -/
inductive GoesOn : List Char → List Char → Prop
  | number {text digits rest : List Char} (taken : takeNumber? text = some (digits, rest)) :
      GoesOn text rest
  | symbol {c : Char} {token : Token} {text : List Char}
      (none : takeNumber? (c :: text) = none) (is : ofChar? c = some token) :
      GoesOn (c :: text) text
  | blank {c : Char} {text : List Char} (none : takeNumber? (c :: text) = none)
      (unknown : ofChar? c = .none) (isBlank : isBlank c = true) : GoesOn (c :: text) text
  | name {c : Char} {text : List Char} (none : takeNumber? (c :: text) = none)
      (unknown : ofChar? c = .none) (notBlank : isBlank c = false) (letter : isLetter c = true) :
      GoesOn (c :: text) (takeName c text).2

/-- A strict reader of the first text comes to the second one, which is what is left of it. -/
def Reaches : List Char → List Char → Prop :=
  Relation.ReflTransGen GoesOn

/-- Every mark of an exponent lies inside a number that the reader takes: wherever a digit or a
point, the mark and an optionally signed digit stand next to each other, the reader comes to a
number that starts before what follows the mark and ends after the mark. -/
def MarksRead (text : List Char) : Prop :=
  ∀ before mark after, text = before ++ mark :: after → mark = 'e' ∨ mark = 'E' →
    before.getLast?.any (fun c => c.isDigit || c == '.') = true → startsExponent after = true →
      ∃ start digits rest, Reaches text start ∧ takeNumber? start = some (digits, rest) ∧
        after.length < start.length ∧ rest.length ≤ after.length

/-- A text without marks of exponents has none outside of numbers. -/
theorem marksRead_of_unmarked {text : List Char} (unmarked : 'e' ∉ text ∧ 'E' ∉ text) :
    MarksRead text := by
  rintro before mark after rfl isMark
  rcases isMark with rfl | rfl
  · exact absurd (List.mem_append_right _ List.mem_cons_self) unmarked.1
  · exact absurd (List.mem_append_right _ List.mem_cons_self) unmarked.2

theorem GoesOn.unique {text first second : List Char} (toFirst : GoesOn text first)
    (toSecond : GoesOn text second) : first = second := by
  cases toFirst with
  | number taken =>
      cases toSecond with
      | number other =>
          rw [taken] at other
          cases other
          rfl
      | symbol none | blank none | name none =>
          rw [taken] at none
          cases none
  | symbol none is =>
      cases toSecond with
      | number taken =>
          rw [none] at taken
          cases taken
      | symbol | blank => rfl
      | name _ unknown =>
          rw [is] at unknown
          cases unknown
  | blank none unknown blank =>
      cases toSecond with
      | number taken =>
          rw [none] at taken
          cases taken
      | symbol | blank => rfl
      | name _ _ notBlank =>
          rw [blank] at notBlank
          cases notBlank
  | name none unknown notBlank letter =>
      cases toSecond with
      | number taken =>
          rw [none] at taken
          cases taken
      | symbol _ is =>
          rw [unknown] at is
          cases is
      | blank _ _ isBlank =>
          rw [notBlank] at isBlank
          cases isBlank
      | name => rfl

theorem GoesOn.length_lt {text rest : List Char} (goesOn : GoesOn text rest) :
    rest.length < text.length := by
  cases goesOn with
  | number taken => exact length_takeNumber? taken
  | symbol | blank => exact Nat.lt_succ_self _
  | @name c text => exact Nat.lt_succ_of_le (length_takeName c text)

theorem Reaches.length_le {text rest : List Char} (reaches : Reaches text rest) :
    rest.length ≤ text.length := by
  induction reaches with
  | refl => exact Nat.le_refl _
  | tail _ goesOn ih => exact Nat.le_trans (Nat.le_of_lt goesOn.length_lt) ih

/-- Of two places that are reached one is reached from the other. -/
theorem Reaches.total {text first second : List Char} (toFirst : Reaches text first)
    (toSecond : Reaches text second) : Reaches first second ∨ Reaches second first :=
  Relation.ReflTransGen.total_of_right_unique (fun _ _ _ => GoesOn.unique) toFirst toSecond

/-- A place inside of a number is not reached, unless a number starts there. -/
theorem Reaches.not_inside {text start digits rest place : List Char}
    (toStart : Reaches text start) (taken : takeNumber? start = some (digits, rest))
    (toPlace : Reaches text place) (none : takeNumber? place = none)
    (starts : place.length ≤ start.length) : place.length ≤ rest.length := by
  have different : start ≠ place := by
    rintro rfl
    rw [taken] at none
    cases none
  rcases toStart.total toPlace with forward | backward
  · rcases forward.cases_head with rfl | ⟨next, goesOn, further⟩
    · exact absurd rfl different
    · rw [goesOn.unique (.number taken)] at further
      exact Reaches.length_le further
  · rcases backward.cases_head with rfl | ⟨next, goesOn, further⟩
    · exact absurd rfl different
    · have shorter := goesOn.length_lt
      have := Reaches.length_le further
      omega

/-- No place that is reached starts with the mark of an exponent after a digit or a point. -/
theorem MarksRead.startsExponent_eq_false {whole before after : List Char} {mark : Char}
    (marks : MarksRead whole) (spelled : whole = before ++ mark :: after)
    (reached : Reaches whole (mark :: after)) (isMark : mark = 'e' ∨ mark = 'E')
    (follows : (lastOf none before).any (fun c => c.isDigit || c == '.') = true) :
    startsExponent after = false := by
  rw [← Bool.not_eq_true]
  intro starts
  have same : before.getLast? = lastOf none before := by
    clear spelled follows
    induction before using List.reverseRecOn with
    | nil => rfl
    | append_singleton before c _ =>
        rw [List.getLast?_concat, lastOf_append]
        rfl
  rw [← same] at follows
  obtain ⟨start, digits, rest, toStart, taken, before, ends⟩ :=
    marks _ mark after spelled isMark follows starts
  have none : takeNumber? (mark :: after) = none := by
    rcases isMark with rfl | rfl
    · exact takeNumber?_eq_none (by decide) (by decide)
    · exact takeNumber?_eq_none (by decide) (by decide)
  have inside := toStart.not_inside taken reached none before
  rw [List.length_cons] at inside
  omega

/-! ## Numbers that are taken -/

section Number

theorem takeDigits_eq (text : List Char) : (takeDigits text).1 ++ (takeDigits text).2 = text :=
  List.takeWhile_append_dropWhile

theorem takePoint_eq (text : List Char) : (takePoint text).1 ++ (takePoint text).2 = text := by
  unfold takePoint
  split
  · rw [List.cons_append, takeDigits_eq]
  · rfl

theorem takeExponent_eq (text : List Char) :
    (takeExponent text).1 ++ (takeExponent text).2 = text := by
  unfold takeExponent
  split
  · split
    · split
      · simp only [List.cons_append, takeDigits_eq]
      · split
        · simp only [List.cons_append, takeDigits_eq]
        · rfl
    · rfl
  · split <;> rfl
  · rfl

/-- The text does not start with a digit. -/
def Stops (text : List Char) : Prop :=
  ∀ c ∈ text.head?, isDecimalDigit c = false

theorem stops_takeDigits (text : List Char) : Stops (takeDigits text).2 :=
  ends_dropWhile text

theorem stops_takePoint {text : List Char} (stops : Stops text) : Stops (takePoint text).2 := by
  unfold takePoint
  split
  · exact stops_takeDigits _
  · exact stops

theorem stops_takeExponent {text : List Char} (stops : Stops text) :
    Stops (takeExponent text).2 := by
  unfold takeExponent
  split
  · split
    · split
      · exact stops_takeDigits _
      · split
        · exact stops_takeDigits _
        · exact stops
    · exact stops
  · split
    · exact nofun
    · exact stops
  · exact stops

variable {text digits rest : List Char}

/-- A number that is taken is the start of the text, and no digit follows it. -/
theorem takeNumber?_eq_some (taken : takeNumber? text = some (digits, rest)) :
    text = digits ++ rest ∧ Stops rest := by
  unfold takeNumber? at taken
  split at taken
  · cases taken
  · rename_i c text
    split at taken
    · cases taken
      have whole := takeDigits_eq text
      have point := takePoint_eq (takeDigits text).2
      have exponent := takeExponent_eq (takePoint (takeDigits text).2).2
      refine ⟨?_, stops_takeExponent (stops_takePoint (stops_takeDigits text))⟩
      simp only [takeAfterDigit, List.cons_append, List.append_assoc, exponent, point, whole]
    · split at taken
      · cases taken
        have fraction := takeDigits_eq text
        have exponent := takeExponent_eq (takeDigits text).2
        refine ⟨?_, stops_takeExponent (stops_takeDigits text)⟩
        simp only [takeAfterPoint, List.cons_append, List.append_assoc, exponent, fraction]
      · cases taken

end Number

/-! ## What is read is made of lexemes -/

theorem all_isDigit_of_ascii {digits : List Char} (ascii : IsAscii digits)
    (areDigits : digits.all isDecimalDigit = true) : digits.all Char.isDigit = true := by
  rw [List.all_eq_true] at areDigits ⊢
  intro c member
  rw [← isDecimalDigit_of_ascii (ascii c member)]
  exact areDigits c member

theorem isDecimal_of_ascii {decimal : List Char} (ascii : IsAscii decimal)
    (isDecimal : IsDecimal isDecimalDigit decimal) : IsDecimal Char.isDigit decimal := by
  cases isDecimal with
  | whole some areDigits => exact .whole some (all_isDigit_of_ascii ascii areDigits)
  | point some areWhole areFraction =>
      have first := fun c member => ascii c (List.mem_append_left _ member)
      have second := fun c member => ascii c (List.mem_append_right _ (List.mem_cons_of_mem _ member))
      exact .point some (all_isDigit_of_ascii first areWhole)
        (all_isDigit_of_ascii second areFraction)

theorem isPower_of_ascii {exponent : List Char} (ascii : IsAscii exponent)
    (isPower : IsPower isDecimalDigit exponent) : IsPower Char.isDigit exponent := by
  cases isPower with
  | none => exact .none
  | marked isMark isSign some areDigits =>
      have digits := fun c member =>
        ascii c (List.mem_cons_of_mem _ (List.mem_append_right _ member))
      exact .marked isMark isSign some (all_isDigit_of_ascii digits areDigits)

theorem startsWithLetter_of_stops {text : List Char} (ascii : IsAscii text)
    (ends : ∀ c ∈ text.head?, isLetter c = false) : startsWithLetter text = false := by
  cases text with
  | nil => rfl
  | cons c text =>
      have each := forall_ascii (p := fun c => isLetter c || !isWordLetter c) (by decide)
        (ascii c List.mem_cons_self)
      rw [ends c rfl, Bool.false_or, Bool.not_eq_true'] at each
      exact each

/-- A place that the reader of a text has come to: what it has read, and that no word goes on
there. -/
structure Place (whole consumed text : List Char) : Prop where
  spelled : whole = consumed ++ text
  ascii : IsAscii text
  reached : Reaches whole text
  apart : (lastOf none consumed).any isWordLetter = true → startsWithLetter text = false

section Place

variable {whole consumed text : List Char}

/-- The reader goes on to the next place. -/
theorem Place.next (place : Place whole consumed text) {lexeme rest : List Char}
    (spelled : text = lexeme ++ rest) (goesOn : GoesOn text rest)
    (apart : (lastOf none (consumed ++ lexeme)).any isWordLetter = true →
      startsWithLetter rest = false) : Place whole (consumed ++ lexeme) rest := by
  refine ⟨by rw [place.spelled, spelled, List.append_assoc], ?_, place.reached.tail goesOn, apart⟩
  intro c member
  exact place.ascii c (by rw [spelled]; exact List.mem_append_right _ member)

/-- No name starts inside of a word. -/
theorem Place.any_isWordLetter (place : Place whole consumed text)
    (starts : startsWithLetter text = true) : (lastOf none consumed).any isWordLetter = false := by
  rw [← Bool.not_eq_true]
  intro inside
  rw [place.apart inside] at starts
  cases starts

theorem isExponentMark_eq_false {before : Option Char} {word rest : List Char}
    (none : ∀ mark, word = [mark] → mark = 'e' ∨ mark = 'E' →
      before.any (fun c => c.isDigit || c == '.') = true → startsExponent rest = false) :
    isExponentMark before word rest = false := by
  cases before with
  | none => exact Bool.and_false _
  | some c =>
      rw [isExponentMark, ← Bool.not_eq_true]
      intro marks
      simp only [Bool.and_eq_true, Bool.or_eq_true, beq_iff_eq] at marks
      obtain ⟨⟨isMark, starts⟩, follows⟩ := marks
      have follows : (some c).any (fun c => c.isDigit || c == '.') = true := by
        simpa using follows
      have stops : startsExponent rest = false := by
        rcases isMark with is | is
        · exact none 'e' is (.inl rfl) follows
        · exact none 'E' is (.inr rfl) follows
      rw [starts] at stops
      cases stops

theorem any_isWordLetter_of_number {before : Option Char}
    (is : before.any (fun c => c.isDigit || c == '.') = true) :
    before.any isWordLetter = false := by
  cases before with
  | none => rfl
  | some c => exact isWordLetter_of_number is

/-- A number that is taken at a place is one of the lexemes, and the reader goes on after it. -/
theorem lexemes_number (marks : MarksRead whole) (place : Place whole consumed text)
    {digits rest : List Char} (taken : takeNumber? text = some (digits, rest))
    (pointless : ∀ tail, rest ≠ '.' :: tail) :
    Place whole (consumed ++ digits) rest ∧ ∀ tokens,
      Lexemes (lastOf none (consumed ++ digits)) rest tokens →
        Lexemes (lastOf none consumed) text (number (numberValue digits) :: tokens) := by
  obtain ⟨spelled, stops⟩ := takeNumber?_eq_some taken
  obtain ⟨decimal, exponent, rfl, isDecimal, isPower⟩ := isDecimal_of_takeNumber? taken
  have ascii : IsAscii (decimal ++ exponent) := by
    intro c member
    apply place.ascii
    rw [spelled]
    exact List.mem_append_left _ member
  have isDecimal := isDecimal_of_ascii (fun c member => ascii c (List.mem_append_left _ member))
    isDecimal
  have isPower := isPower_of_ascii (fun c member => ascii c (List.mem_append_right _ member))
    isPower
  have last := @lastOf_number (lastOf none consumed) _ _ isDecimal isPower
  rw [← lastOf_append] at last
  have next : Place whole (consumed ++ (decimal ++ exponent)) rest := by
    apply place.next spelled (.number taken)
    intro inside
    rw [any_isWordLetter_of_number last] at inside
    cases inside
  have ends : NumberEnds rest := by
    refine ⟨fun c is => ⟨stops c is, ?_⟩, ?_⟩
    · rintro rfl
      cases rest with
      | nil => cases is
      | cons d rest =>
          cases is
          exact pointless rest rfl
    · rintro mark after rfl isMark
      exact marks.startsExponent_eq_false next.spelled next.reached isMark last
  refine ⟨next, fun tokens ofRest => ?_⟩
  rw [lastOf_append] at ofRest
  rw [spelled]
  exact .number isDecimal isPower ends ofRest

theorem any_isWordLetter_of_digits {before : Option Char} {digits : List Char}
    (some : digits ≠ []) (areDigits : digits.all Char.isDigit = true) :
    (lastOf before digits).any isWordLetter = false := by
  cases digits with
  | nil => exact absurd rfl some
  | cons first digits =>
      rw [List.all_cons, Bool.and_eq_true] at areDigits
      have last := @any_lastOf Char.isDigit (.some first) digits areDigits.1 areDigits.2
      change (lastOf (.some first) digits).any isWordLetter = false
      cases is : lastOf (.some first) digits with
      | none => rfl
      | some c =>
          rw [is] at last
          exact isWordLetter_of_isDigit last

section Name

variable {c : Char} {letters rest : List Char}

/-- A function with digits at a place is one of the lexemes. -/
theorem lexemes_numbered (place : Place whole consumed (c :: (letters ++ rest)))
    (isWord : IsWord (c :: letters)) (some : rest.takeWhile Char.isDigit ≠ [])
    (known : (NamedFunction.ofName?
      (String.ofList (c :: letters ++ rest.takeWhile Char.isDigit))).isSome = true)
    (goesOn : GoesOn (c :: (letters ++ rest)) (rest.dropWhile Char.isDigit))
    (apart : (lastOf none consumed).any isWordLetter = false) :
    Place whole (consumed ++ (c :: letters ++ rest.takeWhile Char.isDigit))
        (rest.dropWhile Char.isDigit) ∧ ∀ tokens,
      Lexemes (lastOf none (consumed ++ (c :: letters ++ rest.takeWhile Char.isDigit)))
          (rest.dropWhile Char.isDigit) tokens →
        Lexemes (lastOf none consumed) (c :: (letters ++ rest))
          (ofName (c :: letters ++ rest.takeWhile Char.isDigit) :: tokens) := by
  have cut := List.takeWhile_append_dropWhile (p := Char.isDigit) (l := rest)
  have areDigits : (rest.takeWhile Char.isDigit).all Char.isDigit = true := List.all_takeWhile
  have stops := List.head?_dropWhile_not Char.isDigit rest
  generalize rest.takeWhile Char.isDigit = digits at *
  generalize rest.dropWhile Char.isDigit = following at *
  subst cut
  have spelled : c :: (letters ++ (digits ++ following)) =
      c :: letters ++ digits ++ following := by
    simp only [List.cons_append, List.append_assoc]
  have next : Place whole (consumed ++ (c :: letters ++ digits)) following := by
    apply place.next spelled goesOn
    intro inside
    rw [lastOf_append, lastOf_append, any_isWordLetter_of_digits some areDigits] at inside
    cases inside
  refine ⟨next, fun tokens ofRest => ?_⟩
  rw [lastOf_append] at ofRest
  rw [spelled]
  refine .numbered isWord some areDigits known apart ?_ ofRest
  intro d is
  rwa [show following.head? = .some d from is] at stops

/-- A word at a place is one of the lexemes. -/
theorem lexemes_word (marks : MarksRead whole)
    (place : Place whole consumed (c :: (letters ++ rest))) (isWord : IsWord (c :: letters))
    (ends : startsWithLetter rest = false)
    (alone : rest.takeWhile Char.isDigit ≠ [] → NamedFunction.ofName?
      (String.ofList (c :: letters ++ rest.takeWhile Char.isDigit)) = none)
    (goesOn : GoesOn (c :: (letters ++ rest)) rest)
    (apart : (lastOf none consumed).any isWordLetter = false) :
    Place whole (consumed ++ (c :: letters)) rest ∧ ∀ tokens,
      Lexemes (lastOf none (consumed ++ (c :: letters))) rest tokens →
        Lexemes (lastOf none consumed) (c :: (letters ++ rest))
          (ofName (c :: letters) :: tokens) := by
  refine ⟨place.next rfl goesOn fun _ => ends, fun tokens ofRest => ?_⟩
  rw [lastOf_append] at ofRest
  refine .word isWord apart ends alone ?_ ofRest
  apply isExponentMark_eq_false
  intro mark is isMark follows
  cases is
  exact marks.startsExponent_eq_false place.spelled place.reached isMark follows

end Name

/-- The name at a place is one of the lexemes, and the reader goes on after it. -/
theorem lexemes_name (marks : MarksRead whole) {c : Char}
    (place : Place whole consumed (c :: text)) (letter : isLetter c = true)
    (goesOn : GoesOn (c :: text) (takeName c text).2) :
    Place whole (consumed ++ (takeName c text).1) (takeName c text).2 ∧ ∀ tokens,
      Lexemes (lastOf none (consumed ++ (takeName c text).1)) (takeName c text).2 tokens →
        Lexemes (lastOf none consumed) (c :: text) (ofName (takeName c text).1 :: tokens) := by
  have ascii := place.ascii
  have isAlpha : c.isAlpha = true := by
    rw [← isLetter_of_ascii (ascii c List.mem_cons_self)]
    exact letter
  have apart := place.any_isWordLetter (isWordLetter_of_isLetter letter)
  have cut := List.takeWhile_append_dropWhile (p := isLetter) (l := text)
  have areLetters : (text.takeWhile isLetter).all isLetter = true := List.all_takeWhile
  have stops := List.head?_dropWhile_not isLetter text
  generalize text.takeWhile isLetter = letters at cut areLetters
  generalize text.dropWhile isLetter = rest at cut stops
  subst cut
  have ends : startsWithLetter rest = false := by
    apply startsWithLetter_of_stops
    · intro d member
      exact ascii d (List.mem_cons_of_mem _ (List.mem_append_right _ member))
    · intro d is
      rwa [show rest.head? = some d from is] at stops
  have areLetters : letters.all Char.isAlpha = true := by
    rw [List.all_eq_true] at areLetters ⊢
    intro d member
    rw [← isLetter_of_ascii (ascii d (List.mem_cons_of_mem _ (List.mem_append_left _ member)))]
    exact areLetters d member
  have isWord : IsWord (c :: letters) := ⟨nofun, all_cons_of_all isAlpha areLetters⟩
  rw [takeName_word areLetters ends] at goesOn ⊢
  by_cases known : (!(rest.takeWhile Char.isDigit).isEmpty && (NamedFunction.ofName?
      (String.ofList (c :: letters ++ rest.takeWhile Char.isDigit))).isSome) = true
  · rw [if_pos known] at goesOn ⊢
    rw [Bool.and_eq_true, Bool.not_eq_true', List.isEmpty_eq_false_iff] at known
    exact lexemes_numbered place isWord known.1 known.2 goesOn apart
  · rw [if_neg known] at goesOn ⊢
    rw [Bool.and_eq_true, Bool.not_eq_true', List.isEmpty_eq_false_iff, not_and, Bool.not_eq_true,
      Option.isSome_eq_false_iff, Option.isNone_iff_eq_none] at known
    exact lexemes_word marks place isWord ends known goesOn apart

/-- A text that is read from a place on is made of lexemes. -/
theorem lexemes_of_place (marks : MarksRead whole) {tokens : List Token}
    (place : Place whole consumed text) (scanned : scan false text = .ok tokens) :
    Lexemes (lastOf none consumed) text tokens := by
  fun_induction scan false text generalizing consumed tokens with
  | case1 => cases scanned
  | case2 text digits rest pointless taken _ ih =>
      obtain ⟨following, further, rfl⟩ := Outcome.map_eq_ok.mp scanned
      obtain ⟨next, lexemes⟩ := lexemes_number marks place taken pointless
      exact lexemes following (ih next further)
  | case3 =>
      cases scanned
      exact .nil
  | case4 c text none token is ih =>
      obtain ⟨following, further, rfl⟩ := Outcome.map_eq_ok.mp scanned
      have ascii := place.ascii c List.mem_cons_self
      have next : Place whole (consumed ++ [c]) text := by
        apply place.next rfl (.symbol none is)
        intro inside
        rw [lastOf_append] at inside
        change isWordLetter c = true at inside
        rw [isWordLetter_of_isBoundary (isBoundary_of_ascii ascii is)] at inside
        cases inside
      have ofRest := ih next further
      rw [lastOf_append] at ofRest
      exact .symbol ascii is ofRest
  | case5 c text none unknown blank ih =>
      have next : Place whole (consumed ++ [c]) text := by
        apply place.next rfl (.blank none unknown blank)
        intro inside
        rw [lastOf_append] at inside
        change isWordLetter c = true at inside
        rw [isWordLetter_of_isBoundary (isBoundary_of_isBlank blank)] at inside
        cases inside
      have ofRest := ih next scanned
      rw [lastOf_append] at ofRest
      exact .blank blank ofRest
  | case6 c text none unknown notBlank letter _ ih =>
      obtain ⟨following, further, rfl⟩ := Outcome.map_eq_ok.mp scanned
      have goesOn : GoesOn (c :: text) (takeName c text).2 :=
        .name none unknown (Bool.not_eq_true _ ▸ notBlank) letter
      obtain ⟨next, lexemes⟩ := lexemes_name marks place letter goesOn
      exact lexemes following (ih next further)
  | case7 _ _ _ _ _ _ strict => cases strict
  | case8 => cases scanned

/-- **An ASCII text that is read is made of lexemes**, if every mark of an exponent is read as one. -/
theorem lexemes_of_scan {text : List Char} (ascii : IsAscii text) (marks : MarksRead text)
    {tokens : List Token} (scanned : scan false text = .ok tokens) :
    Lexemes none text tokens :=
  @lexemes_of_place text [] text marks tokens ⟨rfl, ascii, .refl, nofun⟩ scanned

end Place

end Reckoner.Token
