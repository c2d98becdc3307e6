import Reckoner.Proofs.Reaching

/-!
# What is taken in front of a blank

Whether a number or a name goes on depends on the characters behind it, up to three of them where
an exponent may follow. A blank ends both. So where a number or a name ends before some place of a
text, it is the same one in the text that has a blank at that place
(`Reckoner.Token.takeNumber?_before_blank`, `Reckoner.Token.takeName_before_blank`).
-/

namespace Reckoner.Token

open Text Substitution

/-- The text is at its end, or a blank comes next. -/
def AtBlank (text : List Char) : Prop :=
  ∀ c ∈ text.head?, isBlank c = true

theorem AtBlank.atBoundary {text : List Char} (blank : AtBlank text) : AtBoundary text :=
  fun c is => isBoundary_of_isBlank (blank c is)

variable {taken rest tail other : List Char}

/-- What holds of every blank, and of the character that comes next, also holds of a blank there. -/
theorem head_before_blank {p : Char → Prop} (ofBlank : ∀ c, isBlank c = true → p c)
    (ends : ∀ c ∈ (rest ++ tail).head?, p c) (blank : AtBlank other) :
    ∀ c ∈ (rest ++ other).head?, p c := by
  cases rest with
  | nil => exact fun c is => ofBlank c (blank c is)
  | cons c rest => exact ends

/-! ## Parts of numbers -/

/-- A text is split into what is taken and what follows. What is taken of a text before some place
is still taken if a blank comes at that place. -/
structure IsLocal (take : List Char → List Char × List Char) : Prop where
  splits : ∀ text, (take text).1 ++ (take text).2 = text
  before_blank : ∀ {taken rest tail other : List Char}, AtBlank other →
    take (taken ++ (rest ++ tail)) = (taken, rest ++ tail) →
      take (taken ++ (rest ++ other)) = (taken, rest ++ other)

/-- Two parts are taken one after the other. -/
theorem IsLocal.append {first second : List Char → List Char × List Char}
    (ofFirst : IsLocal first) (ofSecond : IsLocal second) :
    IsLocal fun text =>
      ((first text).1 ++ (second (first text).2).1, (second (first text).2).2) := by
  refine ⟨fun text => ?_, fun {taken rest tail other} blank is => ?_⟩
  · rw [List.append_assoc, ofSecond.splits, ofFirst.splits]
  · obtain ⟨both, behind⟩ := Prod.mk.inj is
    have whole := ofFirst.splits (taken ++ (rest ++ tail))
    have ofRest := ofSecond.splits (first (taken ++ (rest ++ tail))).2
    obtain ⟨⟨part, middle⟩, ofText⟩ : ∃ pair, first (taken ++ (rest ++ tail)) = pair := ⟨_, rfl⟩
    rw [ofText] at both behind whole ofRest
    obtain ⟨⟨more, last⟩, ofMiddle⟩ : ∃ pair, second middle = pair := ⟨_, rfl⟩
    rw [ofMiddle] at both behind ofRest
    dsimp only at both behind whole ofRest
    subst both behind ofRest
    rw [List.append_assoc, ← List.append_assoc more] at ofText
    have firstTaken := ofFirst.before_blank blank ofText
    have secondTaken := ofSecond.before_blank blank ofMiddle
    rw [List.append_assoc] at firstTaken
    rw [List.append_assoc, firstTaken, secondTaken]

theorem isLocal_takeDigits : IsLocal takeDigits := by
  refine ⟨takeDigits_eq, fun {taken rest tail other} blank is => ?_⟩
  have all : ∀ c ∈ taken, isDecimalDigit c = true := by
    have front : (taken ++ (rest ++ tail)).takeWhile isDecimalDigit = taken :=
      congrArg Prod.fst is
    rw [← front]
    exact List.all_eq_true.mp List.all_takeWhile
  have stops := stops_takeDigits (taken ++ (rest ++ tail))
  rw [is] at stops
  have ends := head_before_blank
    (fun c blank => isDecimalDigit_of_isBoundary (isBoundary_of_isBlank blank)) stops blank
  rw [takeDigits, takeWhile_append_of_ends all ends, dropWhile_append_of_ends all ends]

theorem isLocal_takePoint : IsLocal takePoint := by
  refine ⟨takePoint_eq, fun {taken rest tail other} blank is => ?_⟩
  cases taken with
  | nil =>
      have ends : ∀ c ∈ (rest ++ tail).head?, c ≠ '.' := by
        rintro c head rfl
        obtain ⟨behind, point⟩ := List.head?_eq_some_iff.mp head
        rw [List.nil_append, point] at is
        cases congrArg Prod.fst is
      rw [List.nil_append]
      exact takePoint_of_head (head_before_blank
        (fun c blank => ne_point_of_isBoundary (isBoundary_of_isBlank blank)) ends blank)
  | cons c taken =>
      rw [List.cons_append] at is ⊢
      by_cases point : c = '.'
      · subst point
        obtain ⟨front, behind⟩ := Prod.mk.inj is
        have digits : takeDigits (taken ++ (rest ++ tail)) = (taken, rest ++ tail) :=
          Prod.ext (List.cons.inj front).2 behind
        rw [takePoint, isLocal_takeDigits.before_blank blank digits]
      · have ends : ∀ d ∈ (c :: (taken ++ (rest ++ tail))).head?, d ≠ '.' := by
          rintro d ⟨⟩
          exact point
        rw [takePoint_of_head ends] at is
        cases congrArg Prod.fst is

/-- An exponent starts with a digit or with a sign and a digit. -/
theorem startsExponent_iff {text : List Char} : startsExponent text = true ↔
    ∃ sign digit rest, text = sign ++ digit :: rest ∧
      (sign = [] ∨ sign = ['+'] ∨ sign = ['-']) ∧ isDecimalDigit digit = true := by
  constructor
  · intro starts
    unfold startsExponent at starts
    split at starts
    · exact ⟨['+'], _, _, rfl, .inr (.inl rfl), starts⟩
    · exact ⟨['-'], _, _, rfl, .inr (.inr rfl), starts⟩
    · exact ⟨[], _, _, rfl, .inl rfl, starts⟩
    · cases starts
  · rintro ⟨sign, digit, rest, rfl, rfl | rfl | rfl, isDigit⟩
    · exact startsExponent_of_isDecimalDigit isDigit rest
    · exact isDigit
    · exact isDigit

/-- No exponent starts in front of a blank that did not start there. -/
theorem startsExponent_before_blank (blank : AtBlank other)
    (stops : startsExponent (rest ++ tail) = false) : startsExponent (rest ++ other) = false := by
  rw [← Bool.not_eq_true] at stops ⊢
  intro starts
  obtain ⟨sign, digit, more, split, isSign, isDigit⟩ := startsExponent_iff.mp starts
  have notNext {behind : List Char} : other ≠ digit :: behind := by
    rintro rfl
    rw [isDecimalDigit_of_isBoundary (blank.atBoundary digit rfl)] at isDigit
    cases isDigit
  rcases List.append_eq_append_iff.mp split with
    ⟨behindRest, ofSign, ofOther⟩ | ⟨behindSign, ofRest, ofDigit⟩
  · cases behindRest with
    | nil => exact notNext ofOther
    | cons c behindRest =>
        have visible : isBlank c = false := by
          have member : c ∈ sign := ofSign ▸ List.mem_append_right _ List.mem_cons_self
          rcases isSign with rfl | rfl | rfl
          · cases member
          · rw [List.mem_singleton.mp member]
            decide
          · rw [List.mem_singleton.mp member]
            decide
        rw [blank c (by rw [ofOther]; rfl)] at visible
        cases visible
  · cases behindSign with
    | nil => exact notNext ofDigit.symm
    | cons c behindSign =>
        obtain ⟨rfl, -⟩ := List.cons.inj ofDigit
        refine stops (startsExponent_iff.mpr ⟨sign, digit, behindSign ++ tail, ?_, isSign, isDigit⟩)
        rw [ofRest, List.append_assoc, List.cons_append]

/-- No exponent is taken where none starts. -/
theorem unmarked_of_takeExponent {text : List Char} (none : takeExponent text = ([], text)) :
    ∀ mark rest, text = mark :: rest → mark = 'e' ∨ mark = 'E' → startsExponent rest = false := by
  rintro mark rest rfl isMark
  rw [← Bool.not_eq_true]
  intro starts
  obtain ⟨sign, digit, more, rfl, isSign, isDigit⟩ := startsExponent_iff.mp starts
  rw [takeExponent_marked isMark isSign isDigit] at none
  cases congrArg Prod.fst none

theorem isLocal_takeExponent : IsLocal takeExponent := by
  refine ⟨takeExponent_eq, fun {taken rest tail other} blank is => ?_⟩
  cases taken with
  | nil =>
      rw [List.nil_append] at is ⊢
      have unmarked := unmarked_of_takeExponent is
      refine takeExponent_unmarked fun mark behind same isMark => ?_
      cases rest with
      | nil =>
          rw [List.nil_append] at same
          have stops := not_mark_of_isBoundary (blank.atBoundary mark (by rw [same]; rfl))
          rw [Bool.or_eq_false_iff, beq_eq_false_iff_ne, beq_eq_false_iff_ne] at stops
          exact absurd isMark (not_or.mpr stops)
      | cons c rest =>
          obtain ⟨rfl, rfl⟩ := List.cons.inj same
          exact startsExponent_before_blank blank (unmarked c _ rfl isMark)
  | cons mark taken =>
      rw [List.cons_append] at is ⊢
      have marked : (mark = 'e' ∨ mark = 'E') ∧
          startsExponent (taken ++ (rest ++ tail)) = true := by
        by_contra unmarked
        rw [takeExponent_unmarked] at is
        · cases congrArg Prod.fst is
        · rintro c behind ⟨⟩ isMark
          rw [← Bool.not_eq_true]
          exact fun starts => unmarked ⟨isMark, starts⟩
      obtain ⟨sign, digit, more, split, isSign, isDigit⟩ := startsExponent_iff.mp marked.2
      rw [split, takeExponent_marked marked.1 isSign isDigit] at is
      obtain ⟨front, behind⟩ := Prod.mk.inj is
      obtain rfl := (List.cons.inj front).2
      have digits : takeDigits ((takeDigits more).1 ++ (rest ++ tail)) =
          ((takeDigits more).1, rest ++ tail) := by
        rw [← behind, takeDigits_eq]
      rw [List.append_assoc, List.cons_append, takeExponent_marked marked.1 isSign isDigit,
        isLocal_takeDigits.before_blank blank digits]

theorem isLocal_takeAfterPoint : IsLocal takeAfterPoint :=
  isLocal_takeDigits.append isLocal_takeExponent

theorem isLocal_takeAfterDigit : IsLocal takeAfterDigit :=
  (isLocal_takeDigits.append isLocal_takePoint).append isLocal_takeExponent

/-! ## Numbers and names -/

/-- A number before some place is still the number there if a blank comes at that place. -/
theorem takeNumber?_before_blank (blank : AtBlank other)
    (is : takeNumber? (taken ++ (rest ++ tail)) = some (taken, rest ++ tail)) :
    takeNumber? (taken ++ (rest ++ other)) = some (taken, rest ++ other) := by
  have shorter := length_takeNumber? is
  have stops := (takeNumber?_eq_some is).2
  cases taken with
  | nil => exact absurd shorter (Nat.lt_irrefl _)
  | cons c taken =>
      rw [List.cons_append, takeNumber?] at is ⊢
      by_cases digit : c.isDigit = true
      · rw [if_pos digit, Option.some.injEq, Prod.mk.injEq] at is
        have number : takeAfterDigit (taken ++ (rest ++ tail)) = (taken, rest ++ tail) :=
          Prod.ext (List.cons.inj is.1).2 is.2
        rw [if_pos digit, isLocal_takeAfterDigit.before_blank blank number]
      · rw [if_neg digit] at is ⊢
        by_cases point : (c == '.' && (taken ++ (rest ++ tail)).head?.any Char.isDigit) = true
        · rw [if_pos point, Option.some.injEq, Prod.mk.injEq] at is
          have number : takeAfterPoint (taken ++ (rest ++ tail)) = (taken, rest ++ tail) :=
            Prod.ext (List.cons.inj is.1).2 is.2
          cases taken with
          | nil =>
              rw [Bool.and_eq_true, List.nil_append, Option.any_eq_true] at point
              obtain ⟨d, head, digit⟩ := point.2
              have none := stops d head
              rw [isDecimalDigit_of_isDigit digit] at none
              cases none
          | cons d taken =>
              have point : (c == '.' && (d :: taken ++ (rest ++ other)).head?.any Char.isDigit) =
                  true := point
              rw [if_pos point, isLocal_takeAfterPoint.before_blank blank number]
        · rw [if_neg point] at is
          cases is

/-- The digits in front of something else are the same ones in front of a blank. -/
theorem takeWhile_isDigit_before_blank (blank : AtBlank other)
    (stops : ∀ c ∈ tail.head?, c.isDigit = false) :
    (rest ++ other).takeWhile Char.isDigit = (rest ++ tail).takeWhile Char.isDigit := by
  have none {behind : List Char} (stops : ∀ c ∈ behind.head?, c.isDigit = false) :
      behind.takeWhile Char.isDigit = [] := by
    cases behind with
    | nil => rfl
    | cons c behind => exact List.takeWhile_cons_of_neg (Bool.eq_false_iff.mp (stops c rfl))
  have ends : ∀ c ∈ other.head?, c.isDigit = false :=
    fun c is => isDigit_of_isBoundary (blank.atBoundary c is)
  rw [List.takeWhile_append, List.takeWhile_append, none stops, none ends]

/-- A name before some place where no digit stands is still the name there if a blank comes at that
place. -/
theorem takeName_before_blank {first : Char} (blank : AtBlank other)
    (stops : ∀ c ∈ tail.head?, c.isDigit = false)
    (is : takeName first (taken ++ (rest ++ tail)) = (first :: taken, rest ++ tail)) :
    takeName first (taken ++ (rest ++ other)) = (first :: taken, rest ++ other) := by
  obtain ⟨letters, behind, split, areLetters, ends⟩ : ∃ letters behind,
      taken ++ (rest ++ tail) = letters ++ behind ∧ letters.all isLetter = true ∧
        ∀ c ∈ behind.head?, isLetter c = false := by
    exact ⟨_, _, List.takeWhile_append_dropWhile.symm, List.all_takeWhile, ends_dropWhile _⟩
  rw [split, takeName_letters areLetters ends] at is
  split at is
  case isTrue known =>
    obtain ⟨front, left⟩ := Prod.mk.inj is
    obtain rfl : letters ++ behind.takeWhile Char.isDigit = taken := (List.cons.inj front).2
    have digitsEnd := ends_dropWhile (p := Char.isDigit) behind
    rw [left] at digitsEnd
    have digitsEnd := head_before_blank
      (fun c blank => isDigit_of_isBoundary (isBoundary_of_isBlank blank)) digitsEnd blank
    rw [List.append_assoc, takeName_known areLetters List.all_takeWhile digitsEnd known]
    rfl
  case isFalse unknown =>
    obtain ⟨front, rfl⟩ := Prod.mk.inj is
    obtain rfl : letters = taken := (List.cons.inj front).2
    have ends := head_before_blank
      (fun c blank => isLetter_of_isBoundary (isBoundary_of_isBlank blank)) ends blank
    rw [takeName_letters areLetters ends, takeWhile_isDigit_before_blank blank stops,
      if_neg unknown]

end Reckoner.Token
