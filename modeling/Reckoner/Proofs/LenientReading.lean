import Reckoner.Proofs.Lookahead

/-!
# Lenient reading

A lenient reader skips the characters that a strict one refuses. It reads what the strict reader
reads in the text with a blank in the place of each refused character, one after the other
(`Reckoner.Token.scan_lenient`). A blank keeps what stands before it from going on, so no token in
front of the refused character changes: the reader goes the same steps up to that place.
-/

namespace Reckoner.Token

open Outcome Text

/-! ## Steps of a reader -/

theorem isDigit_of_takeNumber?_none {c : Char} {text : List Char}
    (none : takeNumber? (c :: text) = none) : c.isDigit = false := by
  rw [← Bool.not_eq_true]
  intro digit
  rw [takeNumber?, if_pos digit] at none
  cases none

/-- A name that is taken is the start of the text. -/
theorem exists_takeName (first : Char) (text : List Char) : ∃ letters,
    takeName first text = (first :: letters, (takeName first text).2) ∧
      text = letters ++ (takeName first text).2 := by
  unfold takeName
  dsimp only
  split
  · refine ⟨text.takeWhile isLetter ++ (text.dropWhile isLetter).takeWhile Char.isDigit, rfl, ?_⟩
    rw [List.append_assoc, List.takeWhile_append_dropWhile, List.takeWhile_append_dropWhile]
  · exact ⟨text.takeWhile isLetter, rfl, List.takeWhile_append_dropWhile.symm⟩

theorem map_append (first second : List Token) (outcome : Except Cause (List Token)) :
    (outcome.map (second ++ ·)).map (first ++ ·) = outcome.map (first ++ second ++ ·) := by
  cases outcome with
  | error cause => rfl
  | ok tokens => exact congrArg Except.ok (List.append_assoc ..).symm

variable {text rest : List Char}

/-- The reader takes the same step if a blank comes at a later place, where no digit stands. -/
theorem GoesOn.exists_tokens (goesOn : GoesOn text rest)
    (pointless : scan false text ≠ .error .repeatedPoint) :
    ∃ lexeme tokens, text = lexeme ++ rest ∧
      ∀ part tail other, rest = part ++ tail → (∀ c ∈ tail.head?, c.isDigit = false) →
        AtBlank other → ∀ lenient, scan lenient (lexeme ++ (part ++ other)) =
          (scan lenient (part ++ other)).map (tokens ++ ·) := by
  cases goesOn with
  | @number _ digits _ taken =>
      obtain ⟨rfl, _⟩ := takeNumber?_eq_some taken
      refine ⟨digits, [.number (numberValue digits)], rfl, ?_⟩
      rintro part tail other rfl _ blank lenient
      have ends : ∀ c ∈ (part ++ tail).head?, c ≠ '.' := by
        rintro c head rfl
        obtain ⟨behind, point⟩ := List.head?_eq_some_iff.mp head
        rw [point] at taken
        exact pointless (by rw [point]; exact scan_of_point taken)
      have ends := head_before_blank
        (fun c blank => ne_point_of_isBoundary (isBoundary_of_isBlank blank)) ends blank
      apply scan_of_taken (takeNumber?_before_blank blank taken)
      intro behind point
      exact ends '.' (by rw [point]; rfl) rfl
  | @symbol c token text none is =>
      refine ⟨[c], [token], rfl, ?_⟩
      rintro part tail other rfl _ blank lenient
      have notPoint : c ≠ '.' := by
        rintro rfl
        cases is
      have notDigit := isDigit_of_takeNumber?_none none
      have none := @takeNumber?_eq_none (part ++ other) c notDigit notPoint
      rw [List.singleton_append, scan_cons none, is]
      rfl
  | @blank c text none unknown isBlank =>
      refine ⟨[c], [], rfl, ?_⟩
      rintro part tail other rfl _ blank lenient
      rw [List.singleton_append, scan_blank isBlank]
      cases scan lenient (part ++ other) <;> rfl
  | @name c text none unknown notBlank letter =>
      obtain ⟨letters, taken, split⟩ := exists_takeName c text
      generalize (takeName c text).2 = rest at taken split
      subst split
      refine ⟨c :: letters, [ofName (c :: letters)], rfl, ?_⟩
      rintro part tail other rfl stops blank lenient
      rw [List.cons_append, scan_letter letter unknown, takeName_before_blank blank stops taken]
      rfl

/-- The reader takes the same steps up to a place if a blank comes at that place, where no digit
stands. -/
theorem Reaches.exists_tokens {place : List Char} (reaches : Reaches text place)
    (stops : ∀ c ∈ place.head?, c.isDigit = false)
    (pointless : scan false text ≠ .error .repeatedPoint) :
    ∃ before tokens, text = before ++ place ∧
      ∀ other, other = place ∨ AtBlank other → ∀ lenient,
        scan lenient (before ++ other) = (scan lenient other).map (tokens ++ ·) := by
  induction reaches using Relation.ReflTransGen.head_induction_on with
  | refl =>
      refine ⟨[], [], rfl, fun other _ lenient => ?_⟩
      rw [List.nil_append]
      cases scan lenient other <;> rfl
  | @head text next goesOn _ ih =>
      obtain ⟨lexeme, tokens, rfl, same⟩ := goesOn.exists_tokens pointless
      have whole (lenient : Bool) : scan lenient (lexeme ++ next) =
          (scan lenient next).map (tokens ++ ·) := by
        have atEnd := same next [] [] (List.append_nil next).symm nofun nofun lenient
        rwa [List.append_nil] at atEnd
      have pointless : scan false next ≠ .error .repeatedPoint := by
        intro failed
        rw [whole false, failed] at pointless
        exact pointless rfl
      obtain ⟨before, others, rfl, further⟩ := ih pointless
      refine ⟨lexeme ++ before, tokens ++ others, (List.append_assoc ..).symm, ?_⟩
      intro other comes lenient
      have step : scan lenient (lexeme ++ (before ++ other)) =
          (scan lenient (before ++ other)).map (tokens ++ ·) := by
        rcases comes with rfl | blank
        · exact whole lenient
        · exact same before place other rfl stops blank lenient
      rw [List.append_assoc, step, further other comes lenient, map_append]

/-! ## The refused character -/

/-- A strict reader does not go on. -/
def Stuck (text : List Char) : Prop :=
  ∀ rest, ¬GoesOn text rest

namespace Stuck

variable {c : Char} {after : List Char} (stuck : Stuck (c :: after))

include stuck

theorem takeNumber?_eq_none : takeNumber? (c :: after) = none := by
  cases taken : takeNumber? (c :: after) with
  | none => rfl
  | some parts => exact absurd (.number taken) (stuck parts.2)

theorem ofChar?_eq_none : ofChar? c = none := by
  cases is : ofChar? c with
  | none => rfl
  | some token => exact absurd (.symbol stuck.takeNumber?_eq_none is) (stuck after)

theorem notBlank : isBlank c = false := by
  rw [← Bool.not_eq_true]
  exact fun blank => stuck after (.blank stuck.takeNumber?_eq_none stuck.ofChar?_eq_none blank)

theorem notLetter : isLetter c = false := by
  rw [← Bool.not_eq_true]
  exact fun letter => stuck _
    (.name stuck.takeNumber?_eq_none stuck.ofChar?_eq_none stuck.notBlank letter)

theorem notDigit : ∀ d ∈ (c :: after).head?, d.isDigit = false := by
  rintro d ⟨⟩
  exact isDigit_of_takeNumber?_none stuck.takeNumber?_eq_none

/-- A lenient reader skips the character. -/
theorem scan_cons_lenient : scan true (c :: after) = scan true after := by
  rw [scan_cons stuck.takeNumber?_eq_none, stuck.ofChar?_eq_none]
  simp [stuck.notBlank, stuck.notLetter]

end Stuck

theorem exists_stuck {c : Char} (failed : scan false text = .error (.unexpectedCharacter c)) :
    ∃ after, Reaches text (c :: after) ∧ Stuck (c :: after) := by
  fun_induction scan false text with
  | case1 => cases failed
  | case2 text digits rest apart taken _ ih =>
      obtain ⟨after, reaches, stuck⟩ := ih (map_eq_error.mp failed)
      exact ⟨after, .head (.number taken) reaches, stuck⟩
  | case3 => cases failed
  | case4 d text none token is ih =>
      obtain ⟨after, reaches, stuck⟩ := ih (map_eq_error.mp failed)
      exact ⟨after, .head (.symbol none is) reaches, stuck⟩
  | case5 d text none is blank ih =>
      obtain ⟨after, reaches, stuck⟩ := ih failed
      exact ⟨after, .head (.blank none is blank) reaches, stuck⟩
  | case6 d text none is notBlank letter _ ih =>
      obtain ⟨after, reaches, stuck⟩ := ih (map_eq_error.mp failed)
      exact ⟨after, .head (.name none is (Bool.not_eq_true _ ▸ notBlank) letter) reaches, stuck⟩
  | case7 _ _ _ _ _ _ lenient => cases lenient
  | case8 d text none is notBlank notLetter =>
      cases failed
      refine ⟨text, .refl, fun rest goesOn => ?_⟩
      cases goesOn with
      | number taken =>
          rw [none] at taken
          cases taken
      | symbol _ other =>
          rw [is] at other
          cases other
      | blank _ _ blank => exact notBlank blank
      | name _ _ _ letter => exact notLetter letter

/-- A strict reader comes to the character behind the first text and refuses it. -/
structure RefusedAt (before : List Char) (c : Char) (after : List Char) : Prop where
  failed : scan false (before ++ c :: after) = .error (.unexpectedCharacter c)
  reached : Reaches (before ++ c :: after) (c :: after)
  stuck : Stuck (c :: after)

theorem not_repeatedPoint {c : Char} (failed : scan false text = .error (.unexpectedCharacter c)) :
    scan false text ≠ .error .repeatedPoint := by
  rw [failed]
  nofun

theorem exists_refusedAt {c : Char} (failed : scan false text = .error (.unexpectedCharacter c)) :
    ∃ before after, text = before ++ c :: after ∧ RefusedAt before c after := by
  obtain ⟨after, reached, stuck⟩ := exists_stuck failed
  obtain ⟨before, _, rfl, _⟩ := reached.exists_tokens stuck.notDigit (not_repeatedPoint failed)
  exact ⟨before, after, rfl, failed, reached, stuck⟩

namespace RefusedAt

variable {before after : List Char} {c : Char} (refused : RefusedAt before c after)

include refused

/-- **A blank may stand in the place of the refused character.** -/
theorem scan_blank_lenient :
    scan true (before ++ c :: after) = scan true (before ++ ' ' :: after) := by
  have blank : AtBlank (' ' :: after) := by
    rintro d ⟨⟩
    decide
  obtain ⟨front, tokens, split, same⟩ :=
    refused.reached.exists_tokens refused.stuck.notDigit (not_repeatedPoint refused.failed)
  obtain rfl := List.append_cancel_right split
  rw [same _ (.inl rfl), same _ (.inr blank), refused.stuck.scan_cons_lenient,
    scan_blank (by decide)]

/-- A text has one refused character at most. -/
theorem unique {before' after' : List Char} {c' : Char} (other : RefusedAt before' c' after')
    (same : before ++ c :: after = before' ++ c' :: after') :
    before = before' ∧ c = c' ∧ after = after' := by
  have reached := refused.reached
  rw [same] at reached
  have places : c :: after = c' :: after' := by
    rcases reached.total other.reached with forward | backward
    · rcases forward.cases_head with is | ⟨next, goesOn, _⟩
      · exact is
      · exact absurd goesOn (refused.stuck next)
    · rcases backward.cases_head with is | ⟨next, goesOn, _⟩
      · exact is.symm
      · exact absurd goesOn (other.stuck next)
  obtain ⟨rfl, rfl⟩ := List.cons.inj places
  exact ⟨List.append_cancel_right same, rfl, rfl⟩

end RefusedAt

/-! ## One refused character after the other -/

/-- A blank is put in the place of the refused character so many times. -/
inductive Replaced : ℕ → List Char → List Char → Prop
  | none (text : List Char) : Replaced 0 text text
  | more {count : ℕ} {before after last : List Char} {c : Char} (refused : RefusedAt before c after)
      (further : Replaced count (before ++ ' ' :: after) last) :
      Replaced (count + 1) (before ++ c :: after) last

/-- A strict reader refuses no character of the text. -/
def Settled (text : List Char) : Prop :=
  ∀ c, scan false text ≠ .error (.unexpectedCharacter c)

/-- The number of characters that are no blanks. -/
def visible (text : List Char) : ℕ :=
  text.countP fun c => !isBlank c

/-- A replacement leaves one visible character less. -/
theorem RefusedAt.visible_eq {before after : List Char} {c : Char}
    (refused : RefusedAt before c after) :
    visible (before ++ c :: after) = visible (before ++ ' ' :: after) + 1 := by
  have blank : isBlank ' ' = true := by decide
  simp [visible, List.countP_append, refused.stuck.notBlank, blank, Nat.add_assoc]

theorem not_settled_of_refusedAt {before after : List Char} {c : Char}
    (refused : RefusedAt before c after) : ¬Settled (before ++ c :: after) :=
  fun settled => settled c refused.failed

namespace Replaced

variable {count : ℕ} {last : List Char}

theorem visible_eq (replaced : Replaced count text last) : visible text = visible last + count := by
  induction replaced with
  | none => rfl
  | more refused _ ih => rw [refused.visible_eq, ih, Nat.add_assoc]

theorem count_le (replaced : Replaced count text last) : count ≤ text.length := by
  have visible := replaced.visible_eq
  have short : Token.visible text ≤ text.length := List.countP_le_length
  omega

theorem scan_eq (replaced : Replaced count text last) : scan true text = scan true last := by
  induction replaced with
  | none => rfl
  | more refused _ ih => rw [refused.scan_blank_lenient, ih]

/-- The replacements end with one text. -/
theorem unique (replaced : Replaced count text last) (settled : Settled last) {count' : ℕ}
    {last' : List Char} (other : Replaced count' text last') (settled' : Settled last') :
    count = count' ∧ last = last' := by
  induction replaced generalizing count' with
  | none =>
      cases other with
      | none => exact ⟨rfl, rfl⟩
      | more refused => exact absurd settled (not_settled_of_refusedAt refused)
  | @more _ before after _ c refused _ ih =>
      generalize same : before ++ c :: after = text at other
      cases other with
      | none =>
          rw [← same] at settled'
          exact absurd settled' (not_settled_of_refusedAt refused)
      | more refused' further' =>
          obtain ⟨rfl, rfl, rfl⟩ := refused.unique refused' same
          obtain ⟨rfl, is⟩ := ih settled further'
          exact ⟨rfl, is⟩

end Replaced

theorem exists_replaced (text : List Char) :
    ∃ count last, Replaced count text last ∧ Settled last := by
  by_cases settled : Settled text
  · exact ⟨0, text, .none text, settled⟩
  · simp only [Settled, not_forall, not_not] at settled
    obtain ⟨c, failed⟩ := settled
    obtain ⟨before, after, rfl, refused⟩ := exists_refusedAt failed
    have fewer := refused.visible_eq
    obtain ⟨count, last, replaced, settled⟩ := exists_replaced (before ++ ' ' :: after)
    exact ⟨count + 1, last, .more refused replaced, settled⟩
termination_by visible text

/-- **A lenient reader skips exactly the refused characters.** Where a strict reader reads a text,
or refuses a second point in a number, a lenient reader does the same. Where a strict reader refuses
a character, which it does at one place, a lenient reader reads the same as with a blank at that
place. So it reads what a strict reader reads in the text with a blank in the place of one refused
character after the other; these are no more than the characters of the text. -/
theorem scan_lenient (text : List Char) :
    (∀ tokens, scan false text = .ok tokens → scan true text = .ok tokens) ∧
      (scan false text = .error .repeatedPoint → scan true text = .error .repeatedPoint) ∧
      (∀ c, scan false text = .error (.unexpectedCharacter c) →
        ∃ before after, text = before ++ c :: after ∧ RefusedAt before c after) ∧
      (∀ before c after, text = before ++ c :: after → RefusedAt before c after →
        scan true text = scan true (before ++ ' ' :: after) ∧
          ∀ before' c' after', text = before' ++ c' :: after' → RefusedAt before' c' after' →
            before = before' ∧ c = c' ∧ after = after') ∧
      (∀ count last, Replaced count text last → count ≤ text.length) ∧
      ∃ count last, Replaced count text last ∧ Settled last ∧ scan true text = scan false last ∧
        ∀ count' last', Replaced count' text last' → Settled last' →
          count = count' ∧ last = last' := by
  refine ⟨fun tokens accepted => ?_, fun point => ?_, fun c => exists_refusedAt, ?_,
    fun count last => Replaced.count_le, ?_⟩
  · rw [scan_eq_of_settled fun c failed => ?_, accepted]
    rw [accepted] at failed
    cases failed
  · rw [scan_eq_of_settled fun c failed => not_repeatedPoint failed point, point]
  · rintro before c after rfl refused
    refine ⟨refused.scan_blank_lenient, fun before' c' after' same other => ?_⟩
    exact refused.unique other same
  · obtain ⟨count, last, replaced, settled⟩ := exists_replaced text
    refine ⟨count, last, replaced, settled, ?_, fun count' last' => replaced.unique settled⟩
    rw [replaced.scan_eq, scan_eq_of_settled settled]

end Reckoner.Token
