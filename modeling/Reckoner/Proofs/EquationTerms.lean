import Reckoner.Proofs.Characters
import Reckoner.Proofs.Equation.CutAtSigns

/-!
# The terms of a side and the unknown

The terms of a side are its characters without blanks, cut before signs. The unknown is a letter,
so it is in one of the terms.
-/

namespace Reckoner.Equation

open Text

/-! ## Terms -/

/-- **The terms of a side are its characters without the blanks.** -/
theorem flatten_terms (side : List Char) :
    (terms side).flatten = side.filter fun c => !isBlank c :=
  (terms_eq_iff.mp rfl).flatten

theorem termsAfter_nil_cons (c : Char) (rest : List Char) :
    termsAfter [] (c :: rest) = termsAfter [c] rest := by
  rw [termsAfter, if_neg]
  · rfl
  · exact Bool.eq_false_iff.mp (Bool.and_false _)

/-- What has been read as the start of a term is read as one. -/
def ReadsOn (term : List Char) : Prop :=
  ∀ rest, termsAfter [] (term ++ rest) = termsAfter term rest

theorem readsOn_of_mem_termsAfter {term text : List Char} (readsOn : ReadsOn term) :
    ∀ other ∈ termsAfter term text, other ≠ [] ∧ ReadsOn other := by
  fun_induction termsAfter term text with
  | case1 term empty => exact fun other member => absurd member List.not_mem_nil
  | case2 term nonempty =>
      refine List.forall_mem_singleton.mpr ⟨?_, readsOn⟩
      rintro rfl
      exact nonempty rfl
  | case3 term c rest cut ih =>
      refine List.forall_mem_cons.mpr ⟨⟨?_, readsOn⟩, ih (termsAfter_nil_cons c)⟩
      rintro rfl
      rw [List.getLast?_nil, Option.any_none, Bool.and_false] at cut
      cases cut
  | case4 term c rest kept ih =>
      refine ih fun following => ?_
      rw [List.append_assoc, readsOn, List.singleton_append, termsAfter, if_neg kept]

/-- The characters of a term are those of the side, and none of the blanks. -/
theorem mem_of_mem_terms {side term : List Char} (member : term ∈ terms side) :
    ∀ c ∈ term, c ∈ side ∧ isBlank c = false := by
  intro c inside
  have kept : c ∈ (terms side).flatten := List.mem_flatten.mpr ⟨term, member, inside⟩
  rwa [flatten_terms, List.mem_filter, Bool.not_eq_true'] at kept

/-- A term is not cut any further. -/
theorem terms_of_mem_terms {side term : List Char} (member : term ∈ terms side) :
    terms term = [term] := by
  obtain ⟨some, readsOn⟩ := readsOn_of_mem_termsAfter (fun _ => rfl) term member
  have kept : term.filter (fun c => !isBlank c) = term := by
    refine List.filter_eq_self.mpr fun c inside => ?_
    rw [(mem_of_mem_terms member c inside).2]
    rfl
  have whole := readsOn []
  rw [List.append_nil, termsAfter, if_neg fun empty => some (List.isEmpty_iff.mp empty)] at whole
  rw [terms, kept, whole]

/-- Every term but the first starts with a sign. -/
theorem isSign_of_terms {side first : List Char} {more : List (List Char)}
    (is : terms side = first :: more) :
    ∀ other ∈ more, ∃ d rest, other = d :: rest ∧ isSign d = true :=
  (terms_eq_iff.mp is).signed

/-! ## The unknown -/

theorem all_isWordLetter_of_wordsAfter {word text : List Char}
    (letters : word.all isWordLetter = true) :
    ∀ other ∈ wordsAfter word text, other.all isWordLetter = true := by
  induction text generalizing word with
  | nil =>
      rw [wordsAfter]
      split
      · exact nofun
      · intro other member
        rw [List.mem_singleton.mp member]
        exact letters
  | cons c rest ih =>
      rw [wordsAfter]
      split
      · rename_i letter
        apply ih
        rw [List.all_append, letters, List.all_cons, letter]
        rfl
      · split
        · exact ih rfl
        · intro other member
          rcases List.mem_cons.mp member with rfl | member
          · exact letters
          · exact ih rfl other member

/-- The unknown is a letter. -/
theorem isWordLetter_of_unknown? {equation : List Char} {unknown : Char}
    (found : unknown? equation = some unknown) : isWordLetter unknown = true := by
  obtain ⟨word, is, head⟩ := Option.bind_eq_some_iff.mp found
  have letters : word.all isWordLetter = true :=
    all_isWordLetter_of_wordsAfter rfl word (List.mem_of_find?_eq_some is)
  exact List.all_eq_true.mp letters unknown (List.mem_of_mem_head? head)

theorem isBlank_of_isWordLetter {c : Char} (letter : isWordLetter c = true) :
    isBlank c = false := by
  cases blank : isBlank c with
  | false => rfl
  | true =>
      have stops := forall_isBlank (p := fun c => !isWordLetter c) (by decide +kernel) blank
      rw [letter] at stops
      cases stops

/-- A text among numbers is one with numeric characters before and after it. -/
theorem isAmongNumbers_iff {unknown text : List Char} :
    isAmongNumbers unknown text = true ↔
      ∃ before behind, text = before ++ (unknown ++ behind) ∧ before.all isNumeric = true ∧
        behind.all isNumeric = true := by
  induction text with
  | nil =>
      rw [isAmongNumbers, Bool.or_false]
      constructor
      · intro among
        split at among
        · rename_i rest is
          have spelled := after?_eq_some.mp is
          exact ⟨[], rest, spelled, rfl, among⟩
        · cases among
      · rintro ⟨before, behind, is, -, numeric⟩
        obtain ⟨rfl, spelled⟩ := List.append_eq_nil_iff.mp is.symm
        rw [after?_eq_some.mpr spelled.symm]
        exact numeric
  | cons c rest ih =>
      rw [isAmongNumbers, Bool.or_eq_true, Bool.and_eq_true, ih]
      constructor
      · rintro (here | ⟨numeric, before, behind, rfl, ofBefore, ofBehind⟩)
        · split at here
          · rename_i behind is
            have spelled := after?_eq_some.mp is
            exact ⟨[], behind, spelled, rfl, here⟩
          · cases here
        · refine ⟨c :: before, behind, rfl, ?_, ofBehind⟩
          rw [List.all_cons, numeric, ofBefore]
          rfl
      · rintro ⟨before, behind, is, ofBefore, ofBehind⟩
        cases before with
        | nil =>
            have spelled : c :: rest = unknown ++ behind := is
            left
            rw [after?_eq_some.mpr spelled]
            exact ofBehind
        | cons d before =>
            rw [List.cons_append, List.cons.injEq] at is
            obtain ⟨rfl, rfl⟩ := is
            rw [List.all_cons, Bool.and_eq_true] at ofBefore
            exact .inr ⟨ofBefore.1, before, behind, rfl, ofBefore.2, ofBehind⟩

/-- The unknown among numbers on the left, and numbers on the right. -/
theorem isSimple_iff {left right unknown : List Char} :
    isSimple left right unknown = true ↔
      isAmongNumbers unknown left = true ∧ right ≠ [] ∧ right.all isNumeric = true := by
  rw [isSimple, Bool.and_eq_true, Bool.and_eq_true, Bool.not_eq_true', List.isEmpty_eq_false_iff,
    and_assoc]

/-- A letter among numbers is in one of the terms. -/
theorem exists_mem_terms {side : List Char} {unknown : Char}
    (letter : isWordLetter unknown = true) (among : isAmongNumbers [unknown] side = true) :
    ∃ term ∈ terms side, term.contains unknown = true := by
  obtain ⟨before, behind, is, -, -⟩ := isAmongNumbers_iff.mp among
  have member : unknown ∈ (terms side).flatten := by
    rw [flatten_terms, is, List.mem_filter]
    refine ⟨by simp, ?_⟩
    rw [isBlank_of_isWordLetter letter]
    rfl
  obtain ⟨term, ofTerms, inside⟩ := List.mem_flatten.mp member
  exact ⟨term, ofTerms, List.contains_iff_mem.mpr inside⟩

end Reckoner.Equation
