import Mathlib.Data.List.SplitBy
import Reckoner.Equation.Shape

/-!
# Cutting a text at its signs

A side is cut into terms before each sign that the character in front of it does not hold. Its terms
are the longest runs of characters that stay with the ones before them
(`Reckoner.Equation.terms_eq_splitBy`), and no other parts of it have the properties of such a cut
(`Reckoner.Equation.terms_eq_iff`).
-/

namespace Reckoner.Equation

open Text

variable {text : List Char} {parts : List (List Char)}

/-! ## Terms as runs -/

/-- The character stays in the term of the one in front of it: it is no sign, or the one in front
holds it. -/
def staysWith (last c : Char) : Bool := !isSign c || holdsSign last

theorem staysWith_iff {last c : Char} :
    staysWith last c = true ↔ (isSign c = true → holdsSign last = true) := by
  unfold staysWith
  cases isSign c <;> simp

theorem staysWith_eq_false {last c : Char} :
    staysWith last c = false ↔ isSign c = true ∧ holdsSign last = false := by
  rw [staysWith, Bool.or_eq_false_iff, Bool.not_eq_false']

/-- What is read of a term is a run, and it is cut where a character does not stay with it. -/
theorem termsAfter_eq_splitBy {term : List Char}
    (together : term.IsChain fun last c => staysWith last c) (text : List Char) :
    termsAfter term text = (term ++ text).splitBy staysWith := by
  -- The invariant of the reading is that the current term is a run.
  fun_induction termsAfter term text with
  | case1 term empty =>
      rw [List.isEmpty_iff.mp empty]
      rfl
  | case2 term nonempty =>
      have some : term ≠ [] := fun none => nonempty (List.isEmpty_iff.mpr none)
      rw [List.append_nil, List.splitBy_of_isChain some together]
  | case3 term c rest cut ih =>
      rw [Bool.and_eq_true] at cut
      obtain ⟨sign, ends⟩ := cut
      obtain ⟨last, isLast, unheld⟩ := (Option.any_eq_true _ _).mp ends
      have apart : ∀ d ∈ term.getLast?, staysWith d c = false := by
        intro d isEnd
        cases isLast.symm.trans isEnd
        exact staysWith_eq_false.mpr ⟨sign, (Bool.not_eq_true' _).mp unheld⟩
      have some : term ≠ [] := List.ne_nil_of_mem (List.mem_of_getLast? isLast)
      rw [ih (List.isChain_singleton c), List.splitBy_append_cons rest apart,
        List.splitBy_of_isChain some together]
      rfl
  | case4 term c rest kept ih =>
      have joined : (term ++ [c]).IsChain fun last c => staysWith last c := by
        refine List.isChain_append.mpr ⟨together, List.isChain_singleton c, ?_⟩
        intro last isLast d isNext
        cases isNext
        rw [staysWith_iff]
        intro sign
        rw [sign, Option.mem_def.mp isLast] at kept
        simpa using kept
      rw [ih joined, List.append_assoc, List.singleton_append]

/-- **The terms of a side are the runs of its characters**, the blanks left out. -/
theorem terms_eq_splitBy (side : List Char) :
    terms side = (side.filter fun c => !isBlank c).splitBy staysWith :=
  termsAfter_eq_splitBy List.isChain_nil _

/-! ## Cuts at signs -/

/-- The parts are those of a text that is cut at its signs, except for the signs that the character
in front of them holds. -/
structure CutAtSigns (text : List Char) (parts : List (List Char)) : Prop where
  /-- Nothing is lost. -/
  flatten : parts.flatten = text
  nonempty : ∀ part ∈ parts, part ≠ []
  /-- Every part but the first starts with a sign. -/
  signed : ∀ part ∈ parts.tail, ∃ sign rest, part = sign :: rest ∧ isSign sign = true
  /-- Every part but the last ends in a character that holds no sign. -/
  unheld : ∀ part ∈ parts.dropLast, ∃ front last, part = front ++ [last] ∧ holdsSign last = false
  /-- Inside of a part a sign stands only behind a character that holds it. -/
  inside : ∀ part ∈ parts, ∀ front last sign back, part = front ++ last :: sign :: back →
    isSign sign = true → holdsSign last = true
  /-- A sign behind a character that does not hold it starts a part. -/
  starts : ∀ front last sign back, text = front ++ last :: sign :: back → isSign sign = true →
    holdsSign last = false → ∃ before part after, parts = before ++ (sign :: part) :: after ∧
      before.flatten = front ++ [last]

/-- A part that is not the first stands behind another one. -/
theorem exists_previous {part : List Char} (member : part ∈ parts.tail) :
    ∃ before previous after, parts = before ++ previous :: part :: after := by
  cases parts with
  | nil => cases member
  | cons first more =>
      obtain ⟨front, after, is⟩ := List.append_of_mem member
      rw [List.tail_cons] at is
      subst is
      obtain none | ⟨before, previous, is⟩ := List.eq_nil_or_concat (first :: front)
      · cases none
      · refine ⟨before, previous, after, ?_⟩
        rw [← List.cons_append, is, List.concat_eq_append, List.append_assoc,
          List.singleton_append]

/-- A part that is not the last stands in front of another one. -/
theorem exists_next {part : List Char} (member : part ∈ parts.dropLast) :
    ∃ before next after, parts = before ++ part :: next :: after := by
  have some : parts ≠ [] := fun none => by
    rw [none] at member
    cases member
  obtain ⟨before, back, is⟩ := List.append_of_mem member
  obtain ⟨next, after, behind⟩ := List.exists_cons_of_ne_nil
    (List.append_ne_nil_of_right_ne_nil back (List.cons_ne_nil (parts.getLast some) []))
  refine ⟨before, next, after, ?_⟩
  rw [← behind, ← List.cons_append, ← List.append_assoc, ← is, List.dropLast_append_getLast]

/-- The first run of a text starts with its first character. -/
theorem exists_first_run (c : Char) (text : List Char) :
    ∃ part after, (c :: text).splitBy staysWith = (c :: part) :: after := by
  have some : (c :: text).splitBy staysWith ≠ [] := List.splitBy_ne_nil.mpr (List.cons_ne_nil c text)
  obtain ⟨first, after, is⟩ := List.exists_cons_of_ne_nil some
  have member : first ∈ (c :: text).splitBy staysWith := by
    rw [is]
    exact List.mem_cons_self
  obtain ⟨d, part, rfl⟩ := List.exists_cons_of_ne_nil (List.ne_nil_of_mem_splitBy member)
  have whole := List.flatten_splitBy staysWith (c :: text)
  rw [is] at whole
  obtain ⟨rfl, _⟩ := List.cons.inj whole
  exact ⟨part, after, is⟩

/-- The runs of a text are a cut at its signs. -/
theorem cutAtSigns_splitBy (text : List Char) : CutAtSigns text (text.splitBy staysWith) := by
  have between := List.isChain_iff_forall_rel_of_append_cons_cons.mp
    (List.isChain_getLast_head_splitBy staysWith text)
  constructor
  case flatten => exact List.flatten_splitBy staysWith text
  case nonempty => exact fun part member => List.ne_nil_of_mem_splitBy member
  case signed =>
    intro part member
    obtain ⟨before, previous, after, is⟩ := exists_previous member
    obtain ⟨some, more, cut⟩ := between is
    exact ⟨part.head more, part.tail, (List.cons_head_tail more).symm, (staysWith_eq_false.mp cut).1⟩
  case unheld =>
    intro part member
    obtain ⟨before, next, after, is⟩ := exists_next member
    obtain ⟨some, more, cut⟩ := between is
    exact ⟨part.dropLast, part.getLast some, (List.dropLast_append_getLast some).symm,
      (staysWith_eq_false.mp cut).2⟩
  case inside =>
    intro part member front last sign back is
    have together := List.isChain_of_mem_splitBy member
    exact staysWith_iff.mp (List.isChain_iff_forall_rel_of_append_cons_cons.mp together is)
  case starts =>
    intro front last sign back is isSign unheld
    have apart : ∀ d ∈ (front ++ [last]).getLast?, staysWith d sign = false := by
      intro d isEnd
      rw [List.getLast?_concat] at isEnd
      cases isEnd
      exact staysWith_eq_false.mpr ⟨isSign, unheld⟩
    have halves := List.splitBy_append_cons back apart
    obtain ⟨part, after, first⟩ := exists_first_run sign back
    rw [List.append_assoc, List.singleton_append, ← is, first] at halves
    exact ⟨_, part, after, halves, List.flatten_splitBy staysWith (front ++ [last])⟩

/-- A cut at signs is the one into runs. -/
theorem CutAtSigns.eq_splitBy (cut : CutAtSigns text parts) : text.splitBy staysWith = parts := by
  refine List.splitBy_eq_iff.mpr ⟨cut.flatten.symm, fun empty => cut.nonempty [] empty rfl, ?_, ?_⟩
  · intro part member
    rw [List.isChain_iff_forall_rel_of_append_cons_cons]
    intro last sign front back is
    exact staysWith_iff.mpr (cut.inside part member front last sign back is)
  · rw [List.isChain_iff_forall_rel_of_append_cons_cons]
    intro previous part before after is
    have second : part ∈ parts.tail := by
      rw [is]
      cases before <;> simp
    have first : previous ∈ parts.dropLast := by
      rw [is, List.dropLast_append_cons, List.dropLast_cons_cons]
      exact List.mem_append_right before List.mem_cons_self
    obtain ⟨sign, rest, rfl, isSign⟩ := cut.signed part second
    obtain ⟨front, last, rfl, unheld⟩ := cut.unheld previous first
    refine ⟨List.concat_ne_nil last front, List.cons_ne_nil sign rest, ?_⟩
    rw [List.getLast_concat, List.head_cons]
    exact staysWith_eq_false.mpr ⟨isSign, unheld⟩

/-- **The terms of a side are its only cut at signs.** -/
theorem terms_eq_iff {side : List Char} :
    terms side = parts ↔ CutAtSigns (side.filter fun c => !isBlank c) parts := by
  rw [terms_eq_splitBy]
  constructor
  · rintro rfl
    exact cutAtSigns_splitBy _
  · exact CutAtSigns.eq_splitBy

end Reckoner.Equation
