import Reckoner.Proofs.Equation.Recognition
import Reckoner.Proofs.Equation.Solution

/-!
# The one term of the unknown

Where the unknown stands among numbers, exactly one term of the side holds it
(`Reckoner.Equation.exists_terms_around`). An equation with such a left side is therefore solved with
the coefficient of this term (`Reckoner.Equation.outcome_solve_around`), and there is no equation that
is to be solved before its coefficient is known.
-/

namespace Reckoner.Equation

open Text Outcome

variable {v : Char} {left right : List Char}

/-! ## Where the unknown stands -/

theorem isNumeric_letter (letter : isWordLetter v = true) : isNumeric v = false := by
  rw [← Bool.not_eq_true]
  intro numeric
  have plain := isPlain_of_isNumeric numeric fun digit => by
    rw [isDecimalDigit_of_isWordLetter letter] at digit
    cases digit
  rw [isWordLetter_of_isPlain plain] at letter
  cases letter

/-- A letter among numbers stands there once. -/
theorem count_of_isAmongNumbers (letter : isWordLetter v = true)
    (among : isAmongNumbers [v] left = true) : left.count v = 1 := by
  obtain ⟨front, back, rfl, ofFront, ofBack⟩ := isAmongNumbers_iff.mp among
  have absent {part : List Char} (numeric : part.all isNumeric = true) : part.count v = 0 := by
    rw [List.count_eq_zero]
    intro within
    have other := List.all_eq_true.mp numeric v within
    rw [isNumeric_letter letter] at other
    cases other
  rw [List.count_append, List.count_append, absent ofFront, absent ofBack,
    List.count_singleton_self]

/-- A character that stands once in all parts together stands in one of them. -/
theorem exists_part_of_count {parts : List (List Char)} (once : parts.flatten.count v = 1) :
    ∃ before part after, parts = before ++ part :: after ∧ part.count v = 1 ∧
      ∀ other ∈ before ++ after, v ∉ other := by
  have some : v ∈ parts.flatten := List.count_pos_iff.mp (once ▸ Nat.one_pos)
  obtain ⟨part, member, inside⟩ := List.mem_flatten.mp some
  obtain ⟨before, after, rfl⟩ := List.append_of_mem member
  have here : 0 < part.count v := List.count_pos_iff.mpr inside
  rw [List.flatten_append, List.flatten_cons, List.count_append, List.count_append] at once
  have none : (before ++ after).flatten.count v = 0 := by
    rw [List.flatten_append, List.count_append]
    omega
  refine ⟨before, part, after, rfl, by omega, fun other member within => ?_⟩
  exact List.count_eq_zero.mp none (List.mem_flatten.mpr ⟨other, member, within⟩)

/-- **Exactly one of the terms holds the unknown**, and it holds it once. -/
theorem exists_terms_around (letter : isWordLetter v = true)
    (among : isAmongNumbers [v] left = true) :
    ∃ before term after, terms left = before ++ term :: after ∧ term.count v = 1 ∧
      ∀ other ∈ before ++ after, v ∉ other := by
  refine exists_part_of_count ?_
  rw [flatten_terms, List.count_filter (by rw [isBlank_of_isWordLetter letter]; rfl),
    count_of_isAmongNumbers letter among]

/-! ## The equation that is solved -/

/-- The linear equation that the terms of a left side, one of them of the unknown, and a right side
are read as: first the terms in their order, then the right side. -/
def readLinear (settings : Settings) (v : Char) (before : List (List Char)) (term : List Char)
    (after : List (List Char)) (right : List Char) : Except Failure Linear := do
  let first ← before.mapM (constantValue settings)
  let a ← coefficient term [v]
  let second ← after.mapM (constantValue settings)
  let c ← constantValue settings right
  return ⟨String.ofList [v], a, (first ++ second).foldl (· + ·) 0, c⟩

/-- Exactly one of the terms of a left side holds the unknown, and reading it sets the coefficient
that the equation is solved with. -/
structure SingleUnknown (v : Char) (left right : List Char) (before : List (List Char))
    (term : List Char) (after : List (List Char)) : Prop where
  terms : terms left = before ++ term :: after
  once : term.count v = 1
  absent : ∀ other ∈ before ++ after, v ∉ other
  /-- A left side that has been read has the coefficient of the term. -/
  coefficient : ∀ (settings : Settings) (side : LeftSide),
    (readLeft settings v left).outcome = .ok side →
      ∃ a, Equation.coefficient term [v] = .ok a ∧ side.coefficient = some a
  /-- The equation is solved as the linear equation with this coefficient. -/
  solved : ∀ (equation : List Char) (settings : Settings), sides? equation = some (left, right) →
    unknown? equation = some v →
      (solve equation settings).outcome =
        readLinear settings v before term after right >>= fun linear =>
          (linear.solve settings).map fun (answer, steps) =>
            (answer, openingSteps (String.ofList equation) (String.ofList [v]) (String.ofList left)
              (String.ofList right) ++ steps)

section Around

variable {term : List Char} {before after : List (List Char)} (settings : Settings)
  (is : terms left = before ++ term :: after) (inside : v ∈ term)
  (outside : ∀ other ∈ before ++ after, v ∉ other)

include is inside outside

/-- A left side that has been read has the coefficient of the term of the unknown. -/
theorem coefficient_of_readLeft {side : LeftSide}
    (read : (readLeft settings v left).outcome = .ok side) :
    ∃ a, coefficient term [v] = .ok a ∧ side.coefficient = some a := by
  rw [outcome_readLeft_around settings is inside outside] at read
  obtain ⟨first, _, read⟩ := bind_eq_ok.mp read
  obtain ⟨a, ofTerm, read⟩ := bind_eq_ok.mp read
  obtain ⟨second, _, rfl⟩ := map_eq_ok.mp read
  exact ⟨a, ofTerm, rfl⟩

/-- An equation is solved as the linear equation that its sides are read as. -/
theorem outcome_solve_around {equation : List Char}
    (sides : sides? equation = some (left, right)) (found : unknown? equation = some v)
    (simple : isSimple left right [v] = true) :
    (solve equation settings).outcome =
      readLinear settings v before term after right >>= fun linear =>
        (linear.solve settings).map fun (answer, steps) =>
          (answer, openingSteps (String.ofList equation) (String.ofList [v]) (String.ofList left)
            (String.ofList right) ++ steps) := by
  rw [outcome_solve_steps settings sides found simple,
    outcome_readLeft_around settings is inside outside, readLinear]
  cases before.mapM (constantValue settings) with
  | error failure => rfl
  | ok first =>
      cases coefficient term [v] with
      | error failure => rfl
      | ok a =>
          cases after.mapM (constantValue settings) with
          | error failure => rfl
          | ok second => cases constantValue settings right <;> rfl

end Around

/-- **Cutting a side loses nothing, and a simple equation has one term of its unknown.** The terms of
a side are the only parts that its characters, without the blanks, are cut into at signs; and where an
equation is simple, exactly one of the terms of its left side holds the unknown, once, and the equation
is solved with the coefficient of this term. -/
theorem terms_cut_around_unknown :
    (∀ (side : List Char) (parts : List (List Char)),
        terms side = parts ↔ CutAtSigns (side.filter fun c => !isBlank c) parts) ∧
      ∀ (left right : List Char) (v : Char), isWordLetter v = true →
        isSimple left right [v] = true →
          ∃ before term after, SingleUnknown v left right before term after := by
  refine ⟨fun side parts => terms_eq_iff, fun left right v letter simple => ?_⟩
  obtain ⟨before, term, after, is, once, outside⟩ :=
    exists_terms_around letter (isSimple_iff.mp simple).1
  have inside : v ∈ term := List.count_pos_iff.mp (once ▸ Nat.one_pos)
  refine ⟨before, term, after, is, once, outside, ?coefficient, ?solved⟩
  case coefficient =>
    intro settings side read
    exact coefficient_of_readLeft settings is inside outside read
  case solved =>
    intro equation settings sides found
    exact outcome_solve_around settings is inside outside sides found simple

/-- A sign that a product holds, and the unknown in the last of two terms. -/
theorem terms_cut_two_times_minus_three :
    CutAtSigns "2*-3+x".toList ["2*-3".toList, "+x".toList] ∧
      sides? "2*-3 + x = 4".toList = some ("2*-3 + x".toList, "4".toList) ∧
        unknown? "2*-3 + x = 4".toList = some 'x' ∧
          ∃ before term after,
            SingleUnknown 'x' "2*-3 + x".toList "4".toList before term after := by
  have stripped : "2*-3 + x".toList.filter (fun c => !isBlank c) = "2*-3+x".toList := by decide
  have cut := (terms_cut_around_unknown.1 "2*-3 + x".toList _).mp
    (show terms _ = ["2*-3".toList, "+x".toList] by decide)
  rw [stripped] at cut
  have simple : isSimple "2*-3 + x".toList "4".toList ['x'] = true := by decide +kernel
  exact ⟨cut, by decide, by decide, terms_cut_around_unknown.2 _ _ 'x' rfl simple⟩

end Reckoner.Equation
