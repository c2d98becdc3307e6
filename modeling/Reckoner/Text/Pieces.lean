/-!
# Cutting and joining text

Texts are cut at a separating character and joined with one. Cutting what was joined from pieces
without the separator gives the pieces back.
-/

namespace Reckoner.Text

/-- Puts a character in front of the first piece. -/
def consFirst (c : Char) : List (List Char) → List (List Char)
  | [] => [[c]]
  | piece :: rest => (c :: piece) :: rest

/-- The pieces of a text between the occurrences of a separator; an empty text is one empty
piece. -/
def pieces (separator : Char) : List Char → List (List Char)
  | [] => [[]]
  | c :: rest =>
      if c == separator then [] :: pieces separator rest
      else consFirst c (pieces separator rest)

/-- A text without the separator is one piece. -/
theorem pieces_of_not_mem {separator : Char} {text : List Char} (absent : separator ∉ text) :
    pieces separator text = [text] := by
  induction text with
  | nil => rfl
  | cons c rest ih =>
    simp only [List.mem_cons, not_or] at absent
    simp [pieces, Ne.symm absent.1, ih absent.2, consFirst]

/-- A text without the separator in front of one is the first piece. -/
theorem pieces_append {separator : Char} {piece : List Char} (absent : separator ∉ piece)
    (rest : List Char) :
    pieces separator (piece ++ separator :: rest) = piece :: pieces separator rest := by
  induction piece with
  | nil => simp [pieces]
  | cons c piece ih =>
    simp only [List.mem_cons, not_or] at absent
    simp [pieces, Ne.symm absent.1, ih absent.2, consFirst]

/-- The texts with a separator between each two. -/
def join (separator : String) : List String → String
  | [] => ""
  | [last] => last
  | first :: rest => first ++ separator ++ join separator rest

theorem toList_join_cons (separator first second : String) (rest : List String) :
    (join separator (first :: second :: rest)).toList =
      first.toList ++ (separator.toList ++ (join separator (second :: rest)).toList) := by
  change (first ++ separator ++ join separator (second :: rest)).toList = _
  rw [String.toList_append, String.toList_append, List.append_assoc]

/-- The text before and after the first occurrence of a separator, or `none` without one. -/
def cutAt? (separator : Char) : List Char → Option (List Char × List Char)
  | [] => none
  | c :: rest =>
      if c == separator then some ([], rest)
      else (cutAt? separator rest).map fun (before, after) => (c :: before, after)

/-- A text is cut at the first separator in it. -/
theorem cutAt?_eq_some {separator : Char} {text before after : List Char} :
    cutAt? separator text = some (before, after) ↔
      text = before ++ separator :: after ∧ separator ∉ before := by
  induction text generalizing before with
  | nil => simp [cutAt?]
  | cons c rest ih =>
    by_cases same : c = separator
    · subst same
      cases before with
      | nil => simp [cutAt?]
      | cons d before =>
        simp only [cutAt?, beq_self_eq_true, if_true, Option.some.injEq, Prod.mk.injEq,
          reduceCtorEq, false_and, List.cons_append, List.cons.injEq, List.mem_cons, not_or,
          false_iff]
        rintro ⟨⟨is, -⟩, differs, -⟩
        exact differs is
    · cases before with
      | nil => simp [cutAt?, same]
      | cons d before =>
        simp only [cutAt?, beq_eq_false_iff_ne.mpr same, Bool.false_eq_true, if_false,
          Option.map_eq_some_iff, Prod.exists, Prod.mk.injEq, List.cons.injEq, List.cons_append,
          List.mem_cons, not_or]
        constructor
        · rintro ⟨part, rest, found, ⟨rfl, rfl⟩, rfl⟩
          exact ⟨⟨rfl, (ih.mp found).1⟩, Ne.symm same, (ih.mp found).2⟩
        · rintro ⟨⟨rfl, is⟩, -, first⟩
          exact ⟨before, after, ih.mpr ⟨is, first⟩, ⟨rfl, rfl⟩, rfl⟩

/-- What follows `head` in a text that starts with it. -/
def after? : List Char → List Char → Option (List Char)
  | [], text => some text
  | _ :: _, [] => none
  | h :: head, c :: text => if h == c then after? head text else none

/-- A text starts with `head` exactly if it is `head` with something behind it. -/
theorem after?_eq_some {head text rest : List Char} :
    after? head text = some rest ↔ text = head ++ rest := by
  induction head generalizing text with
  | nil => simp only [after?, Option.some.injEq, List.nil_append]
  | cons h head ih =>
      cases text with
      | nil => simp only [after?, reduceCtorEq, List.cons_append]
      | cons c text =>
          by_cases same : h = c
          · subst same
            simp only [after?, beq_self_eq_true, if_true, ih, List.cons_append, List.cons.injEq,
              true_and]
          · have different : (h == c) = false := beq_false_of_ne same
            simp only [after?, different, Bool.false_eq_true, if_false, reduceCtorEq,
              List.cons_append, List.cons.injEq, Ne.symm same, false_and]

/-- The text occurs somewhere in the other. -/
def occursIn (part : List Char) : List Char → Bool
  | [] => part.isEmpty
  | c :: rest => (after? part (c :: rest)).isSome || occursIn part rest

end Reckoner.Text
