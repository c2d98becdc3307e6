/-!
# The longest part with a property

If all entries of a list have a property and the next entry, if there is one, has not, the longest
part with the property is the list.
-/

namespace Reckoner

variable {α : Type} {p : α → Bool} {part rest : List α}

theorem all_cons_of_all {first : α} (ofFirst : p first = true) (ofRest : rest.all p = true) :
    (first :: rest).all p = true := by
  rw [List.all_cons, ofFirst, ofRest]
  rfl

/-- What is left behind the longest part does not go on with the property. -/
theorem ends_dropWhile (list : List α) : ∀ a ∈ (list.dropWhile p).head?, p a = false := by
  intro a head
  have ends := List.head?_dropWhile_not p list
  rwa [show (list.dropWhile p).head? = some a from head] at ends

section Ends

variable (all : ∀ a ∈ part, p a = true) (ends : ∀ a ∈ rest.head?, p a = false)

include all ends

theorem takeWhile_append_of_ends : (part ++ rest).takeWhile p = part := by
  rw [List.takeWhile_append_of_pos all]
  cases rest with
  | nil => rw [List.takeWhile_nil, List.append_nil]
  | cons a rest =>
      have stops := ends a rfl
      rw [List.takeWhile_cons_of_neg (Bool.not_eq_true _ ▸ stops), List.append_nil]

theorem dropWhile_append_of_ends : (part ++ rest).dropWhile p = rest := by
  rw [List.dropWhile_append_of_pos all]
  cases rest with
  | nil => exact List.dropWhile_nil
  | cons a rest =>
      have stops := ends a rfl
      exact List.dropWhile_cons_of_neg (Bool.not_eq_true _ ▸ stops)

end Ends

end Reckoner
