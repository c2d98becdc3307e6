import Reckoner.Proofs.ComplexNumber.Written
import Reckoner.Proofs.RowMatrix.Written

/-!
# The operation that a text asks for

Signs and words outside of the matrices or numbers of an expression ask for operations. The first of
them in a fixed order is performed, on all matrices or numbers, and only if these are as many as
it takes (`Reckoner.Requested.performed`). Another sign or word beside it is no obstacle.
-/

namespace Reckoner

open Text Outcome

/-! ## Marks of operations -/

/-- A sign or a word for an operation. -/
inductive Mark where
  | sign (c : Char)
  | word (letters : List Char)

/-- The mark stands in the text, a word in any case. -/
def Mark.isIn (text : List Char) : Mark → Bool
  | sign c => text.contains c
  | word letters => occursIn letters (lower text)

variable {α : Type}

/-- The operation of the first of the marks that stand in the text, or the one without a mark. -/
inductive Requested (marks : List (Mark × α)) (fallback : α) (text : List Char) : α → Prop
  | marked {before after : List (Mark × α)} {mark : Mark} {operation : α}
      (split : marks = before ++ (mark, operation) :: after) (isIn : mark.isIn text = true)
      (first : ∀ earlier ∈ before, earlier.1.isIn text = false) :
      Requested marks fallback text operation
  | unmarked (none : ∀ entry ∈ marks, entry.1.isIn text = false) :
      Requested marks fallback text fallback

namespace Requested

variable {marks signs words : List (Mark × α)} {fallback : α} {text : List Char}

/-- The operation that is looked up. -/
def lookup (marks : List (Mark × α)) (fallback : α) (text : List Char) : α :=
  (marks.find? fun entry => entry.1.isIn text).elim fallback Prod.snd

theorem requested_lookup : Requested marks fallback text (lookup marks fallback text) := by
  unfold lookup
  cases found : marks.find? fun entry => entry.1.isIn text with
  | none =>
      refine .unmarked fun entry member => ?_
      exact Bool.not_eq_true _ ▸ List.find?_eq_none.mp found entry member
  | some entry =>
      obtain ⟨isIn, before, after, split, first⟩ := List.find?_eq_some_iff_append.mp found
      refine .marked split isIn fun earlier member => ?_
      exact (Bool.not_eq_true' _).mp (first earlier member)

/-- If the signs come first, a word counts only without a sign. -/
theorem lookup_signs_words (symbols : List (Char × α)) (keywords : List (List Char × α))
    (fallback : α) (text : List Char) :
    lookup (symbols.map (fun entry => (.sign entry.1, entry.2)) ++
        keywords.map fun entry => (.word entry.1, entry.2)) fallback text =
      ((symbols.find? fun entry => text.contains entry.1).map Prod.snd).getD
        ((keywords.find? fun known => occursIn known.1 (lower text)).elim fallback Prod.snd) := by
  have ofSigns : (symbols.map fun entry => (Mark.sign entry.1, entry.2)).find?
        (fun entry => entry.1.isIn text) =
      (symbols.find? fun entry => text.contains entry.1).map
        fun entry => (.sign entry.1, entry.2) :=
    List.find?_map
  have ofWords : (keywords.map fun entry => (Mark.word entry.1, entry.2)).find?
        (fun entry => entry.1.isIn text) =
      (keywords.find? fun known => occursIn known.1 (lower text)).map
        fun entry => (.word entry.1, entry.2) :=
    List.find?_map
  unfold lookup
  rw [List.find?_append, ofSigns, ofWords]
  cases symbols.find? fun entry => text.contains entry.1 with
  | some entry => rfl
  | none => cases keywords.find? fun known => occursIn known.1 (lower text) <;> rfl

/-- If the signs come first, a sign in the text decides about the kind of the operation. -/
theorem lookup_append (kind : α → Prop) (ofSigns : ∀ entry ∈ signs, kind entry.2)
    (ofWords : ∀ entry ∈ words, ¬kind entry.2) (ofFallback : ¬kind fallback) :
    kind (lookup (signs ++ words) fallback text) ↔ ∃ entry ∈ signs, entry.1.isIn text = true := by
  unfold lookup
  rw [List.find?_append]
  cases found : signs.find? fun entry => entry.1.isIn text with
  | some entry =>
      have member := List.mem_of_find?_eq_some found
      have isIn := List.find?_some found
      exact iff_of_true (ofSigns entry member) ⟨entry, member, isIn⟩
  | none =>
      have absent : ¬∃ entry ∈ signs, entry.1.isIn text = true := by
        rintro ⟨entry, member, isIn⟩
        exact List.find?_eq_none.mp found entry member isIn
      rw [Option.none_or]
      refine iff_of_false ?_ absent
      cases further : words.find? fun entry => entry.1.isIn text with
      | none => exact ofFallback
      | some entry => exact ofWords entry (List.mem_of_find?_eq_some further)

end Requested

/-! ## Matrices -/

namespace MatrixOperation

/-- How many matrices an operation takes. -/
def arity : MatrixOperation → Nat
  | multiply | add | subtract => 2
  | _ => 1

/-- An operation is performed on as many matrices as it takes. -/
theorem length_of_perform {operation : MatrixOperation} {matrices : List (RowMatrix Float)}
    {result : RowMatrix Float} (performed : operation.perform matrices = .ok result) :
    matrices.length = operation.arity := by
  rcases matrices with _ | ⟨a, _ | ⟨b, _ | ⟨c, more⟩⟩⟩
  · cases performed
  · cases operation with
    | multiply | add | subtract => cases performed
    | _ => rfl
  · cases operation with
    | multiply | add | subtract => rfl
    | _ => cases performed
  · cases operation <;> cases performed

end MatrixOperation

namespace RowMatrix

/-- The marks of operations on matrices, in the order in which they are looked for. -/
def signMarks : List (Mark × MatrixOperation) :=
  symbols.map fun entry => (.sign entry.1, entry.2)

/-- The words for operations on matrices, in the order in which they are looked for. -/
def wordMarks : List (Mark × MatrixOperation) :=
  keywords.map fun entry => (.word entry.1, entry.2)

theorem operationOf_eq_lookup (text : List Char) : operationOf text =
    Requested.lookup (signMarks ++ wordMarks) .determinant (outside text) :=
  (operationOf_eq text).trans
    (Requested.lookup_signs_words symbols keywords .determinant (outside text)).symm

/-- What is evaluated is the operation on the matrices of the expression. -/
theorem perform_of_value {text : List Char} {result : Value} (evaluated : value text = .ok result) :
    ∃ matrices rows, readAll text = .ok matrices ∧
      (operationOf text).perform matrices = .ok rows ∧ result = .ofMatrix rows := by
  rw [value, map_eq_ok] at evaluated
  obtain ⟨⟨rows, steps⟩, evaluated, rfl⟩ := evaluated
  rw [evaluate] at evaluated
  simp only [bind_eq_ok] at evaluated
  obtain ⟨matrices, isRead, shown, _, rows', performed, same⟩ := evaluated
  cases same
  exact ⟨matrices, rows, isRead, performed, rfl⟩

/-- A sign outside of the matrices asks for an operation on two of them. -/
theorem arity_operationOf (text : List Char) :
    (operationOf text).arity = 2 ↔ ∃ entry ∈ signMarks, entry.1.isIn (outside text) = true := by
  have ofSigns : ∀ entry ∈ signMarks, entry.2.arity = 2 := by decide
  have ofWords : ∀ entry ∈ wordMarks, ¬entry.2.arity = 2 := by decide
  rw [operationOf_eq_lookup]
  exact Requested.lookup_append (fun operation : MatrixOperation => operation.arity = 2) ofSigns
    ofWords (by decide)

end RowMatrix

/-! ## Complex numbers -/

namespace ComplexOperation

/-- How many numbers an operation takes. -/
def arity : ComplexOperation → Nat
  | add | subtract | multiply | divide => 2
  | _ => 1

/-- An operation is performed on as many numbers as it takes. -/
theorem length_of_perform {operation : ComplexOperation} {numbers : List ComplexNumber}
    {result : ComplexNumber} (performed : operation.perform numbers = .ok result) :
    numbers.length = operation.arity := by
  rcases numbers with _ | ⟨a, _ | ⟨b, _ | ⟨c, more⟩⟩⟩
  · cases performed
  · cases operation with
    | add | subtract | multiply | divide => cases performed
    | _ => rfl
  · cases operation with
    | add | subtract | multiply | divide => rfl
    | _ => cases performed
  · cases operation <;> cases performed

end ComplexOperation

namespace ComplexNumber

/-- The signs of operations on complex numbers, in the order in which they are looked for. -/
def signMarks : List (Mark × ComplexOperation) :=
  symbols.map fun entry => (.sign entry.1, entry.2)

/-- The words for operations on complex numbers, in the order in which they are looked for. -/
def wordMarks : List (Mark × ComplexOperation) :=
  keywords.map fun entry => (.word entry.1, entry.2)

theorem operationOf_eq_lookup (text : List Char) : operationOf text =
    Requested.lookup (signMarks ++ wordMarks) .modulus (outside text) :=
  (operationOf_eq text).trans
    (Requested.lookup_signs_words symbols keywords .modulus (outside text)).symm

/-- A sign outside of the numbers asks for an operation on two of them. -/
theorem arity_operationOf (text : List Char) :
    (operationOf text).arity = 2 ↔ ∃ entry ∈ signMarks, entry.1.isIn (outside text) = true := by
  have ofSigns : ∀ entry ∈ signMarks, entry.2.arity = 2 := by decide
  have ofWords : ∀ entry ∈ wordMarks, ¬entry.2.arity = 2 := by decide
  rw [operationOf_eq_lookup]
  exact Requested.lookup_append (fun operation : ComplexOperation => operation.arity = 2) ofSigns
    ofWords (by decide)

end ComplexNumber

/-! ## Evaluation -/

/-- **The first operation that a text asks for is performed on all that it has.** A matrix expression
with a value has the value of the first operation, in the order of the signs and words, that the
text outside of its matrices asks for; the matrices are exactly as many as the operation takes, so
two with a sign outside and one without. The same holds of complex expressions and their numbers.
An expression with another number of matrices or numbers has no value. -/
theorem Requested.performed :
    (∀ text result, RowMatrix.value text = .ok result → ∃ operation matrices rows,
      RowMatrix.readAll text = .ok matrices ∧
      Requested (RowMatrix.signMarks ++ RowMatrix.wordMarks) .determinant (RowMatrix.outside text)
        operation ∧
      operation.perform matrices = .ok rows ∧ result = .ofMatrix rows ∧
      matrices.length = operation.arity ∧
      (operation.arity = 2 ↔
        ∃ entry ∈ RowMatrix.signMarks, entry.1.isIn (RowMatrix.outside text) = true)) ∧
    (∀ text matrices, RowMatrix.readAll text = .ok matrices →
      matrices.length ≠ (RowMatrix.operationOf text).arity →
      ∃ cause, RowMatrix.value text = .error cause) ∧
    (∀ text result steps, ComplexNumber.evaluate text = .ok (result, steps) → ∃ operation,
      Requested (ComplexNumber.signMarks ++ ComplexNumber.wordMarks) .modulus
        (ComplexNumber.outside text) operation ∧
      operation.perform ((ComplexNumber.literals text).map ComplexNumber.Literal.value) =
        .ok result ∧
      (ComplexNumber.literals text).length = operation.arity ∧
      (operation.arity = 2 ↔
        ∃ entry ∈ ComplexNumber.signMarks, entry.1.isIn (ComplexNumber.outside text) = true)) ∧
    ∀ text, (ComplexNumber.literals text).length ≠ (ComplexNumber.operationOf text).arity →
      ∃ failure, ComplexNumber.evaluate text = .error failure := by
  have numbers (text : List Char) (result : ComplexNumber) (steps : List String)
      (evaluated : ComplexNumber.evaluate text = .ok (result, steps)) :
      (ComplexNumber.operationOf text).perform
        ((ComplexNumber.literals text).map ComplexNumber.Literal.value) = .ok result := by
    rw [← ComplexNumber.map_evaluate, evaluated]
    rfl
  refine ⟨fun text result evaluated => ?_, fun text matrices isRead differs => ?_,
    fun text result steps evaluated => ?_, fun text differs => ?_⟩
  · obtain ⟨matrices, rows, isRead, performed, is⟩ := RowMatrix.perform_of_value evaluated
    have requested := @requested_lookup _ (RowMatrix.signMarks ++ RowMatrix.wordMarks) .determinant
      (RowMatrix.outside text)
    rw [← RowMatrix.operationOf_eq_lookup] at requested
    exact ⟨_, matrices, rows, isRead, requested, performed, is,
      MatrixOperation.length_of_perform performed, RowMatrix.arity_operationOf text⟩
  · cases evaluated : RowMatrix.value text with
    | error cause => exact ⟨cause, rfl⟩
    | ok result =>
        obtain ⟨others, rows, again, performed, _⟩ := RowMatrix.perform_of_value evaluated
        cases isRead.symm.trans again
        exact absurd (MatrixOperation.length_of_perform performed) differs
  · have performed := numbers text result steps evaluated
    have length := ComplexOperation.length_of_perform performed
    rw [List.length_map] at length
    have requested := @requested_lookup _ (ComplexNumber.signMarks ++ ComplexNumber.wordMarks)
      .modulus (ComplexNumber.outside text)
    rw [← ComplexNumber.operationOf_eq_lookup] at requested
    exact ⟨_, requested, performed, length, ComplexNumber.arity_operationOf text⟩
  · cases evaluated : ComplexNumber.evaluate text with
    | error failure => exact ⟨failure, rfl⟩
    | ok outcome =>
        have length := ComplexOperation.length_of_perform
          (numbers text outcome.1 outcome.2 evaluated)
        rw [List.length_map] at length
        exact absurd length differs

/-- A word beside a sign is passed over: an inverse that is asked for is not computed, and neither is
a conjugate. -/
theorem Requested.inverse_and_conjugate_passed_over :
    (RowMatrix.operationOf "inv([1,2;3,4]) + [1,2;3,4]".toList = .add ∧
      (Mark.word "inv".toList).isIn
        (RowMatrix.outside "inv([1,2;3,4]) + [1,2;3,4]".toList) = true ∧
      (RowMatrix.value "inv([1,2;3,4]) + [1,2;3,4]".toList).isOk = true) ∧
    ComplexNumber.operationOf "conj(1+2i) * 3+4i".toList = .multiply ∧
      (Mark.word "conj".toList).isIn (ComplexNumber.outside "conj(1+2i) * 3+4i".toList) = true ∧
      (ComplexNumber.evaluate "conj(1+2i) * 3+4i".toList).isOk = true := by
  decide +kernel

end Reckoner
