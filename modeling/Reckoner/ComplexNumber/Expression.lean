import Reckoner.ComplexNumber.Basic
import Reckoner.Decimal.Reader
import Reckoner.Text.Letter

/-!
# Complex numbers in text

A complex number is written as a real part, a sign and an imaginary part with its mark. A minus
before it belongs to it where it cannot be an operation: at the start of the expression, after an
opening parenthesis, a comma or an operator. What is left of the expression tells the operation.
-/

namespace Reckoner.ComplexNumber

open Reckoner.Text

/-- A complex number in an expression, with the places of its first character and of the character
after it. -/
structure Literal where
  first : Nat
  past : Nat
  value : ComplexNumber

/-- A decimal without sign at the start of a text: digits, and a point with digits. -/
def takeDecimal? (text : List Char) : Option (List Char × List Char) :=
  let whole := text.takeWhile isDecimalDigit
  let rest := text.dropWhile isDecimalDigit
  if whole.isEmpty then none
  else
    match rest with
    | '.' :: digits =>
        if digits.head?.any isDecimalDigit then
          some (whole ++ '.' :: digits.takeWhile isDecimalDigit, digits.dropWhile isDecimalDigit)
        else some (whole, rest)
    | _ => some (whole, rest)

/-- The sign between two parts, with blanks around it. -/
def takeInnerSign? (text : List Char) : Option (Bool × List Char) :=
  match stripStart text with
  | '+' :: rest => some (false, stripStart rest)
  | '-' :: rest => some (true, stripStart rest)
  | _ => none

/-- The double that the text of a part denotes. -/
def partValue (digits : List Char) : Float :=
  (Decimal.readFloat? digits).getD 0

/-- A number without a sign of its own at the start of a text, and what follows it. -/
def takeUnsigned? (text : List Char) : Option (ComplexNumber × List Char) := do
  let (real, rest) ← takeDecimal? text
  let (negative, rest) ← takeInnerSign? rest
  let (imaginary, rest) ← takeDecimal? rest
  match rest with
  | 'i' :: rest =>
      if rest.head?.any isWordLetter then none
      else
        let size := partValue imaginary
        some (⟨partValue real, if negative then -size else size⟩, rest)
  | _ => none

/-- The character goes on a decimal, so that no number starts after it. -/
def continuesDecimal (c : Char) : Bool :=
  isDecimalDigit c || c == '.'

/-- The characters after which a minus is a sign. -/
def signContext : List Char := ['(', ',', '+', '-', '*', '/', '×']

/-- The text before a number, nearest first, from a sign of the number on: what stands before the
sign, if the minus is one. -/
def takeOuterSign? (before : List Char) : Option (List Char) :=
  match stripStart before with
  | '-' :: rest =>
      match stripStart rest with
      | [] => some rest
      | c :: _ => if signContext.contains c then some rest else none
  | _ => none

/-- The number at a place, with its sign. The text before the place is given nearest first. -/
def literalAt (before : List Char) (past : Nat) (z : ComplexNumber) : Literal :=
  match takeOuterSign? before with
  | some rest => ⟨rest.length, past, ⟨-z.re, z.im⟩⟩
  | none => ⟨before.length, past, z⟩

/-- The numbers of a text after the text `before`, given nearest first. The next `skip` characters
belong to a number that has been read. -/
def literalsFrom : Nat → List Char → List Char → List Literal
  | _, _, [] => []
  | skip + 1, before, c :: text => literalsFrom skip (c :: before) text
  | 0, before, c :: text =>
      match if before.head?.any continuesDecimal then none else takeUnsigned? (c :: text) with
      | some (z, rest) =>
          let taken := text.length + 1 - rest.length
          literalAt before (before.length + taken) z :: literalsFrom (taken - 1) (c :: before) text
      | none => literalsFrom 0 (c :: before) text

/-- The numbers in an expression, from left to right. -/
def literals (text : List Char) : List Literal :=
  literalsFrom 0 [] text

/-- There is a number in the expression. -/
def occurs (text : List Char) : Bool :=
  !(literals text).isEmpty

/-- The text from a place on without the numbers, each of which becomes a blank. -/
def outsideFrom (place : Nat) (text : List Char) : List Literal → List Char
  | [] => text.drop place
  | literal :: rest =>
      (text.drop place).take (literal.first - place) ++ ' ' :: outsideFrom literal.past text rest

/-- The text without the numbers. -/
def outside (text : List Char) : List Char :=
  outsideFrom 0 text (literals text)

/-- The words for operations, in the order in which they are looked for. -/
def keywords : List (List Char × ComplexOperation) :=
  [("conj".toList, .conjugate), ("real".toList, .real), ("imag".toList, .imaginary),
    ("arg".toList, .argument)]

/-- The operation that the text outside of the numbers asks for: a sign before a word, and the
distance from zero without either. -/
def operationOf (text : List Char) : ComplexOperation :=
  let rest := outside text
  if rest.contains '+' then .add
  else if rest.contains '-' then .subtract
  else if rest.contains '*' || rest.contains '×' then .multiply
  else if rest.contains '/' then .divide
  else
    match keywords.find? fun (word, _) => occursIn word (lower rest) with
    | some (_, operation) => operation
    | none => .modulus

/-- The result of a complex expression, and the steps that lead to it. -/
def evaluate (text : List Char) : Except Failure (ComplexNumber × List String) := do
  let numbers := (literals text).map Literal.value
  let operation := operationOf text
  let result ← operation.perform numbers
  return (result, numbers.zipIdx.map (fun (z, i) => "z" ++ toString (i + 1) ++ " = " ++ z.write) ++
    ["Complex Operation: " ++ operation.name, "Result: " ++ result.write])

end Reckoner.ComplexNumber
