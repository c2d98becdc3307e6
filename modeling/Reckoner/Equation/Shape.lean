import Reckoner.Decimal.Reader
import Reckoner.Failure
import Reckoner.Text.Blank
import Reckoner.Text.Case
import Reckoner.Text.Letter

/-!
# The shape of a linear equation

The solver accepts equations whose unknown stands exactly once, on the left, beside plain numbers.
A side is cut into terms, each with its sign, and the term of the unknown gives its coefficient.
-/

namespace Reckoner.Equation

open Reckoner.Text

/-- The function names that are no unknowns. -/
def knownFunctions : List String := ["sin", "cos", "tan", "log", "ln", "sqrt"]

/-- The words of a text, where `word` holds the letters of the word that is being read. -/
def wordsAfter (word : List Char) : List Char → List (List Char)
  | [] => if word.isEmpty then [] else [word]
  | c :: rest =>
      if isWordLetter c then wordsAfter (word ++ [c]) rest
      else if word.isEmpty then wordsAfter [] rest
      else word :: wordsAfter [] rest

/-- The words of a text. -/
def wordsOf (text : List Char) : List (List Char) :=
  wordsAfter [] text

/-- The unknown of an equation: the first letter of the first word that is no function name. -/
def unknown? (equation : List Char) : Option Char :=
  ((wordsOf equation).find? fun word =>
    !knownFunctions.contains (String.ofList (lower word))).bind List.head?

/-- A character of plain numbers and their arithmetic. -/
def isNumeric (c : Char) : Bool :=
  isDecimalDigit c || isBlank c || c == '+' || c == '-' || c == '*' || c == '/' || c == '.'

/-- The text is the given one between numeric characters only. -/
def isAmongNumbers (unknown : List Char) (text : List Char) : Bool :=
  (match after? unknown text with
    | some rest => rest.all isNumeric
    | none => false) ||
  match text with
  | [] => false
  | c :: rest => isNumeric c && isAmongNumbers unknown rest

/-- The unknown stands on the left among numbers, and the right side is numbers. -/
def isSimple (left right unknown : List Char) : Bool :=
  isAmongNumbers unknown left && !right.isEmpty && right.all isNumeric

/-- A plus or a minus. -/
def isSign (c : Char) : Bool := c == '+' || c == '-'

/-- A sign after the character belongs to the term that the character is in. -/
def holdsSign (c : Char) : Bool :=
  c == '*' || c == '/' || c == '+' || c == '-'

/-- The terms of a side without blanks, where `term` is what has been read of the current term. -/
def termsAfter (term : List Char) : List Char → List (List Char)
  | [] => if term.isEmpty then [] else [term]
  | c :: rest =>
      if isSign c && term.getLast?.any (fun last => !holdsSign last) then
        term :: termsAfter [c] rest
      else termsAfter (term ++ [c]) rest

/-- The terms of a side, each with its sign. -/
def terms (side : List Char) : List (List Char) :=
  termsAfter [] (side.filter fun c => !isBlank c)

/-- The ways to read the start of a text as digits with at most one point among them, the longest
first, each with what follows. -/
def decimalStarts (text : List Char) : List (List Char × List Char) :=
  let whole := (text.takeWhile isDecimalDigit).length
  let withPoint := match text.drop whole with
    | '.' :: rest =>
        (List.range ((rest.takeWhile isDecimalDigit).length + 1)).reverse.map fun n =>
          whole + 1 + n
    | _ => []
  let withoutPoint := (List.range (whole + 1)).reverse
  (withPoint ++ withoutPoint).map text.splitAt

/-- The divisor that a text is, if it is a decimal that ends in a digit. -/
def divisor? (text : List Char) : Option (List Char) :=
  let rest := text.dropWhile isDecimalDigit
  let fraction := match rest with
    | '.' :: rest => rest
    | rest => rest
  if (text.getLast?.any isDecimalDigit) && fraction.all isDecimalDigit then some text else none

/-- The parts of a term that is a multiple of the unknown. -/
structure Multiple where
  negative : Bool
  digits : List Char
  divisor : Option (List Char)

/-- What follows the unknown in its term: nothing, or a divisor. -/
def divisorPart? : List Char → Option (Option (List Char))
  | [] => some none
  | '/' :: rest => (divisor? rest).map some
  | _ => none

/-- The multiple of the unknown after digits that have been read, with or without the sign of the
product. -/
def multipleAfter? (negative : Bool) (unknown digits rest : List Char) : Option Multiple :=
  let withoutSign := (after? unknown rest).bind divisorPart?
  let withSign := match rest with
    | '*' :: rest => (after? unknown rest).bind divisorPart?
    | _ => none
  (withSign.or withoutSign).map fun divisor => ⟨negative, digits, divisor⟩

/-- The multiple of the unknown that follows a sign. -/
def unsignedMultiple? (negative : Bool) (unknown text : List Char) : Option Multiple :=
  (decimalStarts text).findSome? fun (digits, rest) => multipleAfter? negative unknown digits rest

/-- The multiple of the unknown that a term is. -/
def multiple? (unknown term : List Char) : Option Multiple :=
  let signed := match term with
    | '-' :: rest => unsignedMultiple? true unknown rest
    | '+' :: rest => unsignedMultiple? false unknown rest
    | _ => none
  signed.or (unsignedMultiple? false unknown term)

/-- The size of a multiple: its digits, or one without digits. -/
def Multiple.size (multiple : Multiple) : Except Failure Float :=
  if multiple.digits.isEmpty then .ok 1
  else
    match Decimal.readFloat? multiple.digits with
    | some size => .ok size
    | none => refuse .tooComplex

/-- The coefficient of a multiple: its size, with its sign and divided by its divisor. -/
def Multiple.coefficient (multiple : Multiple) : Except Failure Float := do
  let size ← multiple.size
  let value := if multiple.negative then -size else size
  match multiple.divisor with
  | none => return value
  | some digits =>
      match Decimal.readFloat? digits with
      | none => .error .wrongValue
      | some divisor =>
          if divisor == 0 then refuse .divisionByZero else return value / divisor

/-- The coefficient of the unknown in a term. -/
def coefficient (term unknown : List Char) : Except Failure Float :=
  match multiple? unknown term with
  | some multiple => multiple.coefficient
  | none => refuse .tooComplex

end Reckoner.Equation
