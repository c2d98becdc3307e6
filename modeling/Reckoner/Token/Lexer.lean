import Reckoner.Decimal.Reader
import Reckoner.NamedFunction
import Reckoner.Text.Letter

/-!
# Reading tokens

A text is read from left to right. Numbers and names are taken as long as possible; blanks separate
and are dropped. A name with digits behind it is one name where a function goes by it. Any other
character is refused, or skipped by a lenient reader.
-/

namespace Reckoner.Token

open Reckoner.Text

/-- The digits at the start of a text, and what follows. -/
def takeDigits (text : List Char) : List Char × List Char :=
  (text.takeWhile isDecimalDigit, text.dropWhile isDecimalDigit)

/-- A point with the digits behind it, if the text starts with one, and what follows. -/
def takePoint : List Char → List Char × List Char
  | '.' :: text => ('.' :: (takeDigits text).1, (takeDigits text).2)
  | text => ([], text)

/-- An exponent with its mark, if the text starts with one, and what follows. -/
def takeExponent : List Char → List Char × List Char
  | mark :: sign :: digit :: text =>
      if mark == 'e' || mark == 'E' then
        if (sign == '+' || sign == '-') && isDecimalDigit digit then
          (mark :: sign :: digit :: (takeDigits text).1, (takeDigits text).2)
        else if isDecimalDigit sign then
          (mark :: sign :: (takeDigits (digit :: text)).1, (takeDigits (digit :: text)).2)
        else ([], mark :: sign :: digit :: text)
      else ([], mark :: sign :: digit :: text)
  | [mark, digit] =>
      if (mark == 'e' || mark == 'E') && isDecimalDigit digit then ([mark, digit], [])
      else ([], [mark, digit])
  | text => ([], text)

/-- The rest of a number that started with a digit, and what follows. -/
def takeAfterDigit (text : List Char) : List Char × List Char :=
  let (whole, text) := takeDigits text
  let (fraction, text) := takePoint text
  let (exponent, text) := takeExponent text
  (whole ++ fraction ++ exponent, text)

/-- The rest of a number that started with a point, and what follows. -/
def takeAfterPoint (text : List Char) : List Char × List Char :=
  let (fraction, text) := takeDigits text
  let (exponent, text) := takeExponent text
  (fraction ++ exponent, text)

/-- The text of a number and what follows it, if the text starts with a number. A number starts
with an ASCII digit, or with a point and one. -/
def takeNumber? : List Char → Option (List Char × List Char)
  | [] => none
  | c :: text =>
      if c.isDigit then some (c :: (takeAfterDigit text).1, (takeAfterDigit text).2)
      else if c == '.' && (text.head?.any Char.isDigit) then
        some (c :: (takeAfterPoint text).1, (takeAfterPoint text).2)
      else none

/-- The token of a name: a function in any case of its letters, or a variable. -/
def ofName (name : List Char) : Token :=
  let name := String.ofList name
  if (NamedFunction.ofName? name).isSome then function (lowerName name) else identifier name

/-- The name that a text starts with after its first letter, and what follows. -/
def takeName (first : Char) (text : List Char) : List Char × List Char :=
  let letters := first :: text.takeWhile isLetter
  let rest := text.dropWhile isLetter
  let digits := rest.takeWhile Char.isDigit
  if !digits.isEmpty && (NamedFunction.ofName? (String.ofList (letters ++ digits))).isSome then
    (letters ++ digits, rest.dropWhile Char.isDigit)
  else (letters, rest)

/-- The token that a single character stands for. -/
def ofChar? : Char → Option Token
  | '(' => some opening
  | ')' => some closing
  | ',' => some comma
  | '√' => some (function "sqrt")
  | 'π' => some (number 3.141592653589793)
  | c => (Operator.ofChar? c).map operator

theorem length_dropWhile_le {α : Type} (p : α → Bool) (text : List α) :
    (text.dropWhile p).length ≤ text.length :=
  (List.dropWhile_sublist p).length_le

theorem length_takeDigits (text : List Char) : (takeDigits text).2.length ≤ text.length :=
  length_dropWhile_le _ _

theorem length_takePoint (text : List Char) : (takePoint text).2.length ≤ text.length := by
  unfold takePoint
  split
  · have := length_takeDigits ‹_›
    simp only [List.length_cons]
    omega
  · simp

theorem length_takeExponent (text : List Char) : (takeExponent text).2.length ≤ text.length := by
  unfold takeExponent
  split
  · rename_i mark sign digit text
    have short := length_takeDigits text
    have long := length_takeDigits (digit :: text)
    simp only [List.length_cons] at long
    split
    · split
      · simp only [List.length_cons]
        omega
      · split
        · simp only [List.length_cons]
          omega
        · simp
    · simp
  · split <;> simp
  · simp

theorem length_takeAfterDigit (text : List Char) :
    (takeAfterDigit text).2.length ≤ text.length :=
  calc
    _ ≤ _ := length_takeExponent _
    _ ≤ _ := length_takePoint _
    _ ≤ _ := length_takeDigits text

theorem length_takeAfterPoint (text : List Char) :
    (takeAfterPoint text).2.length ≤ text.length :=
  Nat.le_trans (length_takeExponent _) (length_takeDigits text)

/-- A number has at least one character. -/
theorem length_takeNumber? {text digits rest : List Char}
    (taken : takeNumber? text = some (digits, rest)) : rest.length < text.length := by
  unfold takeNumber? at taken
  split at taken
  · contradiction
  · rename_i c text
    split at taken
    · cases taken
      have := length_takeAfterDigit text
      simp only [List.length_cons]
      omega
    · split at taken
      · cases taken
        have := length_takeAfterPoint text
        simp only [List.length_cons]
        omega
      · contradiction

theorem length_takeName (first : Char) (text : List Char) :
    (takeName first text).2.length ≤ text.length := by
  have letters := length_dropWhile_le isLetter text
  have digits := length_dropWhile_le Char.isDigit (text.dropWhile isLetter)
  simp only [takeName]
  split <;> simp only <;> omega

/-- The double that the text of a number denotes. -/
def numberValue (digits : List Char) : Float :=
  (Decimal.readFloat? digits).getD 0

/-- The tokens of a text. A lenient reader skips the characters that no token has. -/
def scan (lenient : Bool) (text : List Char) : Except Cause (List Token) :=
  match taken : takeNumber? text with
  | some (_, '.' :: _) => .error .repeatedPoint
  | some (digits, rest) =>
      have := length_takeNumber? taken
      (scan lenient rest).map (number (numberValue digits) :: ·)
  | none =>
      match text with
      | [] => .ok []
      | c :: text =>
          match ofChar? c with
          | some token => (scan lenient text).map (token :: ·)
          | none =>
              if isBlank c then scan lenient text
              else if isLetter c then
                have := length_takeName c text
                (scan lenient (takeName c text).2).map (ofName (takeName c text).1 :: ·)
              else if lenient then scan lenient text
              else .error (.unexpectedCharacter c)
termination_by text.length

end Reckoner.Token
