import Reckoner.Text.Blank
import Reckoner.Text.Digit

/-!
# Reading numbers

A number may have blanks around it, a sign, digits of any script and single underscores between
digits. Decimals may have a point and an exponent, or be one of the words for infinity and the
non-number in any case.
-/

namespace Reckoner.Decimal

open Reckoner.Text

/-- A blank that may surround a number; of the ASCII controls only the spacing ones. -/
def isMargin (c : Char) : Bool :=
  isBlank c && !(28 ≤ c.toNat && c.toNat ≤ 31)

/-- The text without the blanks around it. -/
def trimMargins (text : List Char) : List Char :=
  ((text.dropWhile isMargin).reverse.dropWhile isMargin).reverse

/-- The ASCII form of a character of a number. -/
def plainDigit (c : Char) : Char :=
  match digitValue? c with
  | some value => Nat.digitChar value
  | none => c

/-- The text without underscores, each of which must stand between two digits. -/
def dropUnderscores? : List Char → Option (List Char)
  | [] => some []
  | '_' :: _ => none
  | c :: '_' :: d :: rest =>
      if c.isDigit && d.isDigit then (dropUnderscores? (d :: rest)).map (c :: ·) else none
  | c :: rest => (dropUnderscores? rest).map (c :: ·)

/-- The sign of a number and what follows it. -/
def takeSign : List Char → Bool × List Char
  | '-' :: rest => (true, rest)
  | '+' :: rest => (false, rest)
  | text => (false, text)

/-- The value of a run of ASCII digits. -/
def digitsValue (digits : List Char) : Nat :=
  digits.foldl (fun value c => 10 * value + (c.toNat - '0'.toNat)) 0

/-- The exponent part, which must be the whole text; no text stands for no exponent. -/
def readExponent? : List Char → Option Int
  | [] => some 0
  | mark :: rest =>
      let (negative, digits) := takeSign rest
      if (mark == 'e' || mark == 'E') && !digits.isEmpty && digits.all Char.isDigit then
        some (if negative then -(digitsValue digits : Int) else digitsValue digits)
      else none

/-- The double nearest to `digits * 10 ^ exponent`. Powers far past either end of the doubles are
settled by the place of the leading digit. -/
def scaled (digits : Nat) (exponent : Int) : Float :=
  if digits == 0 then 0
  else
    let leading := exponent + (Nat.toDigits 10 digits).length
    if 320 < leading then Float.ofBits 0x7FF0000000000000
    else if leading < -340 then 0
    else Float.ofScientific digits (exponent < 0) exponent.natAbs

/-- An unsigned decimal in ASCII: digits with or without a point, at least one, and an optional
exponent. -/
def readUnsigned? (text : List Char) : Option Float :=
  let whole := text.takeWhile Char.isDigit
  let rest := text.dropWhile Char.isDigit
  let (fraction, rest) := match rest with
    | '.' :: rest => (rest.takeWhile Char.isDigit, rest.dropWhile Char.isDigit)
    | rest => ([], rest)
  if whole.isEmpty && fraction.isEmpty then none
  else (readExponent? rest).map fun exponent =>
    scaled (digitsValue (whole ++ fraction)) (exponent - fraction.length)

/-- The double that a word stands for. -/
def readWord? (word : List Char) : Option Float :=
  match String.ofList (word.map Char.toLower) with
  | "inf" | "infinity" => some (Float.ofBits 0x7FF0000000000000)
  | "nan" => some (Float.ofBits 0x7FF8000000000000)
  | _ => none

/-- The double nearest to the number that a text denotes. -/
def readFloat? (text : List Char) : Option Float := do
  let plain ← dropUnderscores? ((trimMargins text).map plainDigit)
  let (negative, size) := takeSign plain
  let value ← (readWord? size).or (readUnsigned? size)
  return if negative then -value else value

/-- Integers in text may have at most this many digits. -/
def digitLimit : Nat := 4300

/-- The integer that a text denotes. -/
def readInteger? (text : List Char) : Option Int := do
  let plain ← dropUnderscores? ((trimMargins text).map plainDigit)
  let (negative, digits) := takeSign plain
  if digits.isEmpty || !digits.all Char.isDigit || digitLimit < digits.length then none
  else some (if negative then -(digitsValue digits : Int) else digitsValue digits)

end Reckoner.Decimal
