import Reckoner.Decimal.Fixed
import Reckoner.Decimal.Fraction
import Reckoner.Decimal.Significant
import Reckoner.Failure

/-!
# Showing results

A result is shown as an integer if it is one, else rounded to a number of decimal places or, where
fractions are wanted, as the nearest fraction with a small denominator, mixed if it exceeds one.
A mark tells whether the shown number differs from the result.
-/

namespace Reckoner

/-- A shown number, and whether it differs from the result. -/
structure Rendering where
  text : String
  isRounded : Bool

namespace Rendering

/-- The largest denominator of shown fractions. -/
def largestDenominator : Nat := 100000

/-- From this size on an integer is shown with fifteen significant digits. -/
def longInteger : Float := 1e15

/-- A fraction as it is shown: proper, mixed, or an integer. The sign of a mixed number stands
before its integer part. -/
def fractionText (q : Rat) : String :=
  if q.den = 1 then toString q.num
  else if q.num.natAbs ≤ q.den then toString q.num ++ "/" ++ toString q.den
  else
    toString (q.num.tdiv q.den) ++ " " ++ toString (q.num.natAbs % q.den) ++ "/" ++ toString q.den

/-- A text with decimal places without the zeros at its end, nor a point there. -/
def trimZeros (text : List Char) : List Char :=
  if text.contains '.' then
    ((text.reverse.dropWhile (· == '0')).dropWhile (· == '.')).reverse
  else text

/-- The zero has no sign. -/
def unsignedZero (text : List Char) : List Char :=
  if text == ['-', '0'] then ['0'] else text

/-- No text has more decimal places than this. The digits of a text, from the first one on, are
counted in an integer that ends here as well. -/
def placesLimit : Nat := 2147483647

/-- The number of decimal places from which on all further digits of a double are zero. -/
def exactPlaces : Nat := 1100

/-- The text of a double with decimal places, without superfluous zeros. Where the digits are too
many to be counted there are none but zeros, of which one is left. -/
def decimalText (places : Nat) (value : Float) : List Char :=
  if placesLimit < places + Decimal.wholeDigits value then ['0']
  else unsignedZero (trimZeros (Decimal.fixed (min places exactPlaces) value))

/-- A double rounded to decimal places. -/
def decimal (places : Nat) (value : Float) : Except Failure Rendering :=
  if placesLimit < places then .error .wrongValue
  else
    let rounded := Decimal.roundTo places value
    .ok ⟨String.ofList (decimalText places rounded), rounded != value⟩

/-- The integer that a whole double is. -/
def whole (value : Float) : Rendering :=
  if value.abs < longInteger then ⟨toString (Decimal.toInteger value), false⟩
  else ⟨Decimal.significant 15 value, false⟩

/-- A double as the nearest fraction. -/
def fraction (value : Float) : Rendering :=
  let q := Decimal.limitDenominator largestDenominator (Decimal.exact value)
  ⟨fractionText q, q != Decimal.exact value⟩

/-- Shows a double. The number of places matters only where something has to be rounded. -/
def ofFloat (value : Float) (places : Except Failure Nat) (fractions : Bool) :
    Except Failure Rendering :=
  if !value.isFinite then .ok ⟨Decimal.shortest value, false⟩
  else if Decimal.isWhole value then .ok (whole value)
  else if fractions then .ok (fraction value)
  else do
    let places ← places
    decimal places value

end Rendering

end Reckoner
