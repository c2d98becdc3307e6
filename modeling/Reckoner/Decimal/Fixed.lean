import Reckoner.Decimal.Binary
import Reckoner.Decimal.Rounding

/-!
# Texts with a given number of decimal places

A finite double is rounded to a multiple of `10 ^ -places` and written with exactly so many places.
-/

namespace Reckoner.Decimal

/-- The absolute value of a finite double in units of `10 ^ -places`, rounded. -/
def unitsOf (places : Nat) (x : Float) : Nat :=
  let b := Binary.ofFloat x
  roundDiv (b.numerator * Nat.pow 10 places) b.denominator

/-- Past this many decimal places a double has no digit that rounding could change. -/
def roundedPlaces : Nat := 323

/-- The double nearest to the double rounded to so many decimal places. -/
def roundTo (places : Nat) (x : Float) : Float :=
  if roundedPlaces < places then x
  else
    let size := Float.ofScientific (unitsOf places x) true places
    if signBit x then -size else size

/-- The number of digits that a finite double has in front of its point. One below one has none. -/
def wholeDigits (x : Float) : Nat :=
  let whole := (toInteger x).natAbs
  if whole = 0 then 0 else (Nat.toDigits 10 whole).length

/-- The text of a finite double with exactly so many decimal places. -/
def fixed (places : Nat) (x : Float) : List Char :=
  let digits := Nat.toDigits 10 (unitsOf places x)
  let padded := List.replicate (places + 1 - digits.length) '0' ++ digits
  let whole := padded.length - places
  let size := padded.take whole ++ if places == 0 then [] else '.' :: padded.drop whole
  if signBit x then '-' :: size else size

end Reckoner.Decimal
