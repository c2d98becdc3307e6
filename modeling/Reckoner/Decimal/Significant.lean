import Reckoner.Decimal.Binary
import Reckoner.Decimal.Rounding
import Reckoner.Decimal.Layout
import Reckoner.Decimal.Shortest

/-!
# Texts with a given number of significant digits

The exact value of a double is rounded to so many significant digits; zeros at the end are left
out. Powers of ten up to the number of digits are written positionally.
-/

namespace Reckoner.Decimal

/-- The positive double rounded to `count` significant digits, and the power of ten of the first
digit. -/
def roundedDigits (count : Nat) (x : Float) : List Char × Int :=
  let b := Binary.ofFloat x
  let grid := decade b.numerator b.denominator - (count - 1 : Nat)
  let (n, d) := overPower b.numerator b.denominator grid
  let digits := roundDiv n d
  (significantDigits digits, grid + (Nat.toDigits 10 digits).length - 1)

/-- The text of a double with at most `count` significant digits, at least one. -/
def significant (count : Nat) (x : Float) : String :=
  let count := max count 1
  String.ofList <| signedText ['0'] (fun x =>
    let (digits, exponent) := roundedDigits count x
    Layout.text ⟨count, false⟩ digits exponent) x

end Reckoner.Decimal
