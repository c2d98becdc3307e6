/-!
# Rounding a fraction

All decimal texts round exactly once, to the nearest and from a tie to the even neighbour.
-/

namespace Reckoner.Decimal

/-- The integer nearest to a fraction, an even one from a tie. -/
def roundDiv (numerator denominator : Nat) : Nat :=
  let quotient := numerator / denominator
  let twice := 2 * (numerator % denominator)
  if twice < denominator then quotient
  else if denominator < twice then quotient + 1
  else if quotient % 2 == 0 then quotient else quotient + 1

/-- A fraction divided by ten to the power `grid`, as numerator and denominator. -/
def overPower (numerator denominator : Nat) (grid : Int) : Nat × Nat :=
  (numerator * Nat.pow 10 (-grid).toNat, denominator * Nat.pow 10 grid.toNat)

/-- The fraction is below ten to the given power. -/
def belowPower (numerator denominator : Nat) (power : Int) : Bool :=
  let (n, d) := overPower numerator denominator power
  n < d

/-- The least of `start`, `start + 1`, … whose next power of ten exceeds the fraction, looked for
in `steps` steps. -/
def climbDecade (numerator denominator : Nat) : Nat → Int → Int
  | 0, decade => decade
  | steps + 1, decade =>
      if belowPower numerator denominator (decade + 1) then decade
      else climbDecade numerator denominator steps (decade + 1)

/-- The power of ten of the leading decimal digit of a positive fraction. The estimate from the
binary lengths is at most a few steps too low. -/
def decade (numerator denominator : Nat) : Int :=
  let lengths : Int := (numerator.log2 : Int) - denominator.log2 - 1
  climbDecade numerator denominator 6 (lengths * 30103 / 100000 - 1)

end Reckoner.Decimal
