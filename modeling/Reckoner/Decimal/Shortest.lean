import Reckoner.Decimal.Binary
import Reckoner.Decimal.Rounding
import Reckoner.Decimal.Layout

/-!
# The shortest text of a double

A double is written with the fewest significant digits that read back as the same double; of
several such numbers the one nearest to the double is taken, from a tie the even one. The search
tries one digit after the other, and on each decimal grid the two neighbours of the exact value.
-/

namespace Reckoner.Decimal

/-- The number `digits * 10 ^ grid` lies among the reals that round to the double: from half way to
the double below to half way to the double above, the ends included for an even mantissa. -/
def Binary.readsBack (b : Binary) (digits : Nat) (grid : Int) : Bool :=
  let (n, d) := overPower (digits * 4 * b.denominator) (Nat.pow 2 b.exponent.toNat) (-grid)
  let lower := (4 * b.mantissa - if b.narrowBelow then 1 else 2) * d
  let upper := (4 * b.mantissa + 2) * d
  if b.mantissa % 2 == 0 then lower ≤ n && n ≤ upper else lower < n && n < upper

/-- The multiple of `10 ^ grid` next to the value that reads back as the double, if one does. -/
def Binary.onGrid? (b : Binary) (grid : Int) : Option Nat :=
  let (n, d) := overPower b.numerator b.denominator grid
  let low := n / d
  match b.readsBack low grid, b.readsBack (low + 1) grid with
  | true, true => some (roundDiv n d)
  | true, false => some low
  | false, true => some (low + 1)
  | false, false => none

/-- The first grid, from `grid` downwards, on which a number reads back as the double. -/
def Binary.search (b : Binary) : Nat → Int → Nat × Int
  | 0, grid => ((overPower b.numerator b.denominator grid).1, grid)
  | steps + 1, grid =>
      match b.onGrid? grid with
      | some digits => (digits, grid)
      | none => b.search steps (grid - 1)

/-- The decimal digits of a number without the zeros at its end. -/
def significantDigits (n : Nat) : List Char :=
  ((Nat.toDigits 10 n).reverse.dropWhile (· == '0')).reverse

/-- The fewest digits that read back as the positive double, and the power of ten of the first
digit. Seventeen digits always suffice. -/
def shortestDigits (x : Float) : List Char × Int :=
  let b := Binary.ofFloat x
  let (digits, grid) := b.search 17 (decade b.numerator b.denominator)
  (significantDigits digits, grid + (Nat.toDigits 10 digits).length - 1)

/-- Numbers are written positionally below `10 ^ 16`, and always with a point or an exponent. -/
def shortestLayout : Layout where
  positionalBelow := 16
  pointZero := true

/-- The shortest text that reads back as the double. -/
def shortest (x : Float) : String :=
  String.ofList <| signedText ['0', '.', '0'] (fun x =>
    let (digits, exponent) := shortestDigits x
    shortestLayout.text digits exponent) x

end Reckoner.Decimal
