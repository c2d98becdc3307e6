import Reckoner.Decimal.Binary
import Reckoner.Failure

/-!
# Functions that count

Factorials, arrangements and selections are exact natural numbers, rounded once. Arguments whose
result is certain to be past the largest double are refused before anything is computed.
-/

namespace Reckoner.Numeric

/-- The product of the natural numbers up to `n`. -/
def factorial : Nat → Nat
  | 0 => 1
  | n + 1 => (n + 1) * factorial n

/-- The product of `count` factors from `n` downwards. -/
def fallingProduct (n : Nat) : Nat → Nat
  | 0 => 1
  | count + 1 => fallingProduct n count * (n - count)

/-- The number of ways to arrange `r` of `n` things. -/
def arrangements (n r : Nat) : Nat :=
  if n < r then 0 else fallingProduct n r

/-- The number of ways to select `r` of `n` things. -/
def selections (n r : Nat) : Nat :=
  if n < r then 0
  else
    let k := min r (n - r)
    fallingProduct n k / factorial k

/-- The largest number whose factorial is within the doubles. -/
def largestFactorial : Nat := 170

/-- Selections of more things than this, and of all but more than this, are past the doubles. -/
def largestSelection : Nat := 1023

/-- The natural number that an argument of a counting function has to be. -/
def countingArgument (name : String) (value : Float) : Except Failure Nat :=
  if Decimal.isWhole value && 0 ≤ value then .ok (Decimal.toInteger value).toNat
  else refuse (.notCounting name value)

/-- The double nearest to a count. -/
def ofCount (n : Nat) : Except Failure Float :=
  match Decimal.ofInteger? n with
  | some value => .ok value
  | none => .error .overflow

/-- The factorial of a double. -/
def factorialOf (x : Float) : Except Failure Float := do
  let n ← countingArgument "factorial" x
  if largestFactorial < n then refuse .numberTooLarge
  else ofCount (factorial n)

/-- The arrangements of doubles. -/
def permutationOf (x y : Float) : Except Failure Float := do
  let n ← countingArgument "permutation" x
  let r ← countingArgument "permutation" y
  if r ≤ n && largestFactorial < r then refuse .numberTooLarge
  else ofCount (arrangements n r)

/-- The selections of doubles. -/
def combinationOf (x y : Float) : Except Failure Float := do
  let n ← countingArgument "combination" x
  let r ← countingArgument "combination" y
  if r ≤ n && largestSelection < min r (n - r) then refuse .numberTooLarge
  else ofCount (selections n r)

end Reckoner.Numeric
