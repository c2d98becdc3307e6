import Reckoner.Equation.Shape
import Reckoner.Rendering
import Reckoner.Scalar.Evaluation

/-!
# Solving a linear equation

From `a x + b = c` the solver finds `x = (c - b) / a`. The constant terms of the left side are
evaluated one by one and added from left to right.
-/

namespace Reckoner.Equation

/-- The terms of the left side, as far as they have been read. -/
structure LeftSide where
  /-- The coefficient of the unknown. -/
  coefficient : Option Float
  /-- The sum of the constant terms. -/
  constant : Float

/-- Reads one more term of the left side. -/
def LeftSide.addTerm (settings : Settings) (unknown : Char) (side : LeftSide)
    (term : List Char) : Report LeftSide :=
  if term.contains unknown then do
    let coefficient ← Equation.coefficient term [unknown]
    return { side with coefficient := some coefficient }
  else do
    let (value, _) ← Scalar.evaluate term [] settings
    return { side with constant := side.constant + value }

/-- Reads the left side of an equation. -/
def readLeft (settings : Settings) (unknown : Char) (left : List Char) : Report LeftSide :=
  (terms left).foldlM (LeftSide.addTerm settings unknown) ⟨none, 0⟩

/-- An equation whose unknown stands on the left only: `coefficient * unknown + left = right`. -/
structure Linear where
  unknown : String
  coefficient : Float
  left : Float
  right : Float

/-- The steps that bring the unknown to the left. -/
def openingSteps (equation unknown left right : String) : List String :=
  ["Original equation: " ++ equation,
    "Solving for variable: " ++ unknown,
    "Moving all terms with " ++ unknown ++
      " to the left side, and all other terms to the right side",
    "Rearranging to: " ++ left ++ " - (" ++ right ++ ") = 0"]

namespace Linear

/-- What the multiple of the unknown equals. -/
def difference (linear : Linear) : Float := linear.right - linear.left

/-- The steps that collect the constants. -/
def collectingSteps (linear : Linear) : List String :=
  let a := traceNumber linear.coefficient
  let b := traceNumber linear.left
  let c := traceNumber linear.right
  ["Coefficient of " ++ linear.unknown ++ ": " ++ a,
    "Constant term on left: " ++ b,
    "Constant term on right: " ++ c,
    "Rearranged equation: " ++ a ++ linear.unknown ++ " = " ++ c ++ " - " ++ b,
    a ++ linear.unknown ++ " = " ++ traceNumber linear.difference]

/-- The steps of the final division. -/
def dividingSteps (linear : Linear) : List String :=
  [linear.unknown ++ " = " ++ traceNumber linear.difference ++ " / " ++
      traceNumber linear.coefficient,
    linear.unknown ++ " = " ++ traceNumber (linear.difference / linear.coefficient)]

/-- The answer to an equation, and the steps that lead to it. -/
def solve (linear : Linear) (settings : Settings) : Except Failure (String × List String) :=
  if linear.coefficient == 0 then
    .ok (if linear.difference == 0 then "Infinite solutions" else "No solution",
      linear.collectingSteps)
  else do
    let solution ← Rendering.ofFloat (linear.difference / linear.coefficient)
      settings.decimalPlaces settings.fractions
    return (linear.unknown ++ " = " ++ solution.text,
      linear.collectingSteps ++ linear.dividingSteps)

end Linear

/-- The two sides of an equation with exactly one sign of equality. -/
def sides? (equation : List Char) : Option (List Char × List Char) :=
  match Text.pieces '=' equation with
  | [left, right] => some (Text.strip left, Text.strip right)
  | _ => none

/-- Solves an equation: the answer, and the steps that lead to it. -/
def solve (equation : List Char) (settings : Settings) : Report (String × List String) := do
  let source := String.ofList equation
  match sides? equation with
  | none => Report.refuse (.notEquation source)
  | some (left, right) =>
      if left.isEmpty || right.isEmpty then Report.refuse (.emptySide source)
      else
        match unknown? equation with
        | none => Report.refuse .noVariable
        | some unknown =>
            if !isSimple left right [unknown] then Report.refuse .tooComplex
            else do
              let side ← readLeft settings unknown left
              let (constant, _) ← Scalar.evaluate right [] settings
              match side.coefficient with
              | none => Report.refuse .unexpected
              | some coefficient =>
                  let name := String.ofList [unknown]
                  let linear : Linear := ⟨name, coefficient, side.constant, constant⟩
                  let (answer, steps) ← linear.solve settings
                  return (answer,
                    openingSteps source name (String.ofList left) (String.ofList right) ++ steps)

end Reckoner.Equation
