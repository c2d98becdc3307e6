import Reckoner.Evaluation

/-!
# Showing values

Every value of an expression has a text for display. A rounded number is marked as approximate;
the entries of a matrix and the parts of a complex number are shown as decimals without a mark.
-/

namespace Reckoner.Display

/-- The text of a number without a mark. -/
def plain (settings : Settings) (value : Float) : Except Failure String :=
  (Rendering.ofFloat value settings.decimalPlaces false).map Rendering.text

/-- The text of a number, marked if it is rounded. -/
def number (settings : Settings) (value : Float) : Except Failure String := do
  let shown ← Rendering.ofFloat value settings.decimalPlaces settings.fractions
  return if shown.isRounded then "≈ " ++ shown.text else shown.text

/-- The text of a row of a matrix. -/
def row (settings : Settings) (entries : List Float) : Except Failure String := do
  let texts ← entries.mapM (plain settings)
  return "[" ++ Text.join ", " texts ++ "]"

/-- The text of a complex number. -/
def complex (settings : Settings) (z : ComplexNumber) : Except Failure String := do
  let re ← plain settings z.re
  let im ← plain settings z.im.abs
  return re ++ (if z.im < 0 then " - " else " + ") ++ im ++ "i"

/-- The text of a value. -/
def value (settings : Settings) : Value → Except Failure String
  | .number x => number settings x
  | .matrix rows => (rows.mapM (row settings)).map (Text.join "\n")
  | .complex z => complex settings z
  | .answer text => .ok text

end Reckoner.Display
