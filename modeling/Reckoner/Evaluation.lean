import Reckoner.ComplexNumber.Expression
import Reckoner.Equation.Solver
import Reckoner.RowMatrix.Expression

/-!
# Evaluation

An expression is of one of four kinds, told by its text: brackets make it a matrix expression, a
complex number a complex one, a sign of equality an equation; all others are arithmetic. Whatever
goes wrong during evaluation becomes a refusal that notes the input.
-/

namespace Reckoner

/-- The kinds of expressions. -/
inductive ExpressionKind where
  | scalar
  | matrix
  | complex
  | equation
deriving DecidableEq

namespace ExpressionKind

/-- The name of a kind. -/
def name : ExpressionKind → String
  | scalar => "scalar"
  | matrix => "matrix"
  | complex => "complex"
  | equation => "equation"

/-- The kind of an expression. -/
def of (expression : List Char) : ExpressionKind :=
  if expression.contains '[' && expression.contains ']' then matrix
  else if ComplexNumber.occurs expression then complex
  else if expression.contains '=' then equation
  else scalar

end ExpressionKind

/-- What an expression evaluates to. -/
inductive Value where
  | number (value : Float)
  | matrix (rows : RowMatrix Float)
  | complex (value : ComplexNumber)
  /-- The answer to an equation. -/
  | answer (text : String)

namespace Value

/-- The value of a matrix expression: a number for a matrix of order one. -/
def ofMatrix (rows : RowMatrix Float) : Value :=
  match rows.entry? with
  | some value => number value
  | none => matrix rows

end Value

namespace Evaluation

/-- The refusal that a failure becomes, with the input noted. -/
def refusal (input : String) : Failure → Failure
  | .refused cause _ => .refused cause (some input)
  | .overflow => .refused .numberTooLarge (some input)
  | .zeroDivisor => .refused .divisionByZero (some input)
  | _ => .refused .unexpected (some input)

/-- The value and the steps of an expression of a kind. -/
def ofKind (kind : ExpressionKind) (expression : List Char) (bindings : Bindings)
    (settings : Settings) : Report (Value × List String) :=
  match kind with
  | .matrix => do
      if expression.contains '=' then Report.refuse (.notEquation (String.ofList expression))
      else
        let (rows, steps) ← Scalar.orRefuse (RowMatrix.evaluate expression)
        return (.ofMatrix rows, steps)
  | .complex => do
      if expression.contains '=' then Report.refuse (.notEquation (String.ofList expression))
      else
        let (z, steps) ← ComplexNumber.evaluate expression
        return (.complex z, steps)
  | .equation => do
      let (answer, steps) ← Equation.solve expression settings
      return (.answer answer, steps)
  | .scalar => do
      let (value, steps) ← Scalar.evaluate expression bindings settings
      return (.number value, steps)

/-- The diagnostic line of the kind of an expression. -/
def kindLine (expression : List Char) (kind : ExpressionKind) : String :=
  "Classified " ++ Text.quoted expression ++ " as " ++ kind.name

/-- Evaluates an expression: its value, and the steps that lead to it. -/
def evaluate (expression : String) (bindings : Bindings) (settings : Settings) :
    Report (Value × List String) := do
  let text := expression.toList
  let kind := ExpressionKind.of text
  Report.say settings.debug [kindLine text kind]
  let (value, steps) ←
    (ofKind kind text bindings settings).mapFailure (refusal expression)
  return (value, ("Evaluating: " ++ expression) :: steps)

/-- Solves a linear equation: the answer, and the steps that lead to it. -/
def solve (equation : String) (settings : Settings) : Report (String × List String) :=
  (Equation.solve equation.toList settings).mapFailure (refusal equation)

end Evaluation

end Reckoner
