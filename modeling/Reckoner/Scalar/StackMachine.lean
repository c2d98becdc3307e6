import Reckoner.NamedFunction

/-!
# Running tokens in post-order

Numbers are pushed on a stack; an operator or a function takes its operands from the stack and
pushes its value. Each of them leaves a line that shows operands and value. In the end the stack
holds exactly the result.
-/

namespace Reckoner.Scalar

/-- A power. Zero has no negative power, and a negative base no power with a fraction. -/
def power (base exponent : Float) : Except Failure Float :=
  if base == 0 && exponent < 0 then refuse .divisionByZero
  else
    let value := Float.pow base exponent
    if value.isInf && base.isFinite && exponent.isFinite then .error .overflow else .ok value

/-- The value of an operator between two operands. -/
def applyOperator (op : Operator) (a b : Float) : Except Failure Float :=
  match op with
  | .add => .ok (a + b)
  | .subtract => .ok (a - b)
  | .multiply | .cross => .ok (a * b)
  | .divide => if b == 0 then refuse .divisionByZero else .ok (a / b)
  | .power => power a b
  | .negate | .unknown _ => refuse (.unsupportedOperation op.symbol)

/-- The line of a sign. -/
def negationLine (a result : Float) : String :=
  "-(" ++ traceNumber a ++ ") = " ++ traceNumber result

/-- The line of a binary operator. -/
def operatorLine (op : Operator) (a b result : Float) : String :=
  traceNumber a ++ " " ++ op.symbol ++ " " ++ traceNumber b ++ " = " ++ traceNumber result

/-- The line of a function. -/
def functionLine (name : String) (arguments : List Float) (result : Float) : String :=
  name ++ "(" ++ Text.join ", " (arguments.map traceNumber) ++ ") = " ++ traceNumber result

/-- Runs one token on a stack, topmost value first: the stack afterwards and the lines left. -/
def step (degrees : Bool) (stack : List Float) :
    Token → Except Failure (List Float × List String)
  | .number value => .ok (value :: stack, [])
  | .identifier name => refuse (.unknownVariable name)
  | .operator .negate =>
      match stack with
      | a :: stack => .ok (-a :: stack, [negationLine a (-a)])
      | [] => refuse .malformed
  | .operator op =>
      match stack with
      | b :: a :: stack => do
          let result ← applyOperator op a b
          return (result :: stack, [operatorLine op a b result])
      | _ => refuse .malformed
  | .function name =>
      match NamedFunction.ofName? name with
      | none => refuse (.unsupportedFunction name)
      | some f =>
          if stack.length < f.arity then refuse .malformed
          else do
            let arguments := (stack.take f.arity).reverse
            let result ← f.apply (lowerName name) arguments degrees
            return (result :: stack.drop f.arity, [functionLine name arguments result])
  | token => refuse (.unexpectedToken token.text)

/-- Runs tokens on a stack: the stack afterwards and the lines left, in order. -/
def run (degrees : Bool) (stack : List Float) :
    List Token → Except Failure (List Float × List String)
  | [] => .ok (stack, [])
  | token :: rest => do
      let (stack, lines) ← step degrees stack token
      let (stack, more) ← run degrees stack rest
      return (stack, lines ++ more)

/-- The value of tokens in post-order, and the lines of the calculation. A value past the largest
double is refused. -/
def evaluatePostOrder (degrees : Bool) (tokens : List Token) :
    Except Failure (Float × List String) :=
  match run degrees [] tokens with
  | .ok ([value], lines) => .ok (value, lines)
  | .ok _ => refuse .malformed
  | .error .overflow => refuse .numberTooLarge
  | .error failure => .error failure

end Reckoner.Scalar
