import Reckoner.Decimal.Significant

/-!
# Tokens

An arithmetic text is a list of tokens. Operators carry what the converter and the stack machine
need to know of them: a symbol and a precedence. Names of functions are kept as they are written.
-/

namespace Reckoner

/-- The compact text of a number in a line of the calculation: fifteen significant digits, and no
sign on a zero. -/
def traceNumber (x : Float) : String :=
  Decimal.significant 15 (if x == 0 then 0 else x)

/-- An operator. -/
inductive Operator where
  | add
  | subtract
  | multiply
  | divide
  | power
  /-- The product sign of matrices, an ordinary product between numbers. -/
  | cross
  /-- The sign in front of an operand. -/
  | negate
  /-- A symbol that no rule knows. -/
  | unknown (symbol : String)
deriving DecidableEq

namespace Operator

/-- The text of an operator. -/
def symbol : Operator → String
  | add => "+"
  | subtract => "-"
  | multiply => "*"
  | divide => "/"
  | power => "^"
  | cross => "×"
  | negate => "neg"
  | unknown symbol => symbol

/-- The operator with a symbol. -/
def ofSymbol (symbol : String) : Operator :=
  match symbol with
  | "+" => add
  | "-" => subtract
  | "*" => multiply
  | "/" => divide
  | "^" => power
  | "×" => cross
  | "neg" => negate
  | symbol => unknown symbol

/-- The binary operator that a character of a text stands for. -/
def ofChar? : Char → Option Operator
  | '+' => some add
  | '-' => some subtract
  | '*' => some multiply
  | '/' => some divide
  | '^' => some power
  | '×' => some cross
  | _ => none

/-- How tightly an operator binds, in halves: a sign binds between a product and a power. -/
def halves : Operator → Nat
  | add => 2
  | subtract => 2
  | multiply => 4
  | divide => 4
  | negate => 5
  | power => 6
  | cross => 8
  | unknown _ => 0

end Operator

/-- A token of an arithmetic text. -/
inductive Token where
  | number (value : Float)
  | identifier (name : String)
  | operator (op : Operator)
  | function (name : String)
  | opening
  | closing
  | comma
  /-- A token of a kind that no rule knows. -/
  | unknown (text : String)

namespace Token

/-- The text of a token in a line of the calculation. -/
def text : Token → String
  | number value => traceNumber value
  | identifier name => name
  | operator op => op.symbol
  | function name => name
  | opening => "("
  | closing => ")"
  | comma => ","
  | unknown text => text

end Token

end Reckoner
