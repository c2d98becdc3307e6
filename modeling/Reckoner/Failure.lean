import Reckoner.Decimal.Shortest
import Reckoner.Entries
import Reckoner.Text.Pieces
import Reckoner.Text.Quoted
import Reckoner.Token

/-!
# What can go wrong

The calculator refuses an input for a cause. Each cause belongs to a kind of error, has a
four-digit code and a message. The first digit of a code names an area. Besides the causes there
are failures of a computation that no rule of the calculator describes; evaluation turns them into
causes, and only operations below it show them as they are.
-/

namespace Reckoner

/-- The kinds of errors. -/
inductive ErrorKind where
  | mathError
  | parseError
  | calculationError
  | solverError
  | matrixError
  | invalidExpression
  | unmatchedParentheses
  | divisionByZero
  | unsupportedOperation
  | unsupportedFunction
  | invalidArgument
  | matrixDimensionMismatch
  | singularMatrix
  | noVariableFound
  | invalidEquation
  | equationTooComplex
deriving DecidableEq

namespace ErrorKind

/-- The name of a kind. -/
def name : ErrorKind → String
  | mathError => "MathError"
  | parseError => "ParseError"
  | calculationError => "CalculationError"
  | solverError => "SolverError"
  | matrixError => "MatrixError"
  | invalidExpression => "InvalidExpression"
  | unmatchedParentheses => "UnmatchedParentheses"
  | divisionByZero => "DivisionByZero"
  | unsupportedOperation => "UnsupportedOperation"
  | unsupportedFunction => "UnsupportedFunction"
  | invalidArgument => "InvalidArgument"
  | matrixDimensionMismatch => "MatrixDimensionMismatch"
  | singularMatrix => "SingularMatrix"
  | noVariableFound => "NoVariableFound"
  | invalidEquation => "InvalidEquation"
  | equationTooComplex => "EquationTooComplex"

/-- All kinds. -/
def all : List ErrorKind :=
  [mathError, parseError, calculationError, solverError, matrixError, invalidExpression,
    unmatchedParentheses, divisionByZero, unsupportedOperation, unsupportedFunction,
    invalidArgument, matrixDimensionMismatch, singularMatrix, noVariableFound, invalidEquation,
    equationTooComplex]

/-- The kind with a name. -/
def ofName? (name : String) : Option ErrorKind :=
  all.find? fun kind => kind.name == name

/-- The code that a kind has of itself. -/
def code : ErrorKind → String
  | mathError | parseError | calculationError | solverError | matrixError => "9999"
  | invalidExpression => "3011"
  | unmatchedParentheses => "3009"
  | divisionByZero => "3003"
  | unsupportedOperation => "3004"
  | unsupportedFunction => "2004"
  | invalidArgument => "2002"
  | matrixDimensionMismatch => "3040"
  | singularMatrix => "3041"
  | noVariableFound => "3001"
  | invalidEquation => "3012"
  | equationTooComplex => "3005"

/-- A kind and the more general ones that it belongs to, up to the most general. -/
def families : ErrorKind → List ErrorKind
  | mathError => [mathError]
  | parseError => [parseError, mathError]
  | calculationError => [calculationError, mathError]
  | solverError => [solverError, mathError]
  | matrixError => [matrixError, mathError]
  | invalidExpression => [invalidExpression, parseError, mathError]
  | unmatchedParentheses => [unmatchedParentheses, parseError, mathError]
  | divisionByZero => [divisionByZero, calculationError, mathError]
  | unsupportedOperation => [unsupportedOperation, calculationError, mathError]
  | unsupportedFunction => [unsupportedFunction, calculationError, mathError]
  | invalidArgument => [invalidArgument, calculationError, mathError]
  | matrixDimensionMismatch => [matrixDimensionMismatch, matrixError, mathError]
  | singularMatrix => [singularMatrix, matrixError, mathError]
  | noVariableFound => [noVariableFound, solverError, mathError]
  | invalidEquation => [invalidEquation, solverError, mathError]
  | equationTooComplex => [equationTooComplex, solverError, mathError]

end ErrorKind

/-- The area that the first digit of a code names. -/
def areaOf (code : String) : String :=
  match code.toList with
  | '1' :: _ => "Missing Files"
  | '2' :: _ => "Scientific Calculation Error"
  | '3' :: _ => "Calculator Error"
  | '5' :: _ => "Configuration Error"
  | _ => "Runtime Error"

/-- The messages of the codes; those that end in a colon are completed by what they speak of. -/
def standardMessages : Entries String :=
  [("2002", "Invalid argument for function: "),
    ("2004", "Unsupported function: "),
    ("2005", "Factorial, permutation and combination need non-negative integers: "),
    ("3001", "No variable found to solve for."),
    ("3003", "Division by zero"),
    ("3004", "Unsupported operation: "),
    ("3005", "Equation too complex for this solver."),
    ("3008", "More than one '.' in one number."),
    ("3009", "Unmatched parentheses."),
    ("3011", "Invalid expression."),
    ("3012", "Invalid equation: "),
    ("3013", "Unexpected character: "),
    ("3014", "Unknown variable: "),
    ("3022", "One of the equation sides is empty: "),
    ("3026", "Number too large (Arithmetic overflow)."),
    ("3040", "Matrix dimensions do not match."),
    ("3041", "Matrix is singular (non-invertible)."),
    ("3042", "Invalid matrix literal: "),
    ("5001", "Invalid variable name: "),
    ("5002", "Invalid graph range."),
    ("9999", "Unexpected error: ")]

/-- The message of a code; an unknown code has that of unexpected errors. -/
def standardMessage (code : String) : String :=
  (standardMessages.get? code).getD "Unexpected error: "

/-- Why the calculator refuses an input. -/
inductive Cause where
  /-- A number has a second point. -/
  | repeatedPoint
  | unexpectedCharacter (c : Char)
  | unknownVariable (name : String)
  | unmatchedParentheses
  /-- A comma stands outside of parentheses. -/
  | strayComma
  | missingOperand (op : Operator)
  | unexpectedToken (text : String)
  /-- Operands and operators do not fit together. -/
  | malformed
  | emptyExpression
  | argumentCount (name : String) (expected given : Nat)
  | divisionByZero
  | unsupportedOperation (symbol : String)
  | unsupportedFunction (name : String)
  | numberTooLarge
  /-- A function has no value for the arguments. -/
  | outsideDomain (name : String) (arguments : List Float)
  /-- A function that counts is given something else than a natural number. -/
  | notCounting (name : String) (value : Float)
  /-- What a variable is to be named by is not a word of letters. -/
  | invalidName (shown : String)
  | reservedName (name : String)
  /-- A variable is bound to something else than a number. -/
  | notNumber (name : String)
  | graphRange
  | noMatrix
  | needsTwoMatrices (operation : String)
  | needsOneMatrix (operation : String)
  | matrixLiteral (body : String)
  | raggedMatrix (body : String)
  | dimensionMismatch
  | singularMatrix
  | noComplexNumber
  | needsTwoNumbers (operation : String)
  | needsOneNumber (operation : String)
  | noVariable
  | notEquation (equation : String)
  | emptySide (equation : String)
  | tooComplex
  /-- A failure that no rule of the calculator describes. -/
  | unexpected

namespace Cause

/-- The kind of error that a cause belongs to. -/
def kind : Cause → ErrorKind
  | unmatchedParentheses => .unmatchedParentheses
  | repeatedPoint | unexpectedCharacter _ | unknownVariable _ | strayComma | missingOperand _
  | unexpectedToken _ | malformed | emptyExpression | argumentCount .. | noMatrix
  | needsTwoMatrices _ | needsOneMatrix _ | matrixLiteral _ | raggedMatrix _ | noComplexNumber
  | needsTwoNumbers _ | needsOneNumber _ => .invalidExpression
  | divisionByZero => .divisionByZero
  | unsupportedOperation _ => .unsupportedOperation
  | unsupportedFunction _ => .unsupportedFunction
  | numberTooLarge => .calculationError
  | outsideDomain .. | notCounting .. | invalidName _ | reservedName _ | notNumber _
  | graphRange => .invalidArgument
  | dimensionMismatch => .matrixDimensionMismatch
  | singularMatrix => .singularMatrix
  | noVariable => .noVariableFound
  | notEquation _ | emptySide _ => .invalidEquation
  | tooComplex => .equationTooComplex
  | unexpected => .mathError

/-- The code of a cause: that of its kind, unless it has one of its own. -/
def code : Cause → String
  | repeatedPoint => "3008"
  | unexpectedCharacter _ => "3013"
  | unknownVariable _ => "3014"
  | numberTooLarge => "3026"
  | notCounting .. => "2005"
  | invalidName _ | reservedName _ | notNumber _ => "5001"
  | graphRange => "5002"
  | matrixLiteral _ | raggedMatrix _ => "3042"
  | emptySide _ => "3022"
  | cause => cause.kind.code

/-- What the message of the code is completed by. -/
def detail : Cause → String
  | unexpectedCharacter c => Text.quoted [c]
  | unknownVariable name => name
  | unsupportedOperation symbol => symbol
  | unsupportedFunction name => name
  | outsideDomain name arguments =>
      name ++ "(" ++ Text.join ", " (arguments.map Decimal.shortest) ++ ")"
  | notCounting name value => name ++ "(" ++ Decimal.shortest value ++ ")"
  | invalidName shown => shown
  | reservedName name => "'" ++ name ++ "' is a reserved constant or function name"
  | notNumber name => "'" ++ name ++ "' is not bound to a number"
  | matrixLiteral body => "[" ++ body ++ "]"
  | raggedMatrix body => "[" ++ body ++ "] (rows differ in length)"
  | notEquation equation => equation
  | emptySide equation => equation
  | _ => ""

/-- The message of a cause. -/
def message : Cause → String
  | strayComma => "Argument separator ',' outside of a function call."
  | missingOperand op => "Missing number before '" ++ op.symbol ++ "'."
  | unexpectedToken text => "Unexpected token: " ++ text
  | emptyExpression => "Empty expression."
  | argumentCount name expected given =>
      name ++ " expects " ++ toString expected ++ " argument(s), got " ++ toString given ++ "."
  | noMatrix => "No matrix found in expression."
  | needsTwoMatrices operation =>
      "Matrix operation '" ++ operation ++ "' needs exactly two matrices."
  | needsOneMatrix operation =>
      "Matrix operation '" ++ operation ++ "' needs exactly one matrix."
  | noComplexNumber => "No complex number found in expression."
  | needsTwoNumbers operation =>
      "Complex operation '" ++ operation ++ "' needs exactly two numbers."
  | needsOneNumber operation =>
      "Complex operation '" ++ operation ++ "' needs exactly one number."
  | cause => standardMessage cause.code ++ cause.detail

/-- The area of a cause. -/
def area (cause : Cause) : String :=
  areaOf cause.code

end Cause

/-- How a computation can fail. -/
inductive Failure where
  /-- The calculator refuses an input, which evaluation notes beside the cause. -/
  | refused (cause : Cause) (input : Option String)
  /-- A result is past the largest double. -/
  | overflow
  /-- A quotient has no value. -/
  | zeroDivisor
  /-- A value has a type that an operation cannot use. -/
  | wrongType
  /-- A value of the right type is not one that an operation accepts. -/
  | wrongValue
  /-- The place of the settings file holds a directory. -/
  | directory

namespace Failure

/-- A refusal before the input is noted. -/
def of (cause : Cause) : Failure :=
  refused cause none

end Failure

/-- A refusal for a cause. -/
def refuse {α : Type} (cause : Cause) : Except Failure α :=
  .error (Failure.of cause)

end Reckoner
