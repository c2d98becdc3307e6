import Reckoner.Report
import Reckoner.Scalar.StackMachine
import Reckoner.Settings
import Reckoner.Substitution
import Reckoner.Token.Juxtaposition
import Reckoner.Token.Lexer
import Reckoner.Token.PostOrder

/-!
# Evaluating arithmetic

An arithmetic expression is evaluated in four stages: constants and variables are written into its
text, the text is read as tokens, the tokens are brought into post-order, and these are run.
-/

namespace Reckoner.Scalar

/-- A refusal, if there is a cause for one. -/
def orRefuse {α : Type} : Except Cause α → Except Failure α
  | .ok value => .ok value
  | .error cause => refuse cause

/-- The texts of tokens, quoted and in brackets. -/
def showTokens (tokens : List Token) : String :=
  "[" ++ Text.join ", " (tokens.map fun token => Text.quoted token.text.toList) ++ "]"

/-- The diagnostic lines of the tokens before and after the change of order. -/
def tokenLines (tokens ordered : List Token) : List String :=
  ["Tokens: " ++ showTokens tokens, "Postfix: " ++ showTokens ordered]

/-- The step that shows tokens in post-order. -/
def orderStep (ordered : List Token) : String :=
  "Converted to postfix: " ++ Text.join " " (ordered.map Token.text)

/-- The tokens of an expression, with all signs of products. -/
def tokens (text : List Char) (bindings : Bindings) (lenient : Bool) :
    Except Failure (List Token) := do
  let text ← Substitution.substitute text bindings
  let tokens ← orRefuse (Token.scan lenient text)
  if tokens.isEmpty then refuse .emptyExpression
  else return Token.insertProducts tokens

/-- The value of an arithmetic expression, and the steps of the calculation. -/
def evaluate (text : List Char) (bindings : Bindings) (settings : Settings) :
    Report (Float × List String) := do
  let tokens ← tokens text bindings settings.lenient
  let ordered ← orRefuse (Token.postOrder tokens)
  Report.say settings.debug (tokenLines tokens ordered)
  let (value, steps) ← evaluatePostOrder settings.degrees ordered
  return (value, orderStep ordered :: steps)

end Reckoner.Scalar
