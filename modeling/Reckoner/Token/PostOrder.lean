import Reckoner.Failure

/-!
# Post-order

Tokens in the usual order, with operators between their operands, are brought into post-order,
where every operator and function follows its operands and parentheses are gone. All binary
operators associate to the left. A minus where an operand is due is a sign; a plus there is
dropped. The conversion looks at operators and parentheses only: whether operands are missing or
left over shows when the result is run.
-/

namespace Reckoner.Token

/-- An operand is due after the token. -/
def awaitsOperand : Token → Bool
  | operator _ | function _ | opening | comma => true
  | _ => false

/-- An operand is due: nothing came before, or a token after which one has to come. -/
def operandDue (previous : Option Token) : Bool :=
  match previous with
  | none => true
  | some token => token.awaitsOperand

/-- The tokens above the nearest opening parenthesis of a stack, and the stack from that
parenthesis on. -/
def popGroup : List Token → List Token × List Token
  | [] => ([], [])
  | opening :: stack => ([], opening :: stack)
  | token :: stack =>
      let (popped, rest) := popGroup stack
      (token :: popped, rest)

/-- The token gives way to an operator of the given precedence. -/
def yieldsTo (halves : Nat) : Token → Bool
  | function _ => true
  | operator op => halves ≤ op.halves
  | _ => false

/-- The tokens on top of a stack that give way to an operator, and the stack below them. -/
def popYielding (op : Operator) (stack : List Token) : List Token × List Token :=
  (stack.takeWhile (yieldsTo op.halves), stack.dropWhile (yieldsTo op.halves))

/-- The function on top of a stack, whose arguments have just ended, and the stack below it. -/
def popCalled : List Token → List Token × List Token
  | function name :: stack => ([function name], stack)
  | stack => ([], stack)

/-- What is left on the stack at the end goes out; an opening parenthesis has not been closed. -/
def flush : List Token → Except Cause (List Token)
  | [] => .ok []
  | opening :: _ => .error .unmatchedParentheses
  | token :: stack => (flush stack).map (token :: ·)

/-- The stack after a token and what goes out before the next one. -/
def shunt (stack : List Token) (previous : Option Token) :
    Token → Except Cause (List Token × List Token)
  | number value => .ok ([number value], stack)
  | identifier name => .ok ([identifier name], stack)
  | function name => .ok ([], function name :: stack)
  | opening => .ok ([], opening :: stack)
  | closing =>
      match popGroup stack with
      | (_, []) => .error .unmatchedParentheses
      | (popped, _ :: below) =>
          let (called, rest) := popCalled below
          .ok (popped ++ called, rest)
  | comma =>
      match popGroup stack with
      | (_, []) => .error .strayComma
      | (popped, rest) => .ok (popped, rest)
  | operator op =>
      if operandDue previous then
        match op with
        | .subtract => .ok ([], operator .negate :: stack)
        | .add => .ok ([], stack)
        | op => .error (.missingOperand op)
      else
        let (popped, rest) := popYielding op stack
        .ok (popped, operator op :: rest)
  | unknown text => .error (.unexpectedToken text)

/-- The post-order of the tokens that are left, for a stack and the token before them. -/
def postOrderFrom (stack : List Token) (previous : Option Token) :
    List Token → Except Cause (List Token)
  | [] => flush stack
  | token :: rest => do
      let (out, stack) ← shunt stack previous token
      let following ← postOrderFrom stack (some token) rest
      return out ++ following

/-- The post-order of tokens. -/
def postOrder (tokens : List Token) : Except Cause (List Token) :=
  postOrderFrom [] none tokens

end Reckoner.Token
