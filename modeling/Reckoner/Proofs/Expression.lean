import Reckoner.Proofs.Outcome
import Reckoner.Scalar.StackMachine

/-!
# Expressions

An arithmetic expression as a tree, with its meaning by recursion on the tree: operands are
evaluated from left to right before their operator or function is applied. The post-order of a
tree lists every node after its operands, as tokens (`Reckoner.Expression.postOrder`) or as
subtrees (`Reckoner.Expression.nodes`).
-/

namespace Reckoner

/-- The operator stands between two operands. -/
def Operator.isBinary : Operator → Bool
  | add | subtract | multiply | divide | power | cross => true
  | negate | unknown _ => false

/-- The token is an operator or a function. -/
def Token.isOperation : Token → Bool
  | operator _ | function _ => true
  | _ => false

/-- An arithmetic expression. -/
inductive Expression where
  | number (value : Float)
  /-- A constant or a variable. -/
  | name (symbol : String)
  | negation (operand : Expression)
  | operation (op : Operator) (left right : Expression)
  | call (function : String) (arguments : List Expression)

namespace Expression

/-- Induction on an expression, with the hypothesis for every argument of a call. -/
@[elab_as_elim, induction_eliminator]
theorem induct {motive : Expression → Prop}
    (number : ∀ value, motive (.number value))
    (name : ∀ symbol, motive (.name symbol))
    (negation : ∀ operand, motive operand → motive (.negation operand))
    (operation : ∀ op left right, motive left → motive right → motive (.operation op left right))
    (call : ∀ function arguments, (∀ argument ∈ arguments, motive argument) →
      motive (.call function arguments)) (tree : Expression) : motive tree := by
  refine @Expression.rec motive (fun arguments => ∀ argument ∈ arguments, motive argument)
    number name negation operation call ?_ ?_ tree
  · intro argument member
    exact absurd member List.not_mem_nil
  · intro first rest ofFirst ofRest argument member
    cases member with
    | head => exact ofFirst
    | tail _ member => exact ofRest argument member

/-- Operators between operands are binary, and functions are known and have as many arguments as
they take. -/
inductive WellFormed : Expression → Prop
  | number (value : Float) : WellFormed (.number value)
  | name (symbol : String) : WellFormed (.name symbol)
  | negation {operand : Expression} (ofOperand : WellFormed operand) :
      WellFormed (.negation operand)
  | operation {op : Operator} {left right : Expression} (binary : op.isBinary = true)
      (ofLeft : WellFormed left) (ofRight : WellFormed right) :
      WellFormed (.operation op left right)
  | call {function : String} {arguments : List Expression} {f : NamedFunction}
      (known : NamedFunction.ofName? function = some f) (count : arguments.length = f.arity)
      (ofArguments : ∀ argument ∈ arguments, WellFormed argument) :
      WellFormed (.call function arguments)

mutual

/-- The tokens of an expression, every operator and function after its operands. -/
def postOrder : Expression → List Token
  | .number value => [.number value]
  | .name symbol => [.identifier symbol]
  | .negation operand => operand.postOrder ++ [.operator .negate]
  | .operation op left right => left.postOrder ++ right.postOrder ++ [.operator op]
  | .call function arguments => postOrders arguments ++ [.function function]

/-- The tokens of expressions, one after the other. -/
def postOrders : List Expression → List Token
  | [] => []
  | first :: rest => first.postOrder ++ postOrders rest

end

theorem postOrders_append (first second : List Expression) :
    postOrders (first ++ second) = postOrders first ++ postOrders second := by
  induction first with
  | nil => rfl
  | cons tree first ih => rw [List.cons_append, postOrders, postOrders, ih, List.append_assoc]

theorem postOrders_singleton (tree : Expression) : postOrders [tree] = tree.postOrder := by
  rw [postOrders, postOrders, List.append_nil]

mutual

/-- The expression and its parts, every one after its operands. -/
def nodes : Expression → List Expression
  | .number value => [.number value]
  | .name symbol => [.name symbol]
  | .negation operand => operand.nodes ++ [.negation operand]
  | .operation op left right => left.nodes ++ right.nodes ++ [.operation op left right]
  | .call function arguments => nodesOf arguments ++ [.call function arguments]

/-- The parts of expressions, one expression after the other. -/
def nodesOf : List Expression → List Expression
  | [] => []
  | first :: rest => first.nodes ++ nodesOf rest

end

variable (degrees : Bool) (environment : String → Option Float)

mutual

/-- The value of an expression where names have the values of an environment. The first operand
that has no value decides how the evaluation fails. -/
def value : Expression → Except Failure Float
  | .number value => .ok value
  | .name symbol =>
      match environment symbol with
      | some value => .ok value
      | none => refuse (.unknownVariable symbol)
  | .negation operand => do
      let a ← operand.value
      return -a
  | .operation op left right => do
      let a ← left.value
      let b ← right.value
      Scalar.applyOperator op a b
  | .call function arguments => do
      let operands ← values arguments
      NamedFunction.applyNamed function operands degrees

/-- The values of expressions, from left to right. -/
def values : List Expression → Except Failure (List Float)
  | [] => .ok []
  | first :: rest => do
      let a ← first.value
      let others ← values rest
      return a :: others

end

/-- The line that the evaluation of a part leaves: its operands and its value. Parts without
operands and parts without a value leave none. -/
def line? : Expression → Option String
  | .number _ | .name _ => none
  | .negation operand => do
      let a ← (operand.value degrees environment).toOption
      return Scalar.negationLine a (-a)
  | .operation op left right => do
      let a ← (left.value degrees environment).toOption
      let b ← (right.value degrees environment).toOption
      let result ← (Scalar.applyOperator op a b).toOption
      return Scalar.operatorLine op a b result
  | .call function arguments => do
      let operands ← (values degrees environment arguments).toOption
      let result ← (NamedFunction.applyNamed function operands degrees).toOption
      return Scalar.functionLine function operands result

/-- The lines of an expression, part by part in post-order. -/
def lines (tree : Expression) : List String :=
  tree.nodes.filterMap (line? degrees environment)

variable {degrees environment}

open Outcome

theorem value_negation_eq_ok {operand : Expression} {a : Float} :
    (negation operand).value degrees environment = .ok a ↔
      ∃ b, operand.value degrees environment = .ok b ∧ -b = a := by
  simp only [value, bind_eq_ok, pure_eq_ok, Except.ok.injEq]

theorem value_operation_eq_ok {op : Operator} {left right : Expression} {a : Float} :
    (operation op left right).value degrees environment = .ok a ↔
      ∃ b, left.value degrees environment = .ok b ∧
        ∃ c, right.value degrees environment = .ok c ∧ Scalar.applyOperator op b c = .ok a := by
  simp only [value, bind_eq_ok]

theorem value_call_eq_ok {function : String} {arguments : List Expression} {a : Float} :
    (call function arguments).value degrees environment = .ok a ↔
      ∃ operands, values degrees environment arguments = .ok operands ∧
        NamedFunction.applyNamed function operands degrees = .ok a := by
  simp only [value, bind_eq_ok]

theorem values_cons_eq_ok {first : Expression} {rest : List Expression} {operands : List Float} :
    values degrees environment (first :: rest) = .ok operands ↔
      ∃ a, first.value degrees environment = .ok a ∧
        ∃ others, values degrees environment rest = .ok others ∧ a :: others = operands := by
  simp only [values, bind_eq_ok, pure_eq_ok, Except.ok.injEq]

theorem values_length {arguments : List Expression} {operands : List Float}
    (evaluated : values degrees environment arguments = .ok operands) :
    operands.length = arguments.length := by
  induction arguments generalizing operands with
  | nil =>
      cases evaluated
      rfl
  | cons first rest ih =>
      obtain ⟨a, _, others, ofRest, rfl⟩ := values_cons_eq_ok.mp evaluated
      rw [List.length_cons, List.length_cons, ih ofRest]

/-! ## All parts of an expression with a value have values -/

end Expression

end Reckoner
