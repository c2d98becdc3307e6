import Reckoner.Proofs.Classification
import Reckoner.Proofs.Described
import Reckoner.Proofs.Environment
import Reckoner.Proofs.StackMachine
import Reckoner.Proofs.Stages

/-!
# The meaning of a text

The text of an expression evaluates to the value of the expression, where names stand for constants
and bound variables (`Reckoner.Evaluation.evaluate_spaced`). Every stage of the evaluation keeps the
expression: substitution puts numbers in the place of names, the reader gives back the tokens,
products have their signs already, and the post-order of the tokens is that of the expression.
-/

namespace Reckoner

open Outcome Substitution

namespace Scalar

variable {tree : Expression} {text : List Char} {bindings : Bindings}

/-- A text whose tokens are a writing has the value of the tree, or fails as the tree does. -/
theorem outcome_of_tokens {settings : Settings} {level : Nat} {tokens : List Token}
    (read : Scalar.tokens text bindings settings.lenient = .ok tokens)
    (writing : Expression.Written (fun _ => False) none level tree tokens)
    (wellFormed : tree.WellFormed) :
    (Scalar.evaluate text bindings settings).outcome.map Prod.fst =
      (tree.value settings.degrees Expression.unbound).mapError Expression.reported := by
  have ordered := (Expression.converts_of_whole writing).postOrder
  rw [outcome_evaluate, read, ok_bind, ordered]
  change Except.map _ ((Scalar.evaluatePostOrder settings.degrees tree.postOrder).map _) = _
  rw [Expression.evaluatePostOrder_postOrder settings.degrees wellFormed]
  cases tree.value settings.degrees Expression.unbound <;> rfl

/-- The tokens of a text are those that are spelled after substitution, if they are a writing. -/
theorem tokens_of_spelled {level : Nat} {result : List Char} {tokens : List Token}
    (substituted : substitute text bindings = .ok result) (spelled : Token.Spelled tokens result)
    (free : ∀ name, Token.identifier name ∈ tokens → NamedFunction.ofName? name = none)
    (writing : Expression.Written (fun _ => False) none level tree tokens) (lenient : Bool) :
    Scalar.tokens text bindings lenient = .ok tokens := by
  have arranged := Expression.arranged_of_written writing
  have some : tokens ≠ [] := by
    rintro rfl
    obtain ⟨last, isLast, _⟩ := arranged.ended
    cases isLast
  exact tokens_eq_ok.mpr ⟨result, tokens, substituted, Token.scan_of_spelled spelled free, some,
    Token.insertProducts_of_signed arranged.signed⟩

variable (checked : bindings.check = .ok ()) (finite : bindings.Finite)
  (isText : IsText IsName tree text)

include checked finite isText

/-- The tokens of a text are a writing of an expression without names that has the same value. -/
theorem tokens_of_isText (lenient : Bool) :
    ∃ written level tokens, Scalar.tokens text bindings lenient = .ok tokens ∧
      written.WellFormed ∧ Expression.Written (fun _ => False) none level written tokens ∧
        ∀ degrees, written.value degrees Expression.unbound =
          tree.value degrees bindings.environment := by
  obtain ⟨written, result, substituted, ⟨plain, level, tokens, writing, spelled⟩, value⟩ :=
    isText_substitute checked finite isText
  have known := Expression.isKnown_of_written (fun name isName => isName.1.1) writing plain
  have read := tokens_of_spelled substituted spelled (fun name member =>
    have isName := (known _ member).2 name rfl
    ofName?_of_environment isName.1 isName.2) writing lenient
  exact ⟨written, level, tokens, read, Expression.wellFormed_of_plain plain, writing, value⟩

/-- A text of arithmetic has the value of its expression, or fails as the expression does. -/
theorem outcome_of_isText (settings : Settings) :
    (Scalar.evaluate text bindings settings).outcome.map Prod.fst =
      (tree.value settings.degrees bindings.environment).mapError Expression.reported := by
  obtain ⟨written, level, tokens, read, wellFormed, writing, value⟩ :=
    tokens_of_isText checked finite isText settings.lenient
  rw [outcome_of_tokens read writing wellFormed, value]

end Scalar

namespace Evaluation

variable {tree : Expression} {bindings : Bindings}

theorem refusal_reported (input : String) (failure : Failure) :
    refusal input (Expression.reported failure) = refusal input failure := by
  cases failure <;> rfl

/-- How an arithmetic expression is evaluated. -/
theorem outcome_of_scalar {expression : String}
    (kind : ExpressionKind.of expression.toList = .scalar) (settings : Settings) :
    (Evaluation.evaluate expression bindings settings).outcome.map Prod.fst =
      match (Scalar.evaluate expression.toList bindings settings).outcome.map Prod.fst with
      | .ok value => .ok (.number value)
      | .error failure => .error (refusal expression failure) := by
  rw [outcome_evaluate, kind, ofKind, Report.outcome_bind]
  cases (Scalar.evaluate expression.toList bindings settings).outcome <;> rfl

/-- Any spelling of an expression evaluates to its value. -/
theorem outcome_of_isText {expression : String} (checked : bindings.check = .ok ())
    (finite : bindings.Finite) (isText : IsText IsName tree expression.toList)
    (settings : Settings) :
    (Evaluation.evaluate expression bindings settings).outcome.map Prod.fst =
      match tree.value settings.degrees bindings.environment with
      | .ok value => .ok (.number value)
      | .error failure => .error (refusal expression failure) := by
  have ⟨_, _, _, _, spelled⟩ := isText
  rw [outcome_of_scalar (ExpressionKind.of_spelled spelled),
    Scalar.outcome_of_isText checked finite isText]
  cases tree.value settings.degrees bindings.environment with
  | ok value => rfl
  | error failure => exact congrArg Except.error (refusal_reported expression failure)

/-- **The meaning of a text.** Write an expression with its tokens apart, with all signs of products
and with parentheses wherever the tightness of operators asks for them. With sound and finite
bindings the text evaluates to the value of the expression in their environment. Where the
expression has no value, the text is refused for the failure of the expression. -/
theorem evaluate_spaced {level : Nat} {tokens : List Token}
    (written : Expression.Written (fun _ => False) none level tree tokens)
    (plain : tree.Plain IsName) (checked : bindings.check = .ok ()) (finite : bindings.Finite)
    (settings : Settings) :
    (Evaluation.evaluate (Token.spaced tokens) bindings settings).outcome.map Prod.fst =
      match tree.value settings.degrees bindings.environment with
      | .ok value => .ok (.number value)
      | .error failure => .error (refusal (Token.spaced tokens) failure) := by
  have known := Expression.isKnown_of_written (fun name isName => isName.1) written plain
  have spelled := Token.spelled_spaced fun token member => (known token member).1
  exact outcome_of_isText checked finite ⟨plain, level, tokens, written, spelled⟩ settings

/-- A variable with a sign in its value, and a constant in another case. -/
theorem evaluate_spaced_sign_and_case :
    (Evaluation.evaluate "- x + 2.0 * abs ( PI )" [("x", .integer (-3))] []).outcome.map Prod.fst =
      .ok (.number 9.283185307179586) := by
  have plain : (Expression.operation .add (.negation (.name "x"))
      (.operation .multiply (.number 2) (.call "abs" [.name "PI"]))).Plain IsName := by
    have isX : IsName "x" := by decide
    have isPi : IsName "PI" := by decide
    refine .operation rfl (.negation (.name isX)) (.operation rfl (.number ?_ ?_)
      (.call (f := .abs) (by decide) rfl (List.forall_mem_singleton.mpr (.name isPi))))
    · decide
    · decide
  have product : Expression.Written (fun _ => False) none _
      (.operation .multiply (.number 2) (.call "abs" [.name "PI"])) _ :=
    .operation rfl (.number 2) (.call (.last (.name "PI"))) (by decide) (.inl (by decide))
  have sum : Expression.Written (fun _ => False) none _
      (.operation .add (.negation (.name "x")) _) _ :=
    .operation rfl (.negation (.name "x") (by decide)) product (by decide) (.inl (by decide))
  have finite : Bindings.Finite [("x", .integer (-3))] :=
    List.forall_mem_singleton.mpr ⟨-3, rfl, by decide⟩
  have text : Token.spaced [.operator .subtract, .identifier "x", .operator .add, .number 2,
      .operator .multiply, .function "abs", .opening, .identifier "PI", .closing] =
        "- x + 2.0 * abs ( PI )" := by decide
  rw [← text]
  exact evaluate_spaced sum plain rfl finite []

end Evaluation

end Reckoner
