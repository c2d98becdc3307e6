import Reckoner.Evaluation
import Reckoner.Proofs.Ending

/-!
# Failures that the calculator describes

Of all causes only one has no code of its own. A failure is described if it is a refusal for another
cause, or one of the two failures of arithmetic that evaluation knows causes for.
-/

namespace Reckoner

open Outcome

/-- The cause has a code of its own. -/
def Cause.Described (cause : Cause) : Prop :=
  cause ≠ .unexpected

/-- The failure is a refusal for a cause with a code of its own, or becomes one. -/
def Failure.Described : Failure → Prop
  | .refused cause _ => cause.Described
  | .overflow | .zeroDivisor => True
  | .wrongType | .wrongValue | .directory => False

/-- A described cause has one of the listed codes, other than that of the unexpected. -/
theorem Cause.Described.code {cause : Cause} (described : cause.Described) :
    cause.code ∈ standardMessages.keys ∧ cause.code ≠ "9999" := by
  cases cause with
  | unexpected => exact absurd rfl described
  | _ =>
    simp only [Cause.code, Cause.kind, ErrorKind.code]
    decide

/-- The failure notes the input, and a cause with one of the listed codes other than that of the
unexpected. -/
def Failure.IsReport (input : String) (failure : Failure) : Prop :=
  ∃ cause, failure = .refused cause (some input) ∧ cause.code ∈ standardMessages.keys ∧
    cause.code ≠ "9999"

/-- Evaluation reports every described failure. -/
theorem Failure.Described.isReport {failure : Failure} (described : failure.Described)
    (input : String) : (Evaluation.refusal input failure).IsReport input := by
  cases failure with
  | refused cause noted => exact ⟨cause, rfl, Cause.Described.code described⟩
  | overflow => exact ⟨.numberTooLarge, rfl, Cause.Described.code nofun⟩
  | zeroDivisor => exact ⟨.divisionByZero, rfl, Cause.Described.code nofun⟩
  | wrongType => exact described.elim
  | wrongValue => exact described.elim
  | directory => exact described.elim

/-- How an evaluation ends: as its kind of expression does, with the input noted in a refusal and
among the steps. -/
theorem Evaluation.outcome_evaluate (expression : String) (bindings : Bindings)
    (settings : Settings) : (Evaluation.evaluate expression bindings settings).outcome =
      ((ofKind (ExpressionKind.of expression.toList) expression.toList bindings
        settings).outcome.mapError (refusal expression)).map fun (value, steps) =>
          (value, ("Evaluating: " ++ expression) :: steps) := by
  unfold Evaluation.evaluate Report.mapFailure
  simp only [Report.outcome_bind, Report.outcome_say, ok_bind, Report.outcome_pure]
  cases (ofKind (ExpressionKind.of expression.toList) expression.toList bindings settings).outcome <;>
    rfl

/-- Whatever goes wrong in an evaluation is a refusal. -/
theorem Evaluation.exists_refused {expression : String} {bindings : Bindings} {settings : Settings}
    {failure : Failure}
    (failed : (Evaluation.evaluate expression bindings settings).outcome = .error failure) :
    ∃ cause input, failure = .refused cause input := by
  rw [outcome_evaluate] at failed
  cases ended : (ofKind (ExpressionKind.of expression.toList) expression.toList bindings
      settings).outcome with
  | ok result =>
      rw [ended] at failed
      cases failed
  | error other =>
      rw [ended] at failed
      cases failed
      cases other with
      | refused cause input => exact ⟨cause, _, rfl⟩
      | overflow => exact ⟨_, _, rfl⟩
      | zeroDivisor => exact ⟨_, _, rfl⟩
      | wrongType => exact ⟨_, _, rfl⟩
      | wrongValue => exact ⟨_, _, rfl⟩
      | directory => exact ⟨_, _, rfl⟩

variable {α β : Type} {value : α → Prop}

theorem endsIn_orRefuse {outcome : Except Cause α} (ends : EndsIn value Cause.Described outcome) :
    EndsIn value Failure.Described (Scalar.orRefuse outcome) := by
  cases outcome with
  | error cause => exact ends
  | ok a => exact ends

namespace Report

theorem endsIn_bind {result : β → Prop} {failure : Failure → Prop} {first : Report α}
    {next : α → Report β} (ends : EndsIn value failure first.outcome)
    (further : ∀ a, value a → EndsIn result failure (next a).outcome) :
    EndsIn result failure (first >>= next).outcome := by
  rw [outcome_bind]
  exact ends.bind further

theorem endsIn_mapFailure {failure other : Failure → Prop} {f : Failure → Failure}
    {report : Report α} (ends : EndsIn value failure report.outcome)
    (becomes : ∀ e, failure e → other (f e)) :
    EndsIn value other (report.mapFailure f).outcome := by
  unfold mapFailure
  cases ended : report.outcome with
  | error e =>
      rw [ended] at ends
      exact becomes e ends
  | ok a =>
      rw [ended] at ends
      exact ends

end Report

end Reckoner
