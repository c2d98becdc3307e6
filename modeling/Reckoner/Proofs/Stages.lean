import Reckoner.Proofs.Outcome
import Reckoner.Scalar.Evaluation

/-!
# The stages of an evaluation

How an arithmetic evaluation ends depends on how its four stages end, one after the other.
-/

namespace Reckoner.Scalar

open Outcome

theorem orRefuse_eq_ok {α : Type} {outcome : Except Cause α} {a : α} :
    orRefuse outcome = .ok a ↔ outcome = .ok a := by
  cases outcome with
  | error cause => exact ⟨nofun, nofun⟩
  | ok b => exact ⟨fun is => by cases is; rfl, fun is => by cases is; rfl⟩

/-- The tokens of a text come from its stages. -/
theorem tokens_eq_ok {text : List Char} {bindings : Bindings} {lenient : Bool}
    {tokens : List Token} :
    Scalar.tokens text bindings lenient = .ok tokens ↔
      ∃ written raw, Substitution.substitute text bindings = .ok written ∧
        Token.scan lenient written = .ok raw ∧ raw ≠ [] ∧ Token.insertProducts raw = tokens := by
  unfold Scalar.tokens
  simp only [bind_eq_ok, orRefuse_eq_ok]
  constructor
  · rintro ⟨written, substituted, raw, scanned, ended⟩
    split at ended
    · cases ended
    · rename_i nonempty
      cases ended
      exact ⟨written, raw, substituted, scanned, fun none => nonempty (by rw [none]; rfl), rfl⟩
  · rintro ⟨written, raw, substituted, scanned, nonempty, rfl⟩
    refine ⟨written, substituted, raw, scanned, ?_⟩
    cases raw with
    | nil => exact absurd rfl nonempty
    | cons token rest => rfl

/-- An evaluation ends as its stages do. -/
theorem outcome_evaluate (text : List Char) (bindings : Bindings) (settings : Settings) :
    (Scalar.evaluate text bindings settings).outcome =
      Scalar.tokens text bindings settings.lenient >>= fun tokens =>
        orRefuse (Token.postOrder tokens) >>= fun ordered =>
          (evaluatePostOrder settings.degrees ordered).map fun result =>
            (result.1, orderStep ordered :: result.2) := by
  unfold Scalar.evaluate
  simp only [Report.outcome_bind, Report.outcome_say, ok_bind]
  refine congrArg (_ >>= ·) (funext fun tokens => ?_)
  refine congrArg (_ >>= ·) (funext fun ordered => ?_)
  change (evaluatePostOrder settings.degrees ordered >>= fun result =>
    .ok (result.1, orderStep ordered :: result.2)) = _
  cases evaluatePostOrder settings.degrees ordered <;> rfl

/-- A text whose tokens are brought into post-order ends as they do. -/
theorem outcome_of_postOrder {text written : List Char} {bindings : Bindings} (settings : Settings)
    {raw ordered : List Token} (substituted : Substitution.substitute text bindings = .ok written)
    (read : Token.scan settings.lenient written = .ok raw) (nonempty : raw ≠ [])
    (converted : Token.postOrder (Token.insertProducts raw) = .ok ordered) :
    (evaluate text bindings settings).outcome.map Prod.fst =
      (evaluatePostOrder settings.degrees ordered).map Prod.fst := by
  rw [outcome_evaluate, tokens_eq_ok.mpr ⟨written, raw, substituted, read, nonempty, rfl⟩, ok_bind,
    orRefuse_eq_ok.mpr converted, ok_bind]
  cases evaluatePostOrder settings.degrees ordered <;> rfl

end Reckoner.Scalar
