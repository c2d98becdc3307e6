import Reckoner.Failure

/-!
# Computations that report

With the setting for it, evaluation writes diagnostic lines as it goes. A report is what was
written and how the computation ended; the lines written before a failure stay. What a computation
ends with never depends on the lines.
-/

namespace Reckoner

/-- The lines that a computation wrote, and how it ended. -/
structure Report (α : Type) where
  lines : List String
  outcome : Except Failure α

namespace Report

variable {α β : Type}

/-- A computation without lines. -/
def ofExcept (outcome : Except Failure α) : Report α :=
  ⟨[], outcome⟩

/-- Runs the second computation on the value of the first. -/
def bind (first : Report α) (next : α → Report β) : Report β :=
  match first.outcome with
  | .error failure => ⟨first.lines, .error failure⟩
  | .ok value => ⟨first.lines ++ (next value).lines, (next value).outcome⟩

instance : Monad Report where
  pure value := ofExcept (.ok value)
  bind := bind

instance : MonadLift (Except Failure) Report where
  monadLift := ofExcept

/-- A refusal for a cause. -/
def refuse (cause : Cause) : Report α :=
  ofExcept (.error (Failure.of cause))

/-- Writes lines if they are wanted. -/
def say (wanted : Bool) (lines : List String) : Report Unit :=
  ⟨if wanted then lines else [], .ok ()⟩

/-- Runs computations one after the other, up to the first that fails; their values. -/
def sequence : List (Report α) → Report (List α)
  | [] => ofExcept (.ok [])
  | first :: others =>
      match first.outcome with
      | .error failure => ⟨first.lines, .error failure⟩
      | .ok value =>
          let rest := sequence others
          ⟨first.lines ++ rest.lines, rest.outcome.map fun values => value :: values⟩

/-- Replaces the failure of a computation. -/
def mapFailure (f : Failure → Failure) (report : Report α) : Report α :=
  ⟨report.lines, match report.outcome with
    | .ok value => .ok value
    | .error failure => .error (f failure)⟩

@[simp] theorem outcome_pure (value : α) : (pure value : Report α).outcome = .ok value := rfl

/-- How a sequence ends depends on how its parts end, and not on their lines. -/
@[simp] theorem outcome_bind (first : Report α) (next : α → Report β) :
    (first >>= next).outcome = first.outcome >>= fun value => (next value).outcome := by
  change (bind first next).outcome = _
  unfold bind
  cases first.outcome <;> rfl

@[simp] theorem outcome_say (wanted : Bool) (lines : List String) :
    (say wanted lines).outcome = .ok () := rfl

@[simp] theorem outcome_ofExcept (outcome : Except Failure α) :
    (ofExcept outcome).outcome = outcome := rfl

end Report

end Reckoner
