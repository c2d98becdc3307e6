import Reckoner.Proofs.Bindings
import Reckoner.Proofs.Described
import Reckoner.Proofs.Reading
import Reckoner.Proofs.Stages

/-!
# How arithmetic can fail

Every stage of an arithmetic evaluation fails for a cause of its own, or with a number past the
largest double: the bindings are checked before they are written, the reader and the converter name
their causes, and the stack machine hands a function as many arguments as it takes
(`Reckoner.Scalar.endsIn_evaluate`). Only the check of the bindings can fail otherwise, where it
comes upon a name that no text shows.
-/

namespace Reckoner

open Outcome

/-! ## Writing bindings -/

/-- Nothing is bound to something else than a number. -/
def Variables.AreNumbers (bindings : Variables) : Prop :=
  ∀ binding ∈ bindings, binding.2 ≠ .other

namespace Bindings

theorem ne_other_of_fault? {name : String} {value : BoundValue}
    (none : fault? name value = none) : value ≠ .other := by
  rintro rfl
  unfold fault? at none
  split at none
  · cases none
  · split at none
    · cases none
    · cases none

theorem described_of_fault? {name : String} {value : BoundValue} {cause : Cause}
    (fault : fault? name value = some cause) : cause.Described := by
  rintro rfl
  unfold fault? at fault
  split at fault
  · cases fault
  · split at fault
    · cases fault
    · split at fault <;> cases fault

/-- A name that can be shown is refused, if it is not accepted. -/
theorem endsIn_checkOne {name : BoundName} (shown : name.shown? ≠ none) (value : BoundValue) :
    EndsIn (fun _ => True) Failure.Described (checkOne name value) := by
  cases name with
  | text name =>
      rw [checkOne]
      cases fault : fault? name value with
      | none => trivial
      | some cause => exact described_of_fault? fault
  | integer _ | other _ =>
      unfold checkOne
      dsimp only
      split
      · rintro ⟨⟩
      · rename_i unshown
        exact absurd unshown shown

theorem endsIn_check {bindings : Bindings} (shown : ¬bindings.MeetUnshown) :
    EndsIn (fun _ => True) Failure.Described bindings.check := by
  induction bindings with
  | nil => trivial
  | cons binding rest ih =>
      obtain ⟨name, value⟩ := binding
      apply (endsIn_checkOne (fun unshown => shown (.here unshown)) value).valued.bind
      rintro _ ⟨-, accepted⟩
      exact ih fun meet => shown (.later accepted meet)

end Bindings

namespace Substitution

theorem endsIn_toDouble {value : BoundValue} (number : value ≠ .other) :
    EndsIn (fun _ => True) Failure.Described value.toDouble := by
  cases value with
  | integer n =>
      rw [BoundValue.toDouble]
      split <;> trivial
  | double x => trivial
  | other => exact absurd rfl number

theorem endsIn_writeVariable (text : List Char) (name : String) {value : BoundValue}
    (number : value ≠ .other) :
    EndsIn (fun _ => True) Failure.Described (writeVariable text name value) := by
  have ends := endsIn_toDouble number
  unfold writeVariable
  split
  · trivial
  · rename_i failure is
    rw [is] at ends
    simp only
    split
    · trivial
    · exact ends

theorem endsIn_writeVariables {bindings : Variables} (numbers : bindings.AreNumbers)
    (text : List Char) :
    EndsIn (fun _ => True) Failure.Described (writeVariables text bindings) := by
  induction bindings generalizing text with
  | nil => trivial
  | cons binding rest ih =>
      obtain ⟨name, value⟩ := binding
      apply (endsIn_writeVariable text name (numbers _ List.mem_cons_self)).bind
      intro text _
      exact ih (fun binding member => numbers binding (List.mem_cons_of_mem _ member)) text

theorem endsIn_substitute (text : List Char) {bindings : Bindings}
    (shown : ¬bindings.MeetUnshown) :
    EndsIn (fun _ => True) Failure.Described (substitute text bindings) := by
  apply (Bindings.endsIn_check shown).valued.bind
  rintro _ ⟨-, checked⟩
  have sound := Bindings.fault?_of_check checked
  exact endsIn_writeVariables
    (fun binding member => Bindings.ne_other_of_fault? (sound binding member)) _

end Substitution

/-! ## Reading and reordering tokens -/

namespace Token

theorem endsIn_scan (lenient : Bool) (text : List Char) :
    EndsIn (fun _ => True) Cause.Described (scan lenient text) := by
  cases scanned : scan lenient text with
  | ok tokens => trivial
  | error cause =>
      rcases cause_of_scan scanned with rfl | ⟨c, rfl⟩
      · exact nofun
      · exact nofun

theorem endsIn_flush (stack : List Token) :
    EndsIn (fun _ => True) Cause.Described (flush stack) := by
  induction stack with
  | nil => trivial
  | cons token stack ih =>
      cases token with
      | opening => exact nofun
      | _ => exact ih.map fun _ _ => trivial

theorem endsIn_shunt (stack : List Token) (previous : Option Token) (token : Token) :
    EndsIn (fun _ => True) Cause.Described (shunt stack previous token) := by
  unfold shunt
  split
  · trivial
  · trivial
  · trivial
  · trivial
  · split
    · intro is
      cases is
    · trivial
  · split
    · intro is
      cases is
    · trivial
  · split
    · split
      · trivial
      · trivial
      · intro is
        cases is
    · trivial
  · intro is
    cases is

theorem endsIn_postOrderFrom (tokens stack : List Token) (previous : Option Token) :
    EndsIn (fun _ => True) Cause.Described (postOrderFrom stack previous tokens) := by
  induction tokens generalizing stack previous with
  | nil => exact endsIn_flush stack
  | cons token rest ih =>
      apply (endsIn_shunt stack previous token).bind
      intro result _
      apply (ih result.2 (some token)).bind
      intro following _
      trivial

end Token

/-! ## Functions -/

namespace Numeric

theorem endsIn_countingArgument (name : String) (x : Float) :
    EndsIn (fun _ => True) Failure.Described (countingArgument name x) := by
  unfold countingArgument
  split
  · trivial
  · exact nofun

theorem endsIn_ofCount (n : Nat) : EndsIn (fun _ => True) Failure.Described (ofCount n) := by
  unfold ofCount
  split <;> trivial

theorem endsIn_factorialOf (x : Float) :
    EndsIn (fun _ => True) Failure.Described (factorialOf x) := by
  apply (endsIn_countingArgument _ x).bind
  intro n _
  split
  · exact nofun
  · exact endsIn_ofCount _

theorem endsIn_permutationOf (x y : Float) :
    EndsIn (fun _ => True) Failure.Described (permutationOf x y) := by
  apply (endsIn_countingArgument _ x).bind
  intro n _
  apply (endsIn_countingArgument _ y).bind
  intro r _
  split
  · exact nofun
  · exact endsIn_ofCount _

theorem endsIn_combinationOf (x y : Float) :
    EndsIn (fun _ => True) Failure.Described (combinationOf x y) := by
  apply (endsIn_countingArgument _ x).bind
  intro n _
  apply (endsIn_countingArgument _ y).bind
  intro r _
  split
  · exact nofun
  · exact endsIn_ofCount _

end Numeric

namespace NamedFunction

/-- A function fails with a described failure, or because it has no value at its argument. -/
def Fails (failure : Failure) : Prop :=
  failure.Described ∨ failure = .wrongValue

variable {outcome : Except Failure Float}

theorem fails_of_described (ends : EndsIn (fun _ => True) Failure.Described outcome) :
    EndsIn (fun _ => True) Fails outcome :=
  ends.mono (fun _ => id) fun _ => .inl

theorem endsIn_withinDomain (f : Float → Float) (x : Float) :
    EndsIn (fun _ => True) Fails (withinDomain f x) := by
  unfold withinDomain
  simp only
  split
  · exact .inr rfl
  · trivial

theorem endsIn_withinRange (f : Float → Float) (x : Float) :
    EndsIn (fun _ => True) Fails (withinRange f x) := by
  unfold withinRange
  simp only
  split
  · exact .inl trivial
  · trivial

theorem endsIn_logarithm (f : Float → Float) (x : Float) :
    EndsIn (fun _ => True) Fails (logarithm f x) := by
  unfold logarithm
  split
  · exact .inr rfl
  · trivial

theorem endsIn_cubeRoot (x : Float) : EndsIn (fun _ => True) Fails (cubeRoot x) := by
  unfold cubeRoot
  simp only
  split
  · split
    · trivial
    · exact .inl trivial
  · trivial

theorem endsIn_finite (x : Float) : EndsIn (fun _ => True) Fails (Numeric.finite x) := by
  unfold Numeric.finite
  split
  · exact .inl trivial
  · trivial

theorem endsIn_gamma (x : Float) : EndsIn (fun _ => True) Fails (Numeric.gamma x) := by
  unfold Numeric.gamma
  split
  · trivial
  split
  · split
    · trivial
    · exact .inr rfl
  split
  · exact .inr rfl
  split
  · exact fails_of_described (Numeric.endsIn_ofCount _)
  split
  · exact endsIn_finite _
  split
  · split
    · trivial
    · exact .inl trivial
  · exact endsIn_finite _

theorem endsIn_betaOf (x y : Float) : EndsIn (fun _ => True) Fails (betaOf x y) := by
  apply (endsIn_gamma x).bind
  intro a _
  apply (endsIn_gamma y).bind
  intro b _
  apply (endsIn_gamma (x + y)).bind
  intro c _
  split
  · exact .inl trivial
  · trivial

theorem endsIn_unaryValue {f : NamedFunction} (unary : f.arity = 1) (x : Float) :
    EndsIn (fun _ => True) Fails (f.unaryValue x) := by
  cases f with
  | sin | cos | tan | asin | acos | atan | tanh | asinh | acosh | atanh | sqrt =>
      exact endsIn_withinDomain _ x
  | sinh | cosh | exp => exact endsIn_withinRange _ x
  | log | log10 | log2 | ln => exact endsIn_logarithm _ x
  | cbrt => exact endsIn_cubeRoot x
  | abs | erf | erfc => trivial
  | factorial => exact fails_of_described (Numeric.endsIn_factorialOf x)
  | gamma => exact endsIn_gamma x
  | permutation | combination | beta => cases unary

theorem endsIn_binaryValue {f : NamedFunction} (binary : f.arity = 2) (x y : Float) :
    EndsIn (fun _ => True) Fails (f.binaryValue x y) := by
  cases f with
  | permutation => exact fails_of_described (Numeric.endsIn_permutationOf x y)
  | combination => exact fails_of_described (Numeric.endsIn_combinationOf x y)
  | beta => exact endsIn_betaOf x y
  | _ => cases binary

theorem arity_le (f : NamedFunction) : f.arity = 1 ∨ f.arity = 2 := by
  cases f <;> decide

theorem endsIn_value {f : NamedFunction} {arguments : List Float}
    (taken : arguments.length = f.arity) : EndsIn (fun _ => True) Fails (f.value arguments) := by
  match arguments with
  | [] => rcases f.arity_le with is | is <;> rw [is] at taken <;> cases taken
  | [x] => exact endsIn_unaryValue taken.symm x
  | [x, y] => exact endsIn_binaryValue taken.symm x y
  | x :: y :: z :: rest =>
      rcases f.arity_le with is | is <;> rw [is] at taken <;> simp at taken

/-- A function that is applied fails with a described failure. -/
theorem endsIn_apply (f : NamedFunction) (name : String) (arguments : List Float)
    (degrees : Bool) :
    EndsIn (fun _ => True) Failure.Described (f.apply name arguments degrees) := by
  unfold apply
  split
  · exact nofun
  · rename_i taken
    have length : (if degrees && f.takesAngle then arguments.map radians
        else arguments).length = f.arity := by
      split
      · rw [List.length_map, Decidable.not_not.mp taken]
      · exact Decidable.not_not.mp taken
    have ends := endsIn_value length
    simp only
    split
    · trivial
    · exact nofun
    · rename_i failure otherwise is
      rw [is] at ends
      exact ends.resolve_right otherwise

end NamedFunction

/-! ## Running tokens -/

namespace Scalar

theorem endsIn_power (base exponent : Float) :
    EndsIn (fun _ => True) Failure.Described (power base exponent) := by
  unfold power
  split
  · exact nofun
  · simp only
    split <;> trivial

theorem endsIn_applyOperator (op : Operator) (a b : Float) :
    EndsIn (fun _ => True) Failure.Described (applyOperator op a b) := by
  cases op with
  | divide =>
      rw [applyOperator]
      split
      · exact nofun
      · trivial
  | power => exact endsIn_power a b
  | negate | unknown symbol => exact nofun
  | _ => trivial

theorem endsIn_step (degrees : Bool) (stack : List Float) (token : Token) :
    EndsIn (fun _ => True) Failure.Described (step degrees stack token) := by
  unfold step
  split
  · trivial
  · exact nofun
  · split
    · trivial
    · exact nofun
  · split
    · apply (endsIn_applyOperator _ _ _).bind
      intro result _
      trivial
    · exact nofun
  · split
    · exact nofun
    · split
      · exact nofun
      · apply (NamedFunction.endsIn_apply _ _ _ _).bind
        intro result _
        trivial
  · exact nofun

theorem endsIn_run (degrees : Bool) (tokens : List Token) (stack : List Float) :
    EndsIn (fun _ => True) Failure.Described (run degrees stack tokens) := by
  induction tokens generalizing stack with
  | nil => trivial
  | cons token rest ih =>
      apply (endsIn_step degrees stack token).bind
      intro first _
      apply (ih first.1).bind
      intro second _
      trivial

theorem endsIn_evaluatePostOrder (degrees : Bool) (tokens : List Token) :
    EndsIn (fun _ => True) Failure.Described (evaluatePostOrder degrees tokens) := by
  have ends := endsIn_run degrees tokens []
  unfold evaluatePostOrder
  split
  · trivial
  · exact nofun
  · exact nofun
  · rename_i failure _ is
    rw [is] at ends
    exact ends

theorem endsIn_tokens (text : List Char) {bindings : Bindings} (shown : ¬bindings.MeetUnshown)
    (lenient : Bool) :
    EndsIn (fun _ => True) Failure.Described (tokens text bindings lenient) := by
  apply (Substitution.endsIn_substitute text shown).bind
  intro written _
  apply (endsIn_orRefuse (Token.endsIn_scan lenient written)).bind
  intro tokens _
  split
  · exact nofun
  · trivial

/-- **An arithmetic evaluation fails with a described failure**, unless it comes upon a name that
cannot be shown. -/
theorem endsIn_evaluate (text : List Char) {bindings : Bindings} (shown : ¬bindings.MeetUnshown)
    (settings : Settings) :
    EndsIn (fun _ => True) Failure.Described
      (Scalar.evaluate text bindings settings).outcome := by
  rw [outcome_evaluate]
  apply (endsIn_tokens text shown settings.lenient).bind
  intro tokens _
  apply (endsIn_orRefuse (Token.endsIn_postOrderFrom tokens [] none)).bind
  intro ordered _
  exact (endsIn_evaluatePostOrder settings.degrees ordered).map fun _ _ => trivial

/-- A name that cannot be shown fails as nothing else does. -/
theorem outcome_of_meetUnshown (text : List Char) {bindings : Bindings}
    (meet : bindings.MeetUnshown) (settings : Settings) :
    (Scalar.evaluate text bindings settings).outcome = .error .wrongValue := by
  rw [outcome_evaluate, Scalar.tokens, Substitution.substitute, meet.check]
  rfl

end Scalar

end Reckoner
