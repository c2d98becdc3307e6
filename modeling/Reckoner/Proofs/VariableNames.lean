import Reckoner.Proofs.Stages

/-!
# Names of variables

Neither the signs of products nor the post-order of tokens depend on how variables are named, and a
run ends alike under any names: where a name is left, it is unknown
(`Reckoner.Scalar.outcome_evaluate_alike`).
-/

namespace Reckoner

open Outcome

namespace Token

/-- The token, but for the name of a variable. -/
def anonymous : Token → Token
  | identifier _ => identifier ""
  | token => token

/-- Only variables differ from a token without their names. -/
theorem eq_or_of_anonymous {token token' : Token} (same : token'.anonymous = token.anonymous) :
    token' = token ∨ ∃ name name', token = identifier name ∧ token' = identifier name' := by
  cases token with
  | identifier name =>
      cases token' with
      | identifier name' => exact .inr ⟨name, name', rfl, rfl⟩
      | _ => cases same
  | _ =>
      cases token' with
      | identifier name' => cases same
      | _ => exact .inl same

@[simp] theorem endsOperand_anonymous (token : Token) :
    token.anonymous.endsOperand = token.endsOperand := by
  cases token <;> rfl

@[simp] theorem awaitsOperand_anonymous (token : Token) :
    token.anonymous.awaitsOperand = token.awaitsOperand := by
  cases token <;> rfl

@[simp] theorem yieldsTo_anonymous (halves : Nat) (token : Token) :
    yieldsTo halves token.anonymous = yieldsTo halves token := by
  cases token <;> rfl

@[simp] theorem juxtaposed_anonymous (previous token : Token) :
    juxtaposed previous.anonymous token.anonymous = juxtaposed previous token := by
  rw [juxtaposed, juxtaposed, endsOperand_anonymous]
  congr 1
  cases token with
  | number value => cases previous <;> rfl
  | _ => rfl

theorem insertProductsAfter_anonymous (previous : Token) (tokens : List Token) :
    insertProductsAfter previous.anonymous (tokens.map anonymous) =
      (insertProductsAfter previous tokens).map anonymous := by
  induction tokens generalizing previous with
  | nil => rfl
  | cons token rest ih =>
      rw [List.map_cons, insertProductsAfter, insertProductsAfter, juxtaposed_anonymous, ih]
      cases juxtaposed previous token <;> rfl

theorem insertProducts_anonymous (tokens : List Token) :
    insertProducts (tokens.map anonymous) = (insertProducts tokens).map anonymous := by
  cases tokens with
  | nil => rfl
  | cons token rest =>
      rw [List.map_cons, insertProducts, insertProducts, insertProductsAfter_anonymous,
        List.map_cons]

/-! ## Post-order -/

theorem popGroup_anonymous (stack : List Token) :
    popGroup (stack.map anonymous) =
      ((popGroup stack).1.map anonymous, (popGroup stack).2.map anonymous) := by
  induction stack with
  | nil => rfl
  | cons token stack ih =>
      cases token with
      | opening => rfl
      | _ => simp only [List.map_cons, anonymous, popGroup, ih]

theorem popYielding_anonymous (op : Operator) (stack : List Token) :
    popYielding op (stack.map anonymous) =
      ((popYielding op stack).1.map anonymous, (popYielding op stack).2.map anonymous) := by
  have same : yieldsTo op.halves ∘ anonymous = yieldsTo op.halves :=
    funext (yieldsTo_anonymous op.halves)
  rw [popYielding, popYielding, List.takeWhile_map, List.dropWhile_map, same]

theorem popCalled_anonymous (stack : List Token) :
    popCalled (stack.map anonymous) =
      ((popCalled stack).1.map anonymous, (popCalled stack).2.map anonymous) := by
  cases stack with
  | nil => rfl
  | cons token stack => cases token <;> rfl

theorem flush_anonymous (stack : List Token) :
    flush (stack.map anonymous) = (flush stack).map (List.map anonymous) := by
  induction stack with
  | nil => rfl
  | cons token stack ih =>
      cases token with
      | opening => rfl
      | _ =>
          simp only [List.map_cons, anonymous, flush, ih]
          cases flush stack <;> rfl

/-- The same tokens move, but for their names. -/
theorem shunt_anonymous (stack : List Token) (previous : Option Token) (token : Token) :
    shunt (stack.map anonymous) (previous.map anonymous) token.anonymous =
      (shunt stack previous token).map fun moved =>
        (moved.1.map anonymous, moved.2.map anonymous) := by
  cases token with
  | closing =>
      simp only [anonymous, shunt, popGroup_anonymous]
      obtain ⟨popped, rest⟩ := popGroup stack
      cases rest with
      | nil => rfl
      | cons token below => simp [popCalled_anonymous, Except.map]
  | comma =>
      simp only [anonymous, shunt, popGroup_anonymous]
      obtain ⟨popped, rest⟩ := popGroup stack
      cases rest <;> rfl
  | operator op =>
      have due : operandDue (previous.map anonymous) = operandDue previous := by
        cases previous with
        | none => rfl
        | some token => exact awaitsOperand_anonymous token
      simp only [anonymous, shunt, due, popYielding_anonymous]
      cases operandDue previous with
      | true => cases op <;> rfl
      | false => rfl
  | _ => rfl

theorem postOrderFrom_anonymous (stack : List Token) (previous : Option Token)
    (tokens : List Token) :
    postOrderFrom (stack.map anonymous) (previous.map anonymous) (tokens.map anonymous) =
      (postOrderFrom stack previous tokens).map (List.map anonymous) := by
  induction tokens generalizing stack previous with
  | nil => exact flush_anonymous stack
  | cons token rest ih =>
      rw [List.map_cons, postOrderFrom, postOrderFrom, shunt_anonymous]
      cases shunt stack previous token with
      | error cause => rfl
      | ok moved =>
          obtain ⟨out, stack⟩ := moved
          change (postOrderFrom (stack.map anonymous) ((some token).map anonymous)
              (rest.map anonymous) >>= fun following => .ok (out.map anonymous ++ following)) =
            (postOrderFrom stack (some token) rest >>= fun following =>
              .ok (out ++ following)).map _
          rw [ih]
          cases postOrderFrom stack (some token) rest with
          | error cause => rfl
          | ok following => exact congrArg Except.ok List.map_append.symm

theorem postOrder_anonymous (tokens : List Token) :
    postOrder (tokens.map anonymous) = (postOrder tokens).map (List.map anonymous) :=
  postOrderFrom_anonymous [] none tokens

end Token

/-! ## Runs -/

/-- Both failures are refusals of the same kind and with the same code, or they are the same. -/
inductive Failure.Alike : Failure → Failure → Prop
  | refused {cause cause' : Cause} {input input' : Option String}
      (kind : cause'.kind = cause.kind) (code : cause'.code = cause.code) :
      Failure.Alike (.refused cause input) (.refused cause' input')
  | refl (failure : Failure) : Failure.Alike failure failure

theorem Failure.Alike.of_eq {failure failure' : Failure} (same : failure = failure') :
    Failure.Alike failure failure' := by
  subst same
  exact .refl failure

namespace Scalar

open Token

variable {degrees : Bool}

/-- A step ends alike, and has the same value only if its token is the same. -/
theorem step_alike {token token' : Token} (same : token'.anonymous = token.anonymous)
    (stack : List Float) :
    EndsAlike (fun moved moved' => moved' = moved ∧ token' = token) Failure.Alike
      (step degrees stack token) (step degrees stack token') := by
  rcases eq_or_of_anonymous same with rfl | ⟨name, name', rfl, rfl⟩
  · exact (EndsAlike.of_eq rfl).mono (fun _ _ is => ⟨is.symm, rfl⟩) fun _ _ => .of_eq
  · exact .error (.refused rfl rfl)

/-- **A run ends alike under any names**, and has the same value only if no names differ. -/
theorem run_alike {tokens tokens' : List Token}
    (same : tokens'.map anonymous = tokens.map anonymous) (stack : List Float) :
    EndsAlike (fun ran ran' => ran' = ran ∧ tokens' = tokens) Failure.Alike
      (run degrees stack tokens) (run degrees stack tokens') := by
  induction tokens generalizing tokens' stack with
  | nil =>
      obtain rfl := List.map_eq_nil_iff.mp same
      exact .ok ⟨rfl, rfl⟩
  | cons token rest ih =>
      obtain ⟨token', rest', rfl, first, others⟩ := List.map_eq_cons_iff.mp same
      refine (step_alike first stack).bind ?_
      rintro ⟨stack, lines⟩ _ ⟨rfl, rfl⟩
      refine (ih others stack).bind ?_
      rintro ran _ ⟨rfl, rfl⟩
      exact .ok ⟨rfl, rfl⟩

theorem evaluatePostOrder_alike {tokens tokens' : List Token}
    (same : tokens'.map anonymous = tokens.map anonymous) :
    EndsAlike (fun ran ran' => ran' = ran ∧ tokens' = tokens) Failure.Alike
      (evaluatePostOrder degrees tokens) (evaluatePostOrder degrees tokens') := by
  have alike := @run_alike degrees _ _ same []
  unfold evaluatePostOrder
  generalize run degrees [] tokens = first at alike ⊢
  generalize run degrees [] tokens' = second at alike ⊢
  cases alike with
  | @ok ran _ related =>
      obtain ⟨rfl, rfl⟩ := related
      split
      · exact .ok ⟨rfl, rfl⟩
      · exact .error (.refl _)
      · exact .error (.refl _)
      · exact .error (.refl _)
  | @error failure _ related =>
      cases related with
      | refused kind code => exact .error (.refused kind code)
      | refl => cases failure <;> exact .error (.refl _)

/-! ## Evaluation -/

theorem orRefuse_alike {α β : Type} {value : α → β → Prop} {first : Except Cause α}
    {second : Except Cause β} (alike : EndsAlike value (· = ·) first second) :
    EndsAlike value Failure.Alike (orRefuse first) (orRefuse second) := by
  cases alike with
  | ok related => exact .ok related
  | error same => exact .error (.of_eq (congrArg Failure.of same))

/-- **An evaluation ends alike** if the tokens of its text are the same, but for names. -/
theorem outcome_evaluate_alike {text text' : List Char} {bindings : Bindings} {settings : Settings}
    (alike : EndsAlike (fun tokens tokens' => tokens'.map anonymous = tokens.map anonymous)
      Failure.Alike (Scalar.tokens text bindings settings.lenient)
      (Scalar.tokens text' bindings settings.lenient)) :
    EndsAlike (· = ·) Failure.Alike (evaluate text bindings settings).outcome
      (evaluate text' bindings settings).outcome := by
  rw [outcome_evaluate, outcome_evaluate]
  refine alike.bind fun tokens tokens' same => ?_
  have ordered : (postOrder tokens').map (List.map anonymous) =
      (postOrder tokens).map (List.map anonymous) := by
    rw [← postOrder_anonymous, ← postOrder_anonymous, same]
  refine (orRefuse_alike (.of_map_eq ordered)).bind fun ordered ordered' same => ?_
  refine (evaluatePostOrder_alike same).map ?_
  rintro result _ ⟨rfl, rfl⟩
  rfl

end Scalar

end Reckoner
