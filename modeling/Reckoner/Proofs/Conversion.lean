import Reckoner.Proofs.Outcome
import Reckoner.Token.PostOrder

/-!
# Steps of the conversion to post-order

What is popped from the stack of the conversion and what stays on it make up the stack. A step that
is taken is of one of few kinds (`Reckoner.Token.Shunts`), and a conversion that ends is made of
such steps.
-/

namespace Reckoner.Token

theorem popGroup_append_rest (stack : List Token) :
    (popGroup stack).1 ++ (popGroup stack).2 = stack := by
  induction stack with
  | nil => rfl
  | cons token stack ih =>
      cases token with
      | opening => rfl
      | _ => exact congrArg (_ :: ·) ih

/-- Popping a group stops at an opening parenthesis. -/
theorem head_of_popGroup {stack below : List Token} {token : Token}
    (grouped : (popGroup stack).2 = token :: below) : token = opening := by
  induction stack with
  | nil => cases grouped
  | cons top stack ih =>
      cases top with
      | opening =>
          cases grouped
          rfl
      | _ => exact ih grouped

theorem popYielding_append_rest (op : Operator) (stack : List Token) :
    (popYielding op stack).1 ++ (popYielding op stack).2 = stack :=
  List.takeWhile_append_dropWhile

theorem popCalled_append_rest (stack : List Token) :
    (popCalled stack).1 ++ (popCalled stack).2 = stack := by
  unfold popCalled
  split <;> rfl

/-- A group with an open parenthesis is what stands above the nearest one. -/
theorem eq_of_popGroup {stack popped below : List Token}
    (grouped : popGroup stack = (popped, opening :: below)) :
    stack = popped ++ opening :: below := by
  have parts := popGroup_append_rest stack
  rw [grouped] at parts
  exact parts.symm

/-- Nothing is lost and nothing added when the rest of a stack goes out. -/
theorem eq_of_flush {stack out : List Token} (flushed : flush stack = .ok out) : out = stack := by
  induction stack generalizing out with
  | nil =>
      cases flushed
      rfl
  | cons token stack ih =>
      cases token with
      | opening => cases flushed
      | _ =>
          obtain ⟨rest, further, rfl⟩ := Outcome.map_eq_ok.mp flushed
          rw [ih further]

/-! ## One step -/

/-- What goes out for a token and which stack is left, for a stack and the token before. -/
inductive Shunts (stack : List Token) (previous : Option Token) :
    Token → List Token → List Token → Prop
  | number (value : Float) : Shunts stack previous (number value) [number value] stack
  | identifier (name : String) : Shunts stack previous (identifier name) [identifier name] stack
  | function (name : String) : Shunts stack previous (function name) [] (function name :: stack)
  | opening : Shunts stack previous opening [] (opening :: stack)
  | closing {popped below : List Token}
      (grouped : popGroup stack = (popped, Token.opening :: below)) :
      Shunts stack previous closing (popped ++ (popCalled below).1) (popCalled below).2
  | comma {popped below : List Token}
      (grouped : popGroup stack = (popped, Token.opening :: below)) :
      Shunts stack previous comma popped (Token.opening :: below)
  | minus (due : operandDue previous = true) :
      Shunts stack previous (operator .subtract) [] (operator .negate :: stack)
  | plus (due : operandDue previous = true) : Shunts stack previous (operator .add) [] stack
  | operator {op : Operator} (notDue : operandDue previous = false) :
      Shunts stack previous (operator op) (popYielding op stack).1
        (Token.operator op :: (popYielding op stack).2)

/-- **Steps of the conversion.** These are all the ways in which a step is taken. -/
theorem shunts_of_shunt {stack out next : List Token} {previous : Option Token} {token : Token}
    (shunted : shunt stack previous token = .ok (out, next)) :
    Shunts stack previous token out next := by
  cases token with
  | number value =>
      cases shunted
      exact .number value
  | identifier name =>
      cases shunted
      exact .identifier name
  | function name =>
      cases shunted
      exact .function name
  | opening =>
      cases shunted
      exact .opening
  | closing =>
      simp only [shunt] at shunted
      split at shunted
      · cases shunted
      · rename_i grouped
        cases shunted
        exact .closing (by rw [grouped, head_of_popGroup (congrArg Prod.snd grouped)])
  | comma =>
      simp only [shunt] at shunted
      split at shunted
      · cases shunted
      · rename_i nonempty grouped
        cases shunted
        cases next with
        | nil => exact (nonempty rfl).elim
        | cons token below =>
            obtain rfl := head_of_popGroup (congrArg Prod.snd grouped)
            exact .comma grouped
  | operator op =>
      cases due : operandDue previous with
      | true =>
          simp only [shunt, due, ↓reduceIte] at shunted
          split at shunted
          · cases shunted
            exact .minus due
          · cases shunted
            exact .plus due
          · cases shunted
      | false =>
          simp only [shunt, due, Bool.false_eq_true, ↓reduceIte] at shunted
          cases shunted
          exact .operator due
  | unknown text => cases shunted

/-! ## A run -/

/-- Conversion goes on after a token with the stack it leaves. -/
theorem postOrderFrom_of_shunt {stack next out : List Token} {previous : Option Token}
    {token : Token} (shunted : shunt stack previous token = .ok (out, next)) (rest : List Token) :
    postOrderFrom stack previous (token :: rest) =
      (postOrderFrom next (some token) rest).map (out ++ ·) := by
  rw [postOrderFrom, shunted, Outcome.ok_bind]
  change (postOrderFrom next (some token) rest >>= fun following => pure (out ++ following)) = _
  cases postOrderFrom next (some token) rest <;> rfl

/-- A conversion that ends has taken its first token and gone on. -/
theorem shunt_of_postOrderFrom {stack converted : List Token} {previous : Option Token}
    {token : Token} {rest : List Token}
    (ended : postOrderFrom stack previous (token :: rest) = .ok converted) :
    ∃ out next following, shunt stack previous token = .ok (out, next) ∧
      postOrderFrom next (some token) rest = .ok following ∧ out ++ following = converted := by
  cases shunted : shunt stack previous token with
  | error cause =>
      rw [postOrderFrom, shunted] at ended
      cases ended
  | ok result =>
      obtain ⟨out, next⟩ := result
      rw [postOrderFrom_of_shunt shunted] at ended
      obtain ⟨following, further, is⟩ := Outcome.map_eq_ok.mp ended
      exact ⟨out, next, following, rfl, further, is⟩

end Reckoner.Token
