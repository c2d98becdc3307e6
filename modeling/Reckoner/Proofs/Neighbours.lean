import Mathlib.Data.List.Chain
import Reckoner.Proofs.Juxtaposition
import Reckoner.Proofs.Writing

/-!
# Neighbours in a writing

Where every product is written with its sign and every function with parentheses, an operator, a
comma or a closing parenthesis follows each operand, and an opening parenthesis follows each
function (`Reckoner.Expression.arranged_of_written`). No sign of a product is left out then
(`Reckoner.Token.Arranged.signed`).
-/

namespace Reckoner

namespace Token

/-- The token goes on an expression after an operand. -/
def goesOn : Token → Bool
  | operator _ | comma | closing => true
  | _ => false

def isFunction : Token → Bool
  | function _ => true
  | _ => false

/-- The second token can come right after the first one. -/
def CanFollow (token next : Token) : Prop :=
  (token.endsOperand = true → next.goesOn = true) ∧
    (token.isFunction = true → next = opening)

/-- Every token can come after the one before it, and the last one ends an operand. -/
structure Arranged (tokens : List Token) : Prop where
  chain : tokens.IsChain CanFollow
  ended : ∃ last ∈ tokens.getLast?, last.endsOperand = true

variable {token : Token} {tokens others : List Token}

theorem canFollow_of_goesOn (ends : token.endsOperand = true) {next : Token}
    (goesOn : next.goesOn = true) : CanFollow token next := by
  refine ⟨fun _ => goesOn, fun called => ?_⟩
  cases token with
  | function name => cases ends
  | _ => cases called

theorem canFollow_of_awaits (ends : token.endsOperand = false)
    (called : token.isFunction = false) (next : Token) : CanFollow token next := by
  refine ⟨fun is => ?_, fun is => ?_⟩
  · rw [ends] at is
    cases is
  · rw [called] at is
    cases is

namespace Arranged

theorem leaf (ends : token.endsOperand = true) : Arranged [token] :=
  ⟨.singleton _, token, rfl, ends⟩

theorem cons (awaits : ∀ next ∈ tokens.head?, CanFollow token next)
    (arranged : Arranged tokens) : Arranged (token :: tokens) := by
  obtain ⟨chain, last, isLast, ends⟩ := arranged
  refine ⟨List.isChain_cons.mpr ⟨awaits, chain⟩, last, ?_, ends⟩
  cases tokens with
  | nil => cases isLast
  | cons next rest => exact isLast

theorem append (first : Arranged tokens) (goesOn : ∀ next ∈ others.head?, next.goesOn = true)
    (second : Arranged others) : Arranged (tokens ++ others) := by
  obtain ⟨chain, last, isLast, ends⟩ := first
  refine ⟨chain.append second.chain fun before isBefore next isNext => ?_, ?_⟩
  · obtain rfl := Option.mem_unique isLast isBefore
    exact canFollow_of_goesOn ends (goesOn next isNext)
  · obtain ⟨final, isFinal, ended⟩ := second.ended
    refine ⟨final, ?_, ended⟩
    rw [List.getLast?_append, Option.mem_def.mp isFinal]
    rfl

/-- A parenthesis closes what is arranged. -/
theorem close (arranged : Arranged tokens) : Arranged (tokens ++ [closing]) := by
  refine append arranged (fun next is => ?_) (leaf rfl)
  cases is
  rfl

theorem tail (arranged : Arranged (token :: tokens)) (some : tokens ≠ []) : Arranged tokens := by
  obtain ⟨chain, last, isLast, ends⟩ := arranged
  refine ⟨(List.isChain_cons.mp chain).2, last, ?_, ends⟩
  cases tokens with
  | nil => exact absurd rfl some
  | cons next rest => exact isLast

/-- An opening parenthesis comes after a function. -/
theorem head_of_function {name : String} (arranged : Arranged (function name :: tokens)) :
    tokens.head? = some opening := by
  obtain ⟨chain, last, isLast, ends⟩ := arranged
  cases tokens with
  | nil =>
      cases isLast
      cases ends
  | cons next rest =>
      have follows := (List.isChain_cons.mp chain).1 next rfl
      rw [List.head?_cons, follows.2 rfl]

/-- No opening parenthesis comes after an operand. -/
theorem head_ne_of_endsOperand (arranged : Arranged (token :: tokens))
    (ends : token.endsOperand = true) : tokens.head? ≠ some opening := by
  intro is
  have follows := (List.isChain_cons.mp arranged.chain).1 opening is
  cases follows.1 ends

/-- Arranged tokens have all their signs of products. -/
theorem signed (arranged : Arranged tokens) : Signed none tokens := by
  obtain ⟨chain, _⟩ := arranged
  have each {previous : Option Token} {tokens : List Token}
      (follows : ∀ before ∈ previous, ∀ next ∈ tokens.head?, CanFollow before next)
      (chain : tokens.IsChain CanFollow) : Signed previous tokens := by
    induction tokens generalizing previous with
    | nil => exact trivial
    | cons token rest ih =>
        obtain ⟨first, ofRest⟩ := List.isChain_cons.mp chain
        refine ⟨fun before is => ?_, ih (fun before is => ?_) ofRest⟩
        · have fits := (follows before is token rfl).1
          unfold juxtaposed
          cases ends : before.endsOperand with
          | false => rfl
          | true =>
              have goesOn := fits ends
              cases token with
              | operator op => rfl
              | comma => rfl
              | closing => rfl
              | _ => cases goesOn
        · cases is
          exact first
  exact each (fun before is => nomatch is) chain

end Arranged

end Token

namespace Expression

open Token

mutual

/-- The tokens of a writing are arranged where no function is bare. -/
theorem arranged_of_written {next : Option Token} {level : Nat} {tree : Expression}
    {tokens : List Token} (written : Written (fun _ => False) next level tree tokens) :
    Arranged tokens := by
  match written with
  | .number value => exact .leaf rfl
  | .name symbol => exact .leaf rfl
  | .enclosed inside =>
      exact .cons (fun next _ => canFollow_of_awaits rfl rfl next)
        (arranged_of_written inside).close
  | .plus signed =>
      exact .cons (fun next _ => canFollow_of_awaits rfl rfl next) (arranged_of_written signed)
  | .negation ofOperand tight =>
      exact .cons (fun next _ => canFollow_of_awaits rfl rfl next)
        (arranged_of_written ofOperand)
  | .operation binary ofLeft ofRight leftTight rightTight =>
      refine .append (arranged_of_written ofLeft) (fun next is => ?_)
        (.cons (fun next _ => canFollow_of_awaits rfl rfl next) (arranged_of_written ofRight))
      cases is
      rfl
  | .call ofArguments =>
      refine .cons (fun next is => ?_) (.cons (fun next _ => canFollow_of_awaits rfl rfl next)
        (arranged_of_writtenArguments ofArguments).close)
      cases is
      exact ⟨nofun, fun _ => rfl⟩
  | .application allowed ofArgument => exact absurd allowed id

theorem arranged_of_writtenArguments {trees : List Expression} {tokens : List Token}
    (written : WrittenArguments (fun _ => False) trees tokens) : Arranged tokens := by
  match written with
  | .last written => exact arranged_of_written written
  | .more written ofOthers =>
      refine .append (arranged_of_written written) (fun next is => ?_)
        (.cons (fun next _ => canFollow_of_awaits rfl rfl next)
          (arranged_of_writtenArguments ofOthers))
      cases is
      rfl

end

end Expression

end Reckoner
