import Mathlib.Data.List.Induction
import Reckoner.Proofs.Writing

/-!
# What the conversion to post-order keeps

The conversion refuses tokens at the first one that cannot stand where it does: a closing
parenthesis or a comma outside of parentheses, an operator other than plus and minus where an
operand is due, or a token of an unknown kind (`Reckoner.Token.Refused`). Parentheses that are left
open are refused at the end. All other tokens are rearranged and none is lost: operands keep their
order, and operators and functions all come out, signs as such (`Reckoner.Token.postOrder_outcome`).

The stack holds operators, functions and the parentheses that are open. Together with what has gone
out it holds all operators and functions so far (`Reckoner.Token.Converted`).
-/

namespace Reckoner.Token

open Outcome

/-! ## Where tokens are refused -/

/-- What a token adds to the number of open parentheses. -/
def opens : Token → Int
  | opening => 1
  | closing => -1
  | _ => 0

/-- The number of opening parentheses among the tokens less the number of closing ones. -/
def depth : List Token → Int
  | [] => 0
  | token :: rest => token.opens + depth rest

/-- An operator after the tokens is a sign: there are none, or the last one is an operator, a
function, an opening parenthesis or a comma. -/
def BeforeSign (before : List Token) : Prop :=
  ∀ last ∈ before.getLast?, last.isOperation = true ∨ last = opening ∨ last = comma

/-- The token cannot stand after the tokens before it. -/
inductive Refused (before : List Token) : Token → Cause → Prop
  | closing (outside : depth before = 0) : Refused before closing .unmatchedParentheses
  | comma (outside : depth before = 0) : Refused before comma .strayComma
  | operator {op : Operator} (sign : BeforeSign before) (notPlus : op ≠ .add)
      (notMinus : op ≠ .subtract) : Refused before (operator op) (.missingOperand op)
  | unknown (text : String) : Refused before (unknown text) (.unexpectedToken text)

/-- Every token can stand after the tokens before it. -/
def Accepted (tokens : List Token) : Prop :=
  ∀ before token rest, tokens = before ++ token :: rest → ∀ cause, ¬Refused before token cause

/-- The cause is that of the first token that cannot stand where it does. -/
def FirstRefused (tokens : List Token) (cause : Cause) : Prop :=
  ∃ before token rest, tokens = before ++ token :: rest ∧ Accepted before ∧
    Refused before token cause

theorem operandDue_iff (before : List Token) :
    operandDue before.getLast? = true ↔ BeforeSign before := by
  unfold BeforeSign
  cases before.getLast? with
  | none => simp [operandDue]
  | some last => cases last <;> simp [operandDue, awaitsOperand, isOperation]

instance (before : List Token) : Decidable (BeforeSign before) :=
  decidable_of_iff _ (operandDue_iff before)

/-! ## What comes out -/

/-- The token is a number or a variable. -/
def isOperand : Token → Bool
  | number _ | identifier _ => true
  | _ => false

/-- The operator or function that comes out for a token: a minus that is a sign is an operator of
its own, and a plus that is a sign is dropped. -/
def operation (before : List Token) : Token → List Token
  | function name => [function name]
  | operator op =>
      if BeforeSign before then (if op = .subtract then [operator .negate] else [])
      else [operator op]
  | _ => []

/-- The operators and functions that come out for tokens that follow others. -/
def operationsAfter (before : List Token) : List Token → List Token
  | [] => []
  | token :: rest => operation before token ++ operationsAfter (before ++ [token]) rest

/-- The second list has the numbers and variables of the first one in their order, and its operators
and functions, with signs as such, in any order. There is nothing else in it. -/
structure Rearranged (tokens out : List Token) : Prop where
  operands : out.filter isOperand = tokens.filter isOperand
  operations : (out.filter isOperation).Perm (operationsAfter [] tokens)
  others : ∀ token ∈ out, token.isOperand = true ∨ token.isOperation = true

theorem operationsAfter_concat (before tokens : List Token) (token : Token) :
    operationsAfter before (tokens ++ [token]) =
      operationsAfter before tokens ++ operation (before ++ tokens) token := by
  induction tokens generalizing before with
  | nil => simp [operationsAfter]
  | cons first tokens ih =>
      simp only [List.cons_append, operationsAfter, ih, List.append_assoc, List.nil_append]

/-! ## Depth -/

@[simp] theorem depth_nil : depth [] = 0 := rfl

@[simp] theorem depth_cons (token : Token) (rest : List Token) :
    depth (token :: rest) = token.opens + depth rest := rfl

@[simp] theorem depth_append (first second : List Token) :
    depth (first ++ second) = depth first + depth second := by
  induction first with
  | nil => simp
  | cons token rest ih => rw [List.cons_append, depth_cons, depth_cons, ih, Int.add_assoc]

theorem depth_of_operations {tokens : List Token}
    (operations : ∀ token ∈ tokens, token.isOperation = true) : depth tokens = 0 := by
  induction tokens with
  | nil => rfl
  | cons token rest ih =>
      obtain ⟨ofToken, ofRest⟩ := List.forall_mem_cons.mp operations
      cases token <;> simp_all [isOperation, opens]

/-! ## The stack -/

/-- There are operators, functions and opening parentheses on the stack. -/
def IsStack (stack : List Token) : Prop :=
  ∀ token ∈ stack, token.isOperation = true ∨ token = opening

theorem IsStack.depth_nonneg {stack : List Token} (isStack : IsStack stack) : 0 ≤ depth stack := by
  induction stack with
  | nil => simp
  | cons token stack ih =>
      obtain ⟨ofToken, ofStack⟩ := List.forall_mem_cons.mp isStack
      have nonneg : 0 ≤ token.opens := by
        rcases ofToken with isOperation | rfl
        · cases token <;> simp_all [Token.isOperation, opens]
        · simp [opens]
      have := ih ofStack
      rw [depth_cons]
      omega

theorem popGroup_operations {pending : List Token}
    (operations : ∀ token ∈ pending, token.isOperation = true) :
    popGroup pending = (pending, []) := by
  induction pending with
  | nil => rfl
  | cons token pending ih =>
      obtain ⟨ofToken, ofRest⟩ := List.forall_mem_cons.mp operations
      cases token <;> simp_all [isOperation, popGroup]

/-- On top of a stack stand operators and functions, and below them the nearest open parenthesis, if
there is one. -/
theorem IsStack.cases {stack : List Token} (isStack : IsStack stack) :
    ∃ pending, (∀ token ∈ pending, token.isOperation = true) ∧
      (stack = pending ∧ depth stack = 0 ∧ popGroup stack = (pending, []) ∨
        ∃ below, stack = pending ++ opening :: below ∧ depth stack ≠ 0 ∧
          popGroup stack = (pending, opening :: below)) := by
  have split : ∃ pending, (∀ token ∈ pending, token.isOperation = true) ∧
      (stack = pending ∨ ∃ below, stack = pending ++ opening :: below) := by
    induction stack with
    | nil => exact ⟨[], by simp, .inl rfl⟩
    | cons token stack ih =>
        obtain ⟨ofToken, ofStack⟩ := List.forall_mem_cons.mp isStack
        rcases ofToken with isOperation | rfl
        · obtain ⟨pending, operations, shape⟩ := ih ofStack
          refine ⟨token :: pending, by simpa [isOperation] using operations, ?_⟩
          rcases shape with rfl | ⟨below, rfl⟩
          · exact .inl rfl
          · exact .inr ⟨below, rfl⟩
        · exact ⟨[], by simp, .inr ⟨stack, rfl⟩⟩
  obtain ⟨pending, operations, rfl | ⟨below, rfl⟩⟩ := split
  · exact ⟨_, operations, .inl ⟨rfl, depth_of_operations operations,
      popGroup_operations operations⟩⟩
  · refine ⟨_, operations, .inr ⟨below, rfl, ?_, Expression.popGroup_append operations below⟩⟩
    have ofBelow : IsStack below := fun token member =>
      isStack token (List.mem_append_right _ (List.mem_cons_of_mem _ member))
    have nonneg := ofBelow.depth_nonneg
    rw [depth_append, depth_of_operations operations, depth_cons, opens]
    omega

theorem flush_append_opening {pending : List Token}
    (operations : ∀ token ∈ pending, token.isOperation = true) (below : List Token) :
    flush (pending ++ opening :: below) = .error .unmatchedParentheses := by
  induction pending with
  | nil => rfl
  | cons token pending ih =>
      obtain ⟨ofToken, ofRest⟩ := List.forall_mem_cons.mp operations
      have ofPending := ih ofRest
      cases token with
      | operator | function => simp only [List.cons_append, flush, ofPending, Except.map]
      | _ => cases ofToken

/-- A stack without parentheses has operators and functions only. -/
theorem IsStack.operations_of_depth {stack : List Token} (isStack : IsStack stack)
    (none : depth stack = 0) : ∀ token ∈ stack, token.isOperation = true := by
  obtain ⟨pending, operations, ⟨rfl, _⟩ | ⟨_, _, some, _⟩⟩ := isStack.cases
  · exact operations
  · exact absurd none some

/-- What is left at the end goes out exactly if no parenthesis is open. -/
theorem IsStack.flush_eq {stack : List Token} (isStack : IsStack stack) :
    flush stack = if depth stack = 0 then .ok stack else .error .unmatchedParentheses := by
  obtain ⟨pending, operations, ⟨rfl, none, _⟩ | ⟨below, rfl, some, _⟩⟩ := isStack.cases
  · rw [if_pos none, Expression.flush_operations operations]
  · rw [if_neg some, flush_append_opening operations]

/-! ## One token -/

/-- After a token the stack `next` is left and `more` has gone out: parentheses are counted,
operands go out, and the operators and functions are those of the stack before and of the token. -/
structure Shunted (before stack : List Token) (token : Token) (more next : List Token) : Prop where
  isStack : IsStack next
  depth : depth next = depth stack + token.opens
  operands : more.filter isOperand = [token].filter isOperand
  operations : ((more ++ next).filter isOperation).Perm
    (stack.filter isOperation ++ operation before token)
  others : ∀ out ∈ more, out.isOperand = true ∨ out.isOperation = true

theorem filter_isOperand_operations {tokens : List Token}
    (operations : ∀ token ∈ tokens, token.isOperation = true) : tokens.filter isOperand = [] := by
  rw [List.filter_eq_nil_iff]
  intro token member
  have isOperation := operations token member
  cases token <;> simp_all [isOperand, Token.isOperation]

section Shunt

variable {before stack : List Token} (isStack : IsStack stack)

include isStack

theorem IsStack.tail {pending below : List Token} (is : stack = pending ++ below) :
    IsStack below :=
  fun token member => isStack token (by rw [is]; exact List.mem_append_right _ member)

theorem IsStack.cons {token : Token} (can : token.isOperation = true ∨ token = opening) :
    IsStack (token :: stack) :=
  List.forall_mem_cons.mpr ⟨can, isStack⟩

theorem shunted_operand {token : Token} (operand : token.isOperand = true) :
    Shunted before stack token [token] stack := by
  cases token with
  | number | identifier =>
      refine ⟨isStack, by simp [opens], rfl, ?_, by simp [isOperand]⟩
      simp [isOperation, operation]
  | _ => cases operand

theorem shunted_function (name : String) :
    Shunted before stack (function name) [] (function name :: stack) := by
  refine ⟨isStack.cons (.inl rfl), by simp [opens], rfl, ?_, by simp⟩
  simp only [List.nil_append, List.filter_cons, isOperation, if_true, operation]
  exact (List.perm_append_singleton _ _).symm

theorem shunted_opening : Shunted before stack opening [] (opening :: stack) := by
  refine ⟨isStack.cons (.inr rfl), by simp [opens, Int.add_comm], rfl, ?_, by simp⟩
  simp [isOperation, operation]

/-- A closing parenthesis takes what stands above the one that it closes, and the function in
front of that. -/
theorem shunted_closing {pending below : List Token}
    (operations : ∀ token ∈ pending, token.isOperation = true)
    (is : stack = pending ++ opening :: below) :
    Shunted before stack closing (pending ++ (popCalled below).1) (popCalled below).2 := by
  have parts := popCalled_append_rest below
  have called : ∀ token ∈ (popCalled below).1, token.isOperation = true :=
    fun token => Expression.isOperation_popCalled
  have more : ∀ token ∈ pending ++ (popCalled below).1, token.isOperation = true :=
    fun token member => (List.mem_append.mp member).elim (operations token) (called token)
  refine ⟨?_, ?_, ?_, ?_, fun token member => .inr (more token member)⟩
  · have split : stack = (pending ++ opening :: (popCalled below).1) ++ (popCalled below).2 := by
      rw [is, List.append_assoc, List.cons_append, parts]
    exact isStack.tail split
  · have depths := congrArg Token.depth parts
    rw [depth_append, depth_of_operations called] at depths
    rw [is, depth_append, depth_of_operations operations, depth_cons, ← depths]
    simp only [opens]
    omega
  · rw [filter_isOperand_operations more]
    rfl
  · rw [List.append_assoc, parts, is]
    simp [isOperation, operation]

/-- A comma takes what stands above the nearest parenthesis. -/
theorem shunted_comma {pending below : List Token}
    (operations : ∀ token ∈ pending, token.isOperation = true)
    (is : stack = pending ++ opening :: below) :
    Shunted before stack comma pending (opening :: below) := by
  refine ⟨isStack.tail is, ?_, ?_, ?_, fun token member => .inr (operations token member)⟩
  · rw [is, depth_append, depth_of_operations operations]
    simp [opens]
  · rw [filter_isOperand_operations operations]
    rfl
  · simp [is, operation]

/-- A sign goes onto the stack, where nothing gives way to it, and a plus is dropped. -/
theorem shunted_sign {op : Operator} (sign : BeforeSign before) :
    Shunted before stack (operator op) []
      ((if op = .subtract then [operator .negate] else []) ++ stack) := by
  have ofSign : operation before (operator op) =
      if op = .subtract then [operator .negate] else [] := if_pos sign
  by_cases minus : op = .subtract
  · refine ⟨?_, ?_, rfl, ?_, by simp⟩
    · rw [if_pos minus]
      exact isStack.cons (.inl rfl)
    · simp [minus, opens]
    · rw [ofSign, if_pos minus]
      exact (List.perm_append_singleton _ _).symm
  · refine ⟨?_, ?_, rfl, ?_, by simp⟩
    · rwa [if_neg minus]
    · simp [minus, opens]
    · simp [ofSign, minus]

/-- An operator between operands takes what gives way to it. -/
theorem shunted_operator {op : Operator} (notSign : ¬BeforeSign before) :
    Shunted before stack (operator op) (popYielding op stack).1
      (operator op :: (popYielding op stack).2) := by
  have parts := popYielding_append_rest op stack
  have popped : ∀ token ∈ (popYielding op stack).1, token.isOperation = true := by
    intro token member
    have yields : yieldsTo op.halves token = true := 
      List.all_eq_true.mp List.all_takeWhile token member
    cases token <;> simp_all [yieldsTo, isOperation]
  refine ⟨?_, ?_, ?_, ?_, fun token member => .inr (popped token member)⟩
  · exact (isStack.tail parts.symm).cons (.inl rfl)
  · have depths := congrArg Token.depth parts
    rw [depth_append, depth_of_operations popped] at depths
    rw [depth_cons, ← depths]
    simp [opens]
  · rw [filter_isOperand_operations popped]
    rfl
  · have ofOperator : operation before (operator op) = [operator op] := if_neg notSign
    have kept := congrArg (List.filter isOperation) parts
    rw [List.filter_append] at kept
    rw [ofOperator, ← kept, List.filter_append, List.filter_cons_of_pos rfl, List.append_assoc]
    exact (List.perm_append_singleton _ _).symm.append_left _

/-- **One step of the conversion.** A token that cannot stand where it does is refused for its
cause. For any other token a step is taken. -/
theorem shunt_cases (same : depth stack = depth before) (token : Token) :
    (∃ cause, Refused before token cause ∧ shunt stack before.getLast? token = .error cause) ∨
      (∀ cause, ¬Refused before token cause) ∧ ∃ more next,
        shunt stack before.getLast? token = .ok (more, next) ∧
          Shunted before stack token more next := by
  cases token with
  | number value =>
      exact .inr ⟨nofun, _, _, rfl, shunted_operand isStack rfl⟩
  | identifier name =>
      exact .inr ⟨nofun, _, _, rfl, shunted_operand isStack rfl⟩
  | function name =>
      exact .inr ⟨nofun, _, _, rfl, shunted_function isStack name⟩
  | opening => exact .inr ⟨nofun, _, _, rfl, shunted_opening isStack⟩
  | unknown text => exact .inl ⟨_, .unknown text, rfl⟩
  | closing =>
      obtain ⟨pending, operations, ⟨_, none, grouped⟩ | ⟨below, is, some, grouped⟩⟩ := isStack.cases
      · refine .inl ⟨_, .closing (same.symm.trans none), ?_⟩
        simp only [shunt, grouped]
      · refine .inr ⟨fun cause refused => ?_, _, _, ?_, shunted_closing isStack operations is⟩
        · cases refused with
          | closing outside => exact some (same.trans outside)
        · simp only [shunt, grouped]
  | comma =>
      obtain ⟨pending, operations, ⟨_, none, grouped⟩ | ⟨below, is, some, grouped⟩⟩ := isStack.cases
      · refine .inl ⟨_, .comma (same.symm.trans none), ?_⟩
        simp only [shunt, grouped]
      · refine .inr ⟨fun cause refused => ?_, _, _, ?_, shunted_comma isStack operations is⟩
        · cases refused with
          | comma outside => exact some (same.trans outside)
        · simp only [shunt, grouped]
  | operator op =>
      by_cases sign : BeforeSign before
      · have due := (operandDue_iff before).mpr sign
        by_cases minus : op = .subtract
        · refine .inr ⟨?_, _, _, ?_, shunted_sign isStack sign⟩
          · rintro cause ⟨⟩
            contradiction
          · simp [shunt, due, minus]
        · by_cases plus : op = .add
          · refine .inr ⟨?_, _, _, ?_, shunted_sign isStack sign⟩
            · rintro cause ⟨⟩
              contradiction
            · simp [shunt, due, plus]
          · refine .inl ⟨_, .operator sign plus minus, ?_⟩
            cases op <;> simp_all [shunt]
      · have due : operandDue before.getLast? = false := by
          rw [← Bool.not_eq_true, operandDue_iff]
          exact sign
        refine .inr ⟨?_, _, _, ?_, shunted_operator isStack sign⟩
        · rintro cause ⟨⟩
          contradiction
        · simp [shunt, due]

end Shunt

/-! ## A run -/

/-- The tokens `before` have been taken: `out` has gone out, and `stack` is left. -/
structure Converted (before out stack : List Token) : Prop where
  isStack : IsStack stack
  depth : depth stack = depth before
  operands : out.filter isOperand = before.filter isOperand
  operations : ((out ++ stack).filter isOperation).Perm (operationsAfter [] before)
  others : ∀ token ∈ out, token.isOperand = true ∨ token.isOperation = true

theorem Converted.start : Converted [] [] [] :=
  ⟨nofun, rfl, rfl, .refl _, nofun⟩

theorem Converted.step {before out stack more next : List Token} {token : Token}
    (converted : Converted before out stack) (shunted : Shunted before stack token more next) :
    Converted (before ++ [token]) (out ++ more) next := by
  refine ⟨shunted.isStack, ?_, ?_, ?_, fun t member => ?_⟩
  · rw [shunted.depth, converted.depth, depth_append, depth_cons, depth_nil, Int.add_zero]
  · rw [List.filter_append, List.filter_append, converted.operands, shunted.operands]
  · have soFar := converted.operations
    rw [List.filter_append] at soFar
    rw [operationsAfter_concat, List.nil_append, List.append_assoc, List.filter_append]
    refine (shunted.operations.append_left _).trans ?_
    rw [← List.append_assoc]
    exact soFar.append_right _
  · rcases List.mem_append.mp member with earlier | later
    · exact converted.others t earlier
    · exact shunted.others t later

theorem accepted_concat (before : List Token) (token : Token) :
    Accepted (before ++ [token]) ↔
      Accepted before ∧ ∀ cause, ¬Refused before token cause := by
  constructor
  · refine fun accepted => ⟨?_, fun cause => accepted before token [] rfl cause⟩
    rintro first other rest rfl cause
    exact accepted first other (rest ++ [token]) (by simp) cause
  · rintro ⟨accepted, last⟩ first other rest is cause
    rcases List.eq_nil_or_concat rest with rfl | ⟨rest, final, rfl⟩
    · obtain ⟨rfl, same⟩ := List.append_inj' is rfl
      cases same
      exact last cause
    · rw [List.concat_eq_append, ← List.cons_append, ← List.append_assoc] at is
      obtain ⟨earlier, _⟩ := List.append_inj' is rfl
      exact accepted first other rest earlier cause

/-- Either all tokens can stand where they do, or there is a first one that cannot. -/
theorem accepted_or_firstRefused (tokens : List Token) :
    Accepted tokens ∨ ∃ cause, FirstRefused tokens cause := by
  induction tokens using List.reverseRecOn with
  | nil => exact .inl fun before token rest is => by simp at is
  | append_singleton before token ih =>
      rcases ih with accepted | ⟨cause, first, other, rest, rfl, accepted, refused⟩
      · by_cases refused : ∃ cause, Refused before token cause
        · obtain ⟨cause, refused⟩ := refused
          exact .inr ⟨cause, before, token, [], rfl, accepted, refused⟩
        · exact .inl ((accepted_concat before token).mpr ⟨accepted, not_exists.mp refused⟩)
      · exact .inr ⟨cause, first, other, rest ++ [token], by simp, accepted, refused⟩

/-- **A run over tokens that can stand where they do.** The conversion goes on behind them with the
stack that they leave. -/
theorem exists_converted {before : List Token} (accepted : Accepted before) :
    ∃ out stack, Converted before out stack ∧ ∀ rest,
      postOrder (before ++ rest) =
        (postOrderFrom stack before.getLast? rest).map (out ++ ·) := by
  induction before using List.reverseRecOn with
  | nil =>
      refine ⟨[], [], .start, fun rest => ?_⟩
      simp only [postOrder, List.nil_append, List.getLast?_nil]
      cases postOrderFrom [] none rest <;> rfl
  | append_singleton before token ih =>
      obtain ⟨ofBefore, stands⟩ := (accepted_concat before token).mp accepted
      obtain ⟨out, stack, converted, runs⟩ := ih ofBefore
      rcases shunt_cases converted.isStack converted.depth token with
        ⟨cause, refused, _⟩ | ⟨_, more, next, shunts, shunted⟩
      · exact absurd refused (stands cause)
      · refine ⟨out ++ more, next, converted.step shunted, fun rest => ?_⟩
        rw [List.append_assoc, List.singleton_append, runs, postOrderFrom_of_shunt shunts,
          List.getLast?_concat]
        cases postOrderFrom next (some token) rest <;> simp [Except.map]

/-! ## The outcome -/

theorem postOrder_of_firstRefused {tokens : List Token} {cause : Cause}
    (first : FirstRefused tokens cause) : postOrder tokens = .error cause := by
  obtain ⟨before, token, rest, rfl, accepted, refused⟩ := first
  obtain ⟨out, stack, converted, runs⟩ := exists_converted accepted
  rcases shunt_cases converted.isStack converted.depth token with
    ⟨other, refuses, shunts⟩ | ⟨stands, _⟩
  · have same : other = cause := by cases refuses <;> cases refused <;> rfl
    rw [runs, postOrderFrom, shunts, same]
    rfl
  · exact absurd refused (stands cause)

/-- Tokens that can all stand where they do are converted, unless a parenthesis is left open. -/
theorem postOrder_of_accepted {tokens : List Token} (accepted : Accepted tokens) :
    0 < depth tokens ∧ postOrder tokens = .error .unmatchedParentheses ∨
      depth tokens = 0 ∧ ∃ out, postOrder tokens = .ok out ∧ Rearranged tokens out := by
  obtain ⟨out, stack, converted, runs⟩ := exists_converted accepted
  have ends := runs []
  rw [List.append_nil, postOrderFrom, converted.isStack.flush_eq, converted.depth] at ends
  have nonneg := converted.isStack.depth_nonneg
  rw [converted.depth] at nonneg
  by_cases closed : depth tokens = 0
  · rw [if_pos closed] at ends
    have left := converted.isStack.operations_of_depth (converted.depth.trans closed)
    refine .inr ⟨closed, out ++ stack, ends, ?_, converted.operations, fun token member => ?_⟩
    · rw [List.filter_append, filter_isOperand_operations left, List.append_nil,
        converted.operands]
    · rcases List.mem_append.mp member with earlier | atEnd
      · exact converted.others token earlier
      · exact .inr (left token atEnd)
  · rw [if_neg closed] at ends
    exact .inl ⟨by omega, ends⟩

/-- The kind of error for a token that cannot stand where it does. -/
def refusalKind : Token → ErrorKind
  | closing => .unmatchedParentheses
  | _ => .invalidExpression

theorem Refused.kind_eq {before : List Token} {token : Token} {cause : Cause}
    (refused : Refused before token cause) : cause.kind = refusalKind token := by
  cases refused <;> rfl

theorem FirstRefused.not_accepted {tokens : List Token} {cause : Cause}
    (first : FirstRefused tokens cause) : ¬Accepted tokens := by
  obtain ⟨before, token, rest, is, _, refused⟩ := first
  exact fun accepted => accepted before token rest is cause refused

/-- **The conversion fails where it has to and loses nothing.** It fails for the first token that
cannot stand where it does, or else because a parenthesis is left open at the end. In all other
cases it gives the operands in their order, and the operators and functions, with signs as such. -/
theorem postOrder_outcome (tokens : List Token) :
    (∀ cause, postOrder tokens = .error cause ↔
        FirstRefused tokens cause ∨
          Accepted tokens ∧ 0 < depth tokens ∧ cause = .unmatchedParentheses) ∧
      (∀ before token cause, Refused before token cause → cause.kind = refusalKind token) ∧
        ((∃ out, postOrder tokens = .ok out) ↔ Accepted tokens ∧ depth tokens = 0) ∧
          ∀ out, postOrder tokens = .ok out → Rearranged tokens out := by
  rcases accepted_or_firstRefused tokens with accepted | ⟨cause, first⟩
  · have none (cause : Cause) : ¬FirstRefused tokens cause :=
      fun first => first.not_accepted accepted
    rcases postOrder_of_accepted accepted with ⟨unclosed, fails⟩ | ⟨closed, out, ends, rearranged⟩
    · have some : depth tokens ≠ 0 := by omega
      refine ⟨fun cause => ?_, fun _ _ _ => Refused.kind_eq, ?_, ?_⟩
      · simp [fails, none, accepted, unclosed, eq_comm]
      · simp [fails, some]
      · simp [fails]
    · refine ⟨fun cause => ?_, fun _ _ _ => Refused.kind_eq, ?_, ?_⟩
      · simp [ends, none, closed]
      · simp [ends, accepted, closed]
      · intro other is
        cases ends.symm.trans is
        exact rearranged
  · have fails := postOrder_of_firstRefused first
    refine ⟨fun other => ⟨fun is => ?_, ?_⟩, fun _ _ _ => Refused.kind_eq, ?_, ?_⟩
    · cases fails.symm.trans is
      exact .inl first
    · rintro (refused | ⟨accepted, _⟩)
      · exact postOrder_of_firstRefused refused
      · exact absurd accepted first.not_accepted
    · simp [fails, first.not_accepted]
    · simp [fails]

end Reckoner.Token
