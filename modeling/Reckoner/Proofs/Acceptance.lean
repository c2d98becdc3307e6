import Reckoner.Proofs.Conversion
import Reckoner.Proofs.Grammar
import Reckoner.Proofs.Juxtaposition
import Reckoner.Proofs.Reading
import Reckoner.Proofs.StackMachine
import Reckoner.Proofs.Stages

/-!
# The texts that have a value

The conversion to post-order keeps what tokens are worth
(`Reckoner.Grammar.stackWorth_postOrderFrom`), and tokens in post-order with a value are worth one.
So tokens that are worth anything else have no value. But operands that miss in one place and are
left over in another go unnoticed: `2 3 +` has a value. Among the tokens with a value, the
expressions of the grammar are those that have their numbers apart and their commas where there is
room for them (`Reckoner.Grammar.isExpression_iff_of_evaluate`).
-/

namespace Reckoner.Grammar

open Token Expression Outcome

/-! ## What tokens in post-order are worth -/

/-- What tokens in post-order, or on the stack of the conversion, are worth together. -/
def stackWorth : List Token → Int
  | [] => 0
  | token :: rest => weight token + stackWorth rest

theorem stackWorth_append (first second : List Token) :
    stackWorth (first ++ second) = stackWorth first + stackWorth second := by
  induction first with
  | nil => exact (Int.zero_add _).symm
  | cons token first ih => rw [List.cons_append, stackWorth, stackWorth, ih, Int.add_assoc]

/-- Expressions with values are worth one each. -/
theorem stackWorth_postOrders {degrees : Bool} {arguments : List Expression} {operands : List Float}
    (each : ∀ argument ∈ arguments, ∀ a, argument.value degrees unbound = .ok a →
      stackWorth argument.postOrder = 1)
    (valued : values degrees unbound arguments = .ok operands) :
    stackWorth (postOrders arguments) = arguments.length := by
  induction arguments generalizing operands with
  | nil => rfl
  | cons first rest ih =>
      obtain ⟨a, ofFirst, others, ofRest, _⟩ := values_cons_eq_ok.mp valued
      rw [postOrders, stackWorth_append, each first List.mem_cons_self a ofFirst,
        ih (fun argument member => each argument (List.mem_cons_of_mem _ member)) ofRest,
        List.length_cons]
      omega

/-- An expression without names that has a value is worth one. -/
theorem stackWorth_postOrder {degrees : Bool} {tree : Expression} (wellFormed : tree.WellFormed)
    {a : Float} (valued : tree.value degrees unbound = .ok a) :
    stackWorth tree.postOrder = 1 := by
  induction wellFormed generalizing a with
  | number value => rfl
  | name symbol => cases valued
  | negation _ ih =>
      obtain ⟨b, ofOperand, _⟩ := value_negation_eq_ok.mp valued
      rw [Expression.postOrder, stackWorth_append, ih ofOperand]
      rfl
  | operation binary _ _ ihLeft ihRight =>
      obtain ⟨b, ofLeft, c, ofRight, _⟩ := value_operation_eq_ok.mp valued
      rw [Expression.postOrder, stackWorth_append, stackWorth_append, ihLeft ofLeft,
        ihRight ofRight, stackWorth, weight, binary]
      rfl
  | call known count _ each =>
      obtain ⟨operands, ofArguments, _⟩ := value_call_eq_ok.mp valued
      rw [Expression.postOrder, stackWorth_append,
        stackWorth_postOrders (fun argument member a => each argument member) ofArguments,
        stackWorth, weight, known, count]
      change (_ : Int) + (1 - _ + 0) = 1
      omega

/-! ## The conversion keeps the worth -/

/-- What goes out and what stays on the stack are worth as much as the stack before and the
token. -/
theorem stackWorth_shunt {stack out next : List Token} {previous : Option Token} {token : Token}
    (shunted : shunt stack previous token = .ok (out, next)) :
    stackWorth out + stackWorth next = stackWorth stack + worth (operandDue previous) token := by
  cases shunts_of_shunt shunted with
  | number value => exact Int.add_comm _ _
  | identifier name => exact Int.add_comm _ _
  | function name =>
      simp only [stackWorth, worth]
      omega
  | opening =>
      simp only [stackWorth, worth, weight]
      omega
  | @closing popped below grouped =>
      have called := congrArg stackWorth (popCalled_append_rest below)
      rw [stackWorth_append] at called
      rw [eq_of_popGroup grouped, stackWorth_append, stackWorth_append]
      simp only [stackWorth, worth, weight]
      omega
  | comma grouped =>
      rw [eq_of_popGroup grouped, stackWorth_append]
      exact (Int.add_zero _).symm
  | minus due =>
      rw [due]
      change 0 + (0 + stackWorth stack) = stackWorth stack + 0
      omega
  | plus due =>
      rw [due]
      exact Int.add_comm _ _
  | @operator op notDue =>
      have parts := congrArg stackWorth (popYielding_append_rest op stack)
      rw [stackWorth_append] at parts
      rw [notDue, ← parts]
      simp only [stackWorth, worth, Bool.false_eq_true, ↓reduceIte]
      omega

theorem stackWorth_postOrderFrom {stack out tokens : List Token} {previous : Option Token}
    (converted : postOrderFrom stack previous tokens = .ok out) :
    stackWorth out = stackWorth stack + totalWorth (operandDue previous) tokens := by
  induction tokens generalizing stack out previous with
  | nil =>
      rw [eq_of_flush converted, totalWorth, Int.add_zero]
  | cons token rest ih =>
      obtain ⟨first, next, following, shunted, further, rfl⟩ := shunt_of_postOrderFrom converted
      have step := stackWorth_shunt shunted
      have rest := ih further
      rw [stackWorth_append, rest, totalWorth]
      simp only [operandDue] at step ⊢
      omega

/-! ## Converted tokens are in order -/

/-- The token is an operator between operands, or no operator. -/
def isReadable : Token → Bool
  | .operator op => op.isBinary
  | _ => true

/-- Where an operand is due, an operator that is converted is a sign. -/
theorem sign_of_shunt {stack out next : List Token} {previous : Option Token} {op : Operator}
    (shunted : shunt stack previous (.operator op) = .ok (out, next))
    (due : operandDue previous = true) : op = .add ∨ op = .subtract := by
  cases shunts_of_shunt shunted with
  | minus _ => exact .inr rfl
  | plus _ => exact .inl rfl
  | operator notDue => exact absurd (due.symm.trans notDue) (by decide)

/-- Where no operand is due, an operator, a closing parenthesis or a comma comes next: anything else
would stand there for a product, is no token of an expression, or is a number after another one. -/
theorem follows_of_ended {before token : Token} (ended : before.awaitsOperand = false)
    (readable : isReadable token = true) (signed : juxtaposed before token = false)
    (apart : (isNumber before && isNumber token) = false) (known : ∀ text, token ≠ .unknown text)
    (before_known : ∀ text, before ≠ .unknown text) : Follows (some before) token := by
  rw [Follows, operandDue, ended, if_neg Bool.false_ne_true]
  have ends : before.endsOperand = true := by
    cases before with
    | unknown text => exact absurd rfl (before_known text)
    | number value => rfl
    | identifier name => rfl
    | closing => rfl
    | _ => cases ended
  rw [juxtaposed, ends, Bool.true_and] at signed
  cases token with
  | operator op => exact .inl ⟨op, rfl, readable⟩
  | closing => exact .inr (.inl rfl)
  | comma => exact .inr (.inr rfl)
  | unknown text => exact absurd rfl (known text)
  | number value =>
      cases before with
      | number other => cases apart
      | _ => cases signed
  | _ => cases signed

theorem known_of_shunt {stack : List Token} {previous : Option Token} {token : Token}
    {result : List Token × List Token} (shunted : shunt stack previous token = .ok result) :
    ∀ text, token ≠ .unknown text := by
  rintro text rfl
  cases shunted

/-- Tokens that are converted, with all signs of products and with their numbers apart, are in
order. -/
theorem orderly_of_postOrderFrom {stack out tokens : List Token} {previous : Option Token}
    (converted : postOrderFrom stack previous tokens = .ok out)
    (readable : ∀ token ∈ tokens, isReadable token = true) (signed : Signed previous tokens)
    (apart : numbersApart previous tokens = true)
    (known : ∀ text, previous ≠ some (.unknown text)) : Orderly previous tokens := by
  induction tokens generalizing stack out previous with
  | nil => exact trivial
  | cons token rest ih =>
      obtain ⟨_, next, following, shunted, further, _⟩ := shunt_of_postOrderFrom converted
      have token_known := known_of_shunt shunted
      rw [numbersApart, Bool.and_eq_true] at apart
      refine ⟨?_, ih further (fun other member => readable other (List.mem_cons_of_mem _ member))
        signed.2 apart.2 fun text is => token_known text (Option.some.inj is)⟩
      cases due : operandDue previous with
      | true =>
          rw [Follows, if_pos due]
          rintro op rfl
          exact sign_of_shunt shunted due
      | false =>
          cases previous with
          | none => cases due
          | some before =>
              exact follows_of_ended due (readable token List.mem_cons_self)
                (signed.1 before rfl) ((Bool.not_eq_true' _).mp apart.1) token_known
                fun text is => known text (congrArg some is)

/-! ## Reading gives binary operators only -/

theorem isReadable_of_ofChar? {c : Char} {token : Token} (is : ofChar? c = some token) :
    isReadable token = true := by
  unfold ofChar? at is
  split at is
  any_goals
    cases is
    rfl
  obtain ⟨op, known, rfl⟩ := Option.map_eq_some_iff.mp is
  unfold Operator.ofChar? at known
  split at known
  any_goals
    cases known
    rfl
  cases known

theorem isReadable_ofName (name : List Char) : isReadable (ofName name) = true := by
  unfold ofName
  dsimp only
  split <;> rfl

theorem isReadable_cons {token : Token} {tokens : List Token}
    {further : Except Cause (List Token)} (first : isReadable token = true)
    (ih : ∀ {others}, further = .ok others → ∀ token ∈ others, isReadable token = true)
    (scanned : further.map (token :: ·) = .ok tokens) :
    ∀ token ∈ tokens, isReadable token = true := by
  obtain ⟨rest, ended, rfl⟩ := map_eq_ok.mp scanned
  exact List.forall_mem_cons.mpr ⟨first, ih ended⟩

theorem isReadable_of_scan {lenient : Bool} {text : List Char} {tokens : List Token}
    (scanned : scan lenient text = .ok tokens) : ∀ token ∈ tokens, isReadable token = true := by
  fun_induction scan lenient text generalizing tokens with
  | case1 => cases scanned
  | case2 _ _ _ _ _ _ ih => exact isReadable_cons rfl ih scanned
  | case3 =>
      cases scanned
      intro token member
      exact absurd member List.not_mem_nil
  | case4 _ _ _ _ is ih => exact isReadable_cons (isReadable_of_ofChar? is) ih scanned
  | case5 _ _ _ _ _ ih => exact ih scanned
  | case6 _ _ _ _ _ _ _ ih => exact isReadable_cons (isReadable_ofName _) ih scanned
  | case7 _ _ _ _ _ _ _ ih => exact ih scanned
  | case8 => cases scanned

/-! ## Expressions among the tokens with a value -/

/-- What an evaluation with a value has gone through. -/
theorem stages_of_evaluate {text : List Char} {bindings : Bindings} {settings : Settings}
    {result : Float × List String}
    (evaluated : (Scalar.evaluate text bindings settings).outcome = .ok result) :
    ∃ tokens ordered value, Scalar.tokens text bindings settings.lenient = .ok tokens ∧
      Token.postOrder tokens = .ok ordered ∧
        Scalar.evaluatePostOrder settings.degrees ordered = .ok value := by
  rw [Scalar.outcome_evaluate, bind_eq_ok] at evaluated
  obtain ⟨tokens, read, evaluated⟩ := evaluated
  rw [bind_eq_ok] at evaluated
  obtain ⟨ordered, converted, evaluated⟩ := evaluated
  obtain ⟨value, ran, _⟩ := map_eq_ok.mp evaluated
  exact ⟨tokens, ordered, value, read, Scalar.orRefuse_eq_ok.mp converted, ran⟩

theorem signed_readable_of_tokens {text : List Char} {bindings : Bindings} {lenient : Bool}
    {tokens : List Token} (read : Scalar.tokens text bindings lenient = .ok tokens) :
    Signed none tokens ∧ ∀ token ∈ tokens, isReadable token = true := by
  obtain ⟨written, raw, _, scanned, _, rfl⟩ := Scalar.tokens_eq_ok.mp read
  refine ⟨signed_insertProducts raw, fun token member => ?_⟩
  rcases mem_insertProducts member with member | rfl
  · exact isReadable_of_scan scanned token member
  · rfl

/-- Tokens with a value are in order if their numbers are apart, and they are worth one. -/
theorem orderly_of_stages {text : List Char} {bindings : Bindings} {lenient degrees : Bool}
    {tokens ordered : List Token} {value : Float × List String}
    (read : Scalar.tokens text bindings lenient = .ok tokens)
    (converted : Token.postOrder tokens = .ok ordered)
    (ran : Scalar.evaluatePostOrder degrees ordered = .ok value)
    (apart : numbersApart none tokens = true) :
    Orderly none tokens ∧ totalWorth true tokens = 1 := by
  obtain ⟨signed, readable⟩ := signed_readable_of_tokens read
  obtain ⟨tree, wellFormed, rfl⟩ := exists_postOrder_of_evaluatePostOrder ran
  obtain ⟨valued, _⟩ := value_of_evaluatePostOrder wellFormed ran
  have one := stackWorth_postOrderFrom converted
  rw [stackWorth_postOrder wellFormed valued] at one
  exact ⟨orderly_of_postOrderFrom converted readable signed apart nofun,
    by simpa [stackWorth, operandDue] using one.symm⟩

/-- **Accepted expressions.** Of the texts with a value, exactly those are expressions of the
grammar that have no number right after another one, and no parentheses with more commas than the
call has room for. -/
theorem isExpression_iff_of_evaluate {text : List Char} {bindings : Bindings} {settings : Settings}
    {result : Float × List String}
    (evaluated : (Scalar.evaluate text bindings settings).outcome = .ok result) :
    ∃ tokens, Scalar.tokens text bindings settings.lenient = .ok tokens ∧
      (IsExpression tokens ↔
        numbersApart none tokens = true ∧ commasFit 0 [] none tokens = true) := by
  obtain ⟨tokens, ordered, value, read, converted, ran⟩ := stages_of_evaluate evaluated
  refine ⟨tokens, read, fun isExpression => ?_, fun ⟨apart, fit⟩ => ?_⟩
  · obtain ⟨last, fit⟩ := commasFit_of_isExpression isExpression 0 [] none []
    rw [List.append_nil] at fit
    exact ⟨numbersApart_of_isExpression isExpression rfl, fit⟩
  · obtain ⟨orderly, one⟩ := orderly_of_stages read converted ran apart
    exact isExpression_of_totalWorth orderly fit one

/-- The token of a digit that stands alone. -/
theorem scan_digit {lenient : Bool} {c : Char} {rest : List Char} (digit : c.isDigit = true)
    (ends : Text.AtBoundary rest) :
    scan lenient (c :: rest) = (scan lenient rest).map (.number (numberValue [c]) :: ·) := by
  have alone : IsNumeral [c] := isNumeral_digits digit rfl
  exact scan_numeral alone ends

/-- The sum of two digits is an expression: it has a value, its numbers are apart, and it has no
commas. -/
theorem isExpression_two_plus_three :
    (∃ result, (Scalar.evaluate ['2', ' ', '+', ' ', '3'] [] []).outcome = .ok result) ∧
      ∃ tokens, Scalar.tokens ['2', ' ', '+', ' ', '3'] [] false = .ok tokens ∧
        IsExpression tokens := by
  have scanned : scan false ['2', ' ', '+', ' ', '3'] =
      .ok [.number (numberValue ['2']), .operator .add, .number (numberValue ['3'])] := by
    rw [scan_digit rfl (Text.atBoundary_cons rfl), scan_blank rfl, scan_boundary rfl rfl,
      scan_blank rfl, scan_digit rfl Text.atBoundary_nil, scan_nil]
    rfl
  have read : Scalar.tokens ['2', ' ', '+', ' ', '3'] [] false = .ok _ :=
    Scalar.tokens_eq_ok.mpr ⟨_, _, rfl, scanned, List.cons_ne_nil _ _, rfl⟩
  have evaluated : ∃ result,
      (Scalar.evaluate ['2', ' ', '+', ' ', '3'] [] []).outcome = .ok result := by
    rw [Scalar.outcome_evaluate]
    exact ⟨_, bind_eq_ok.mpr ⟨_, read, rfl⟩⟩
  obtain ⟨result, ended⟩ := evaluated
  obtain ⟨tokens, same, isExpression⟩ := isExpression_iff_of_evaluate ended
  cases read.symm.trans same
  exact ⟨⟨result, ended⟩, _, read, isExpression.mpr ⟨rfl, rfl⟩⟩

/-- Two numbers in front of an operator have a value, and are no expression. -/
theorem not_isExpression_two_three_plus :
    ∃ result tokens, (Scalar.evaluate ['2', ' ', '3', ' ', '+'] [] []).outcome = .ok result ∧
      Scalar.tokens ['2', ' ', '3', ' ', '+'] [] false = .ok tokens ∧ ¬ IsExpression tokens := by
  have scanned : scan false ['2', ' ', '3', ' ', '+'] =
      .ok [.number (numberValue ['2']), .number (numberValue ['3']), .operator .add] := by
    rw [scan_digit rfl (Text.atBoundary_cons rfl), scan_blank rfl,
      scan_digit rfl (Text.atBoundary_cons rfl), scan_blank rfl, scan_boundary rfl rfl, scan_nil]
    rfl
  have read : Scalar.tokens ['2', ' ', '3', ' ', '+'] [] false = .ok _ :=
    Scalar.tokens_eq_ok.mpr ⟨_, _, rfl, scanned, List.cons_ne_nil _ _, rfl⟩
  have evaluated : ∃ result,
      (Scalar.evaluate ['2', ' ', '3', ' ', '+'] [] []).outcome = .ok result := by
    rw [Scalar.outcome_evaluate]
    exact ⟨_, bind_eq_ok.mpr ⟨_, read, rfl⟩⟩
  obtain ⟨result, ended⟩ := evaluated
  refine ⟨result, _, ended, read, fun isExpression => ?_⟩
  cases numbersApart_of_isExpression isExpression (Eq.refl (Option.any isNumber none))

end Reckoner.Grammar
