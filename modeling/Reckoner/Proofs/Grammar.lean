import Reckoner.Proofs.Expression
import Reckoner.Token.PostOrder

/-!
# The grammar of expressions

The tokens that are an arithmetic expression in the usual notation
(`Reckoner.Grammar.IsExpression`), and a count that finds them among other tokens. Every token is
worth the number of values that it adds when the post-order is run (`Reckoner.Grammar.totalWorth`).
Tokens in an orderly sequence, with no more commas than the calls have room for, are worth one value
for every argument at the most, and only the arguments of the grammar are worth that much
(`Reckoner.Grammar.isExpression_of_totalWorth`).
-/

namespace Reckoner.Grammar

open Token

mutual

/-- The tokens are operands with binary operators between them. -/
inductive IsExpression : List Token → Prop
  | operand {tokens : List Token} (isOperand : IsOperand tokens) : IsExpression tokens
  | operation {op : Operator} {left right : List Token} (binary : op.isBinary = true)
      (ofLeft : IsOperand left) (ofRight : IsExpression right) :
      IsExpression (left ++ operator op :: right)

/-- The tokens are a number, an expression between parentheses, a function with its arguments
between parentheses, or a function of one argument in front of an operand; with any signs in
front. -/
inductive IsOperand : List Token → Prop
  | number (value : Float) : IsOperand [number value]
  | enclosed {tokens : List Token} (inside : IsExpression tokens) :
      IsOperand (opening :: (tokens ++ [closing]))
  | plus {tokens : List Token} (signed : IsOperand tokens) :
      IsOperand (operator .add :: tokens)
  | minus {tokens : List Token} (signed : IsOperand tokens) :
      IsOperand (operator .subtract :: tokens)
  | application {name : String} {f : NamedFunction} {tokens : List Token}
      (known : NamedFunction.ofName? name = some f) (unary : f.arity = 1)
      (argument : IsOperand tokens) : IsOperand (function name :: tokens)
  | call {name : String} {f : NamedFunction} {tokens : List Token}
      (known : NamedFunction.ofName? name = some f) (arguments : IsArguments f.arity tokens) :
      IsOperand (function name :: opening :: (tokens ++ [closing]))

/-- The tokens are as many expressions with commas between them. -/
inductive IsArguments : Nat → List Token → Prop
  | last {tokens : List Token} (isExpression : IsExpression tokens) : IsArguments 1 tokens
  | more {count : Nat} {tokens others : List Token} (isExpression : IsExpression tokens)
      (ofOthers : IsArguments count others) :
      IsArguments (count + 1) (tokens ++ comma :: others)

end

/-! ## Room for commas -/

/-- The number of commas that fit between the parentheses after a token: one less than the
arguments of the function, and none without a function. -/
def room : Option Token → Nat
  | some (.function name) =>
      match NamedFunction.ofName? name with
      | some f => f.arity - 1
      | none => 0
  | _ => 0

/-- Parentheses match, and none hold more commas than the call has room for. The room left between
the innermost parentheses is `own`, and the rooms left around them are `outer`. -/
def commasFit (own : Nat) (outer : List Nat) (previous : Option Token) : List Token → Bool
  | [] => outer.isEmpty
  | opening :: rest => commasFit (room previous) (own :: outer) (some opening) rest
  | closing :: rest =>
      match outer with
      | [] => false
      | around :: outer => commasFit around outer (some closing) rest
  | comma :: rest =>
      match own with
      | 0 => false
      | own + 1 => commasFit own outer (some comma) rest
  | token :: rest => commasFit own outer (some token) rest

/-- The token is a parenthesis or a comma. -/
def isPunctuation : Token → Bool
  | opening | closing | comma => true
  | _ => false

/-- Parentheses match, the number of commas outside of them is `commas`, and none of them hold more
commas than the call has room for. -/
inductive Spacious : Option Token → Nat → List Token → Prop
  | nil {previous : Option Token} : Spacious previous 0 []
  | comma {previous : Option Token} {commas : Nat} {rest : List Token}
      (ofRest : Spacious (some comma) commas rest) :
      Spacious previous (commas + 1) (comma :: rest)
  | token {previous : Option Token} {commas : Nat} {token : Token} {rest : List Token}
      (plain : isPunctuation token = false) (ofRest : Spacious (some token) commas rest) :
      Spacious previous commas (token :: rest)
  | group {previous : Option Token} {within commas : Nat} {inside rest : List Token}
      (ofInside : Spacious (some opening) within inside) (fits : within ≤ room previous)
      (ofRest : Spacious (some closing) commas rest) :
      Spacious previous commas (opening :: (inside ++ closing :: rest))

/-- Tokens that close the parentheses around them, with as many commas as there is room for. -/
inductive Fills : Option Token → Nat → List Nat → List Token → Prop
  | last {previous : Option Token} {commas own : Nat} {tokens : List Token}
      (spacious : Spacious previous commas tokens) (fits : commas ≤ own) :
      Fills previous own [] tokens
  | close {previous : Option Token} {commas own around : Nat} {outer : List Nat}
      {tokens rest : List Token} (spacious : Spacious previous commas tokens)
      (fits : commas ≤ own) (ofRest : Fills (some closing) around outer rest) :
      Fills previous own (around :: outer) (tokens ++ closing :: rest)

namespace Fills

variable {previous : Option Token} {own : Nat} {outer : List Nat} {rest : List Token}

theorem token {token : Token} (plain : isPunctuation token = false)
    (fills : Fills (some token) own outer rest) : Fills previous own outer (token :: rest) := by
  cases fills with
  | last spacious fits => exact .last (.token plain spacious) fits
  | close spacious fits ofRest => exact .close (.token plain spacious) fits ofRest

theorem comma (fills : Fills (some comma) own outer rest) :
    Fills previous (own + 1) outer (.comma :: rest) := by
  cases fills with
  | last spacious fits => exact .last (.comma spacious) (Nat.succ_le_succ fits)
  | close spacious fits ofRest => exact .close (.comma spacious) (Nat.succ_le_succ fits) ofRest

/-- The first part between parentheses is a group in front of the second. -/
theorem group (fills : Fills (some opening) (room previous) (own :: outer) rest) :
    Fills previous own outer (opening :: rest) := by
  cases fills with
  | close inside room ofRest =>
      cases ofRest with
      | last spacious fits => exact .last (.group inside room spacious) fits
      | close spacious fits further =>
          have grouped := close (.group inside room spacious) fits further
          rwa [List.cons_append, List.append_assoc, List.cons_append] at grouped

end Fills

theorem fills_of_commasFit {own : Nat} {outer : List Nat} {previous : Option Token}
    {tokens : List Token} (fit : commasFit own outer previous tokens = true) :
    Fills previous own outer tokens := by
  induction tokens generalizing own outer previous with
  | nil =>
      cases outer with
      | nil => exact .last .nil (Nat.zero_le _)
      | cons around outer => cases fit
  | cons token rest ih =>
      cases token with
      | opening => exact .group (ih fit)
      | closing =>
          cases outer with
          | nil => cases fit
          | cons around outer => exact .close .nil (Nat.zero_le _) (ih fit)
      | comma =>
          cases own with
          | zero => cases fit
          | succ own => exact .comma (ih fit)
      | _ => exact .token rfl (ih fit)

/-- Tokens between no parentheses that fit have no commas outside of parentheses. -/
theorem spacious_of_commasFit {tokens : List Token} (fit : commasFit 0 [] none tokens = true) :
    Spacious none 0 tokens := by
  cases fills_of_commasFit fit with
  | last spacious fits =>
      cases Nat.le_zero.mp fits
      exact spacious

/-! ## What tokens are worth -/

/-- The number of values that a token adds when it is run. A function that is not known adds
less than any other token. -/
def weight : Token → Int
  | number _ => 1
  | operator op => if op.isBinary then -1 else 0
  | function name =>
      match NamedFunction.ofName? name with
      | some f => 1 - f.arity
      | none => -1
  | _ => 0

/-- The number of values that a token comes to add. An operator where an operand is due is a sign,
and adds none. -/
def worth (due : Bool) : Token → Int
  | operator op => if due then 0 else weight (operator op)
  | token => weight token

/-- The number of values that tokens come to add. -/
def totalWorth : Bool → List Token → Int
  | _, [] => 0
  | due, token :: rest => worth due token + totalWorth token.awaitsOperand rest

theorem totalWorth_append_closing (due : Bool) (inside rest : List Token) :
    totalWorth due (inside ++ closing :: rest) = totalWorth due inside + totalWorth false rest := by
  induction inside generalizing due with
  | nil =>
      simp only [List.nil_append, totalWorth, worth, weight, awaitsOperand, Int.zero_add]
  | cons token inside ih =>
      simp only [List.cons_append, totalWorth, ih, Int.add_assoc]

/-- The token may stand after the previous one: as a sign or as the start of an operand where an
operand is due, otherwise as a binary operator or as the end of an argument. -/
def Follows (previous : Option Token) (token : Token) : Prop :=
  if operandDue previous then ∀ op, token = operator op → op = .add ∨ op = .subtract
  else (∃ op, token = operator op ∧ op.isBinary = true) ∨ token = closing ∨ token = comma

/-- Every token may stand after the one before it. -/
def Orderly : Option Token → List Token → Prop
  | _, [] => True
  | previous, token :: rest => Follows previous token ∧ Orderly (some token) rest

theorem orderly_append_closing {previous : Option Token} {inside rest : List Token}
    (orderly : Orderly previous (inside ++ closing :: rest)) :
    Orderly previous inside ∧ Orderly (some closing) rest := by
  induction inside generalizing previous with
  | nil => exact ⟨trivial, orderly.2⟩
  | cons token inside ih =>
      obtain ⟨ofInside, ofRest⟩ := ih orderly.2
      exact ⟨⟨orderly.1, ofInside⟩, ofRest⟩

/-! ## The count finds the arguments of the grammar -/

/-- The tokens that wait for what comes after the previous token, and what they are worth: nothing
at the start of an operand, a function before its argument, or an operand that has ended. -/
inductive Lead : Option Token → Int → List Token → Prop
  | start {previous : Option Token} (due : operandDue previous = true)
      (uncalled : ∀ name, previous ≠ some (.function name)) : Lead previous 0 []
  | called (name : String) :
      Lead (some (.function name)) (weight (.function name)) [.function name]
  | operand {previous : Option Token} {tokens : List Token} (ended : operandDue previous = false)
      (isOperand : IsOperand tokens) : Lead previous 1 tokens

theorem arity_pos (f : NamedFunction) : 0 < f.arity := by
  cases f <;> decide

theorem weight_function_nonpos (name : String) : weight (.function name) ≤ 0 := by
  simp only [weight]
  split
  · rename_i f _
    have := arity_pos f
    omega
  · decide

/-- Arguments stay arguments when the first operand gets something in front of it. -/
theorem isArguments_prefix {count : Nat} {tokens front : List Token}
    (operands : ∀ {operand}, IsOperand operand → IsOperand (front ++ operand))
    (isArguments : IsArguments count tokens) : IsArguments count (front ++ tokens) := by
  have expressions : ∀ {tokens}, IsExpression tokens → IsExpression (front ++ tokens) := by
    intro tokens isExpression
    cases isExpression with
    | operand isOperand => exact .operand (operands isOperand)
    | operation binary ofLeft ofRight =>
        rw [← List.append_assoc]
        exact .operation binary (operands ofLeft) ofRight
  cases isArguments with
  | last isExpression => exact .last (expressions isExpression)
  | more isExpression ofOthers =>
      rw [← List.append_assoc]
      exact .more (expressions isExpression) ofOthers

theorem isArguments_operation {count : Nat} {op : Operator} {left tokens : List Token}
    (binary : op.isBinary = true) (ofLeft : IsOperand left)
    (isArguments : IsArguments count tokens) :
    IsArguments count (left ++ operator op :: tokens) := by
  cases isArguments with
  | last isExpression => exact .last (.operation binary ofLeft isExpression)
  | @more count tokens others isExpression ofOthers =>
      have first := IsArguments.more (.operation binary ofLeft isExpression) ofOthers
      rwa [List.append_assoc, List.cons_append] at first

namespace Lead

variable {previous : Option Token} {surplus : Int} {lead : List Token}

theorem le_one (leads : Lead previous surplus lead) : surplus ≤ 1 := by
  cases leads with
  | start => decide
  | called name =>
      have := weight_function_nonpos name
      omega
  | operand => exact Int.le_refl 1

theorem isOperand (leads : Lead previous surplus lead) (is : surplus = 1) : IsOperand lead := by
  cases leads with
  | start => cases is
  | called name =>
      have := weight_function_nonpos name
      omega
  | operand _ isOperand => exact isOperand

/-- An operand where one is due completes what waits for it, if that is worth anything. -/
theorem complete (leads : Lead previous surplus lead) (due : operandDue previous = true) :
    surplus ≤ 0 ∧
      (surplus = 0 → ∀ {operand}, IsOperand operand → IsOperand (lead ++ operand)) := by
  cases leads with
  | start => exact ⟨Int.le_refl 0, fun _ _ isOperand => isOperand⟩
  | called name =>
      refine ⟨weight_function_nonpos name, fun is operand isOperand => ?_⟩
      simp only [weight] at is
      split at is
      · rename_i f known
        exact .application known (by omega) isOperand
      · cases is
  | operand ended => rw [due] at ended; cases ended

/-- Arguments between parentheses where an operand is due complete what waits for them, if they are
as many as there is room for. -/
theorem enclose (leads : Lead previous surplus lead) (due : operandDue previous = true)
    {commas : Nat} (fits : commas ≤ room previous) :
    surplus + (1 + commas) ≤ 1 ∧
      (surplus + (1 + commas) = 1 → ∀ {inside}, IsArguments (commas + 1) inside →
        IsOperand (lead ++ opening :: (inside ++ [closing]))) := by
  cases leads with
  | start _ uncalled =>
      have none : commas = 0 := by
        unfold room at fits
        split at fits
        · exact absurd rfl (uncalled _)
        · exact Nat.le_zero.mp fits
      subst none
      refine ⟨by omega, fun _ inside isArguments => ?_⟩
      cases isArguments with
      | last isExpression => exact .enclosed isExpression
      | more _ ofOthers => cases ofOthers
  | called name =>
      simp only [room] at fits
      simp only [weight]
      split at fits
      · rename_i f known
        have := arity_pos f
        refine ⟨by omega, fun is inside isArguments => ?_⟩
        have count : commas + 1 = f.arity := by omega
        rw [count] at isArguments
        exact .call known isArguments
      · exact ⟨by omega, fun is => by omega⟩
  | operand ended => rw [due] at ended; cases ended

end Lead

/-- After what waits for them the tokens are worth one value for every argument at the most, and are
arguments of the grammar if they are worth that much. -/
def Counted (previous : Option Token) (commas : Nat) (tokens : List Token) : Prop :=
  ∀ surplus lead, Lead previous surplus lead →
    surplus + totalWorth (operandDue previous) tokens ≤ 1 + commas ∧
      (surplus + totalWorth (operandDue previous) tokens = 1 + commas →
        IsArguments (commas + 1) (lead ++ tokens))

/-- A token that starts an operand, or is none of an expression, comes where an operand is due. -/
theorem due_of_follows {previous : Option Token} {token : Token} (follows : Follows previous token)
    (starts : ∀ op, token ≠ operator op) (plain : token ≠ closing ∧ token ≠ comma) :
    operandDue previous = true := by
  cases due : operandDue previous with
  | true => rfl
  | false =>
      simp only [Follows, due, Bool.false_eq_true, ↓reduceIte] at follows
      rcases follows with ⟨op, is, _⟩ | is | is
      · exact absurd is (starts op)
      · exact absurd is plain.1
      · exact absurd is plain.2

namespace Counted

variable {previous : Option Token} {commas : Nat} {rest : List Token}

/-- What comes after an operand, for any count of the operand that is full for operands of the
grammar only. -/
theorem after {last : Token} (counted : Counted (some last) commas rest)
    (ends : last.awaitsOperand = false) {surplus : Int} {operand : List Token} (le : surplus ≤ 1)
    (isOperand : surplus = 1 → IsOperand operand) :
    surplus + totalWorth false rest ≤ 1 + commas ∧
      (surplus + totalWorth false rest = 1 + commas →
        IsArguments (commas + 1) (operand ++ rest)) := by
  have ended : operandDue (some last) = false := ends
  obtain ⟨bound, _⟩ := counted 1 _ (.operand ended (.number 0))
  rw [ended] at bound
  refine ⟨by omega, fun is => ?_⟩
  obtain ⟨_, full⟩ := counted 1 _ (.operand ended (isOperand (by omega)))
  rw [ended] at full
  exact full (by omega)

theorem nil : Counted previous 0 [] := by
  intro surplus lead leads
  rw [totalWorth, Int.add_zero, List.append_nil]
  exact ⟨leads.le_one, fun is => .last (.operand (leads.isOperand is))⟩

theorem comma (ofRest : Counted (some .comma) commas rest) :
    Counted previous (commas + 1) (.comma :: rest) := by
  intro surplus lead leads
  obtain ⟨bound, full⟩ := ofRest 0 [] (.start rfl nofun)
  have := leads.le_one
  simp only [totalWorth, worth, weight, awaitsOperand, operandDue] at bound full ⊢
  refine ⟨by omega, fun is => ?_⟩
  exact .more (.operand (leads.isOperand (by omega))) (full (by omega))

theorem number {value : Float} (due : operandDue previous = true)
    (ofRest : Counted (some (.number value)) commas rest) :
    Counted previous commas (.number value :: rest) := by
  intro surplus lead leads
  obtain ⟨small, complete⟩ := leads.complete due
  obtain ⟨bound, full⟩ := ofRest.after rfl (by omega : surplus + 1 ≤ 1)
    fun is => complete (by omega) (.number value)
  simp only [totalWorth, worth, weight, awaitsOperand]
  rw [List.append_assoc] at full
  exact ⟨by omega, fun is => full (by omega)⟩

/-- A token that ends an operand and is worth nothing is missed in the end. -/
theorem worthless {token : Token} (due : operandDue previous = true)
    (ends : token.awaitsOperand = false) (worthless : ∀ due, worth due token = 0)
    (ofRest : Counted (some token) commas rest) : Counted previous commas (token :: rest) := by
  intro surplus lead leads
  obtain ⟨small, _⟩ := leads.complete due
  obtain ⟨bound, _⟩ := ofRest 1 _ (.operand ends (.number 0))
  simp only [operandDue, ends] at bound
  simp only [totalWorth, worthless, ends]
  exact ⟨by omega, fun is => by omega⟩

theorem sign {op : Operator} (due : operandDue previous = true)
    (isSign : op = .add ∨ op = .subtract)
    (ofRest : Counted (some (operator op)) commas rest) :
    Counted previous commas (operator op :: rest) := by
  intro surplus lead leads
  obtain ⟨small, complete⟩ := leads.complete due
  obtain ⟨bound, full⟩ := ofRest 0 [] (.start rfl nofun)
  rw [totalWorth, due]
  simp only [worth, ↓reduceIte, awaitsOperand, operandDue] at bound full ⊢
  refine ⟨by omega, fun is => ?_⟩
  have signed : ∀ {operand}, IsOperand operand → IsOperand (lead ++ [operator op] ++ operand) := by
    intro operand isOperand
    rw [List.append_assoc]
    rcases isSign with rfl | rfl
    · exact complete (by omega) (.plus isOperand)
    · exact complete (by omega) (.minus isOperand)
  have isArguments := isArguments_prefix signed (full (by omega))
  rwa [List.append_assoc] at isArguments

theorem operation {op : Operator} (ended : operandDue previous = false)
    (binary : op.isBinary = true) (ofRest : Counted (some (operator op)) commas rest) :
    Counted previous commas (operator op :: rest) := by
  intro surplus lead leads
  have := leads.le_one
  obtain ⟨bound, full⟩ := ofRest 0 [] (.start rfl nofun)
  rw [totalWorth, ended]
  simp only [worth, weight, binary, Bool.false_eq_true, ↓reduceIte, awaitsOperand, operandDue]
    at bound full ⊢
  refine ⟨by omega, fun is => ?_⟩
  exact isArguments_operation binary (leads.isOperand (by omega)) (full (by omega))

theorem function {name : String} (due : operandDue previous = true)
    (ofRest : Counted (some (.function name)) commas rest) :
    Counted previous commas (.function name :: rest) := by
  intro surplus lead leads
  obtain ⟨small, complete⟩ := leads.complete due
  obtain ⟨bound, full⟩ := ofRest _ _ (.called name)
  simp only [totalWorth, worth, awaitsOperand, operandDue] at bound full ⊢
  refine ⟨by omega, fun is => ?_⟩
  exact isArguments_prefix (complete (by omega)) (full (by omega))

theorem group {within : Nat} {inside : List Token} (due : operandDue previous = true)
    (ofInside : Counted (some opening) within inside) (fits : within ≤ room previous)
    (ofRest : Counted (some closing) commas rest) :
    Counted previous commas (opening :: (inside ++ closing :: rest)) := by
  intro surplus lead leads
  obtain ⟨small, enclose⟩ := leads.enclose due fits
  obtain ⟨bound, full⟩ := ofInside 0 [] (.start rfl nofun)
  simp only [operandDue, awaitsOperand, Int.zero_add] at bound full
  obtain ⟨total, complete⟩ := ofRest.after rfl (by omega : surplus + totalWorth true inside ≤ 1)
    fun is => enclose (by omega) (full (by omega))
  simp only [totalWorth, worth, weight, awaitsOperand, totalWorth_append_closing]
  rw [List.append_assoc, List.cons_append, List.append_assoc] at complete
  exact ⟨by omega, fun is => complete (by omega)⟩

end Counted

theorem counted_of_spacious {previous : Option Token} {commas : Nat} {tokens : List Token}
    (spacious : Spacious previous commas tokens) (orderly : Orderly previous tokens) :
    Counted previous commas tokens := by
  induction spacious with
  | nil => exact .nil
  | comma _ ih => exact .comma (ih orderly.2)
  | @group previous _ _ _ _ _ fits _ ofInside ofRest =>
      obtain ⟨inside, rest⟩ := orderly_append_closing orderly.2
      exact .group (due_of_follows orderly.1 nofun ⟨nofun, nofun⟩) (ofInside inside) fits
        (ofRest rest)
  | @token previous _ token _ plain _ ih =>
      obtain ⟨follows, orderly⟩ := orderly
      cases token with
      | number value => exact .number (due_of_follows follows nofun ⟨nofun, nofun⟩) (ih orderly)
      | function name => exact .function (due_of_follows follows nofun ⟨nofun, nofun⟩) (ih orderly)
      | identifier name =>
          exact .worthless (due_of_follows follows nofun ⟨nofun, nofun⟩) rfl (fun _ => rfl)
            (ih orderly)
      | unknown text =>
          exact .worthless (due_of_follows follows nofun ⟨nofun, nofun⟩) rfl (fun _ => rfl)
            (ih orderly)
      | operator op =>
          cases due : operandDue previous with
          | true =>
              simp only [Follows, due, ↓reduceIte] at follows
              exact .sign due (follows op rfl) (ih orderly)
          | false =>
              simp only [Follows, due, Bool.false_eq_true, ↓reduceIte] at follows
              rcases follows with ⟨other, is, binary⟩ | is | is
              · cases is
                exact .operation due binary (ih orderly)
              · cases is
              · cases is
      | _ => cases plain

/-- Orderly tokens that are worth one value, with commas where there is room for them, are an
expression. -/
theorem isExpression_of_totalWorth {tokens : List Token} (orderly : Orderly none tokens)
    (fit : commasFit 0 [] none tokens = true) (one : totalWorth true tokens = 1) :
    IsExpression tokens := by
  have counted := counted_of_spacious (spacious_of_commasFit fit) orderly
  obtain ⟨_, full⟩ := counted 0 [] (.start rfl nofun)
  have isArguments := full (by rw [operandDue, one]; rfl)
  cases isArguments with
  | last isExpression => exact isExpression
  | more _ ofOthers => cases ofOthers

/-! ## Expressions have their commas where there is room -/

mutual

theorem commasFit_of_isExpression {tokens : List Token} (isExpression : IsExpression tokens)
    (own : Nat) (outer : List Nat) (previous : Option Token) (rest : List Token) :
    ∃ last, commasFit own outer previous (tokens ++ rest) =
      commasFit own outer (some last) rest := by
  match isExpression with
  | .operand isOperand => exact commasFit_of_isOperand isOperand own outer previous rest
  | @IsExpression.operation op _ right _ ofLeft ofRight =>
      obtain ⟨_, left⟩ :=
        commasFit_of_isOperand ofLeft own outer previous (operator op :: (right ++ rest))
      obtain ⟨last, right⟩ :=
        commasFit_of_isExpression ofRight own outer (some (operator op)) rest
      refine ⟨last, ?_⟩
      rw [List.append_assoc, List.cons_append, left, commasFit, right] <;> nofun

theorem commasFit_of_isOperand {tokens : List Token} (isOperand : IsOperand tokens)
    (own : Nat) (outer : List Nat) (previous : Option Token) (rest : List Token) :
    ∃ last, commasFit own outer previous (tokens ++ rest) =
      commasFit own outer (some last) rest := by
  match isOperand with
  | .number value => exact ⟨.number value, rfl⟩
  | .enclosed inside =>
      obtain ⟨last, within⟩ := commasFit_of_isExpression inside (room previous) (own :: outer)
        (some opening) (closing :: rest)
      refine ⟨closing, ?_⟩
      rw [List.cons_append, List.append_assoc, commasFit]
      exact within
  | .plus signed => exact commasFit_of_isOperand signed own outer _ rest
  | .minus signed => exact commasFit_of_isOperand signed own outer _ rest
  | .application _ _ argument => exact commasFit_of_isOperand argument own outer _ rest
  | @IsOperand.call name f _ known arguments =>
      obtain ⟨commas, count, fit⟩ := commasFit_of_isArguments arguments
      obtain ⟨last, within⟩ := fit 0 (own :: outer) (some opening) (closing :: rest)
      refine ⟨closing, ?_⟩
      have fits : room (some (.function name)) = 0 + commas := by
        simp only [room, known]
        omega
      rw [List.cons_append, List.cons_append, List.append_assoc, commasFit, commasFit, fits]
      · exact within
      all_goals nofun

theorem commasFit_of_isArguments {count : Nat} {tokens : List Token}
    (isArguments : IsArguments count tokens) :
    ∃ commas, count = commas + 1 ∧ ∀ own outer previous rest,
      ∃ last, commasFit (own + commas) outer previous (tokens ++ rest) =
        commasFit own outer (some last) rest := by
  match isArguments with
  | .last isExpression =>
      exact ⟨0, rfl, fun own outer previous rest =>
        commasFit_of_isExpression isExpression own outer previous rest⟩
  | @IsArguments.more _ _ others isExpression ofOthers =>
      obtain ⟨commas, count, fit⟩ := commasFit_of_isArguments ofOthers
      refine ⟨commas + 1, congrArg (· + 1) count, fun own outer previous rest => ?_⟩
      obtain ⟨_, first⟩ :=
        commasFit_of_isExpression isExpression (own + (commas + 1)) outer previous
        (.comma :: (others ++ rest))
      obtain ⟨last, following⟩ := fit own outer (some .comma) rest
      refine ⟨last, ?_⟩
      rw [List.append_assoc, List.cons_append, first]
      exact following

end

/-! ## Numbers are apart in expressions -/

/-- The token is a number. -/
def isNumber : Token → Bool
  | .number _ => true
  | _ => false

/-- No number stands right after another one. -/
def numbersApart (previous : Option Token) : List Token → Bool
  | [] => true
  | token :: rest => !(previous.any isNumber && isNumber token) && numbersApart (some token) rest

/-- After a token that is no number, what comes before it does not matter. -/
theorem numbersApart_cons {previous : Option Token} {token : Token} (rest : List Token)
    (other : isNumber token = false) :
    numbersApart previous (token :: rest) = numbersApart (some token) rest := by
  rw [numbersApart, other, Bool.and_false, Bool.not_false, Bool.true_and]

theorem numbersApart_append {previous : Option Token} {token : Token} {first rest : List Token}
    (other : isNumber token = false) (ofFirst : numbersApart previous first = true)
    (ofRest : numbersApart (some token) rest = true) :
    numbersApart previous (first ++ token :: rest) = true := by
  induction first generalizing previous with
  | nil => rwa [List.nil_append, numbersApart_cons rest other]
  | cons head first ih =>
      rw [List.cons_append]
      rw [numbersApart, Bool.and_eq_true] at ofFirst ⊢
      exact ⟨ofFirst.1, ih ofFirst.2⟩

mutual

theorem numbersApart_of_isExpression {tokens : List Token} (isExpression : IsExpression tokens)
    {previous : Option Token} (apart : previous.any isNumber = false) :
    numbersApart previous tokens = true := by
  match isExpression with
  | .operand isOperand => exact numbersApart_of_isOperand isOperand apart
  | .operation _ ofLeft ofRight =>
      exact numbersApart_append rfl (numbersApart_of_isOperand ofLeft apart)
        (numbersApart_of_isExpression ofRight rfl)

theorem numbersApart_of_isOperand {tokens : List Token} (isOperand : IsOperand tokens)
    {previous : Option Token} (apart : previous.any isNumber = false) :
    numbersApart previous tokens = true := by
  match isOperand with
  | .number value => rw [numbersApart, apart]; rfl
  | .enclosed inside =>
      rw [numbersApart_cons _ rfl]
      exact numbersApart_append rfl (numbersApart_of_isExpression inside rfl) rfl
  | .plus signed =>
      rw [numbersApart_cons _ rfl]
      exact numbersApart_of_isOperand signed rfl
  | .minus signed =>
      rw [numbersApart_cons _ rfl]
      exact numbersApart_of_isOperand signed rfl
  | .application _ _ argument =>
      rw [numbersApart_cons _ rfl]
      exact numbersApart_of_isOperand argument rfl
  | .call _ arguments =>
      rw [numbersApart_cons _ rfl, numbersApart_cons _ rfl]
      exact numbersApart_append rfl (numbersApart_of_isArguments arguments rfl) rfl

theorem numbersApart_of_isArguments {count : Nat} {tokens : List Token}
    (isArguments : IsArguments count tokens) {previous : Option Token}
    (apart : previous.any isNumber = false) : numbersApart previous tokens = true := by
  match isArguments with
  | .last isExpression => exact numbersApart_of_isExpression isExpression apart
  | .more isExpression ofOthers =>
      exact numbersApart_append rfl (numbersApart_of_isExpression isExpression apart)
        (numbersApart_of_isArguments ofOthers rfl)

end

end Reckoner.Grammar
