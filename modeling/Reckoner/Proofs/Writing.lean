import Reckoner.Proofs.Conversion
import Reckoner.Proofs.Expression
import Reckoner.Proofs.Prefix

/-!
# Writing expressions with operators between their operands

A tree can be written as tokens in many ways: with parentheses wherever the tightness of the
operators asks for them, with more of them, and with a plus in front of any operand
(`Reckoner.Expression.Written`). All writings of a tree are brought into the same post-order, that
of the tree (`Reckoner.Expression.postOrder_of_written`).

The invariant of the conversion ties the stack to the open places of the tree: what the tokens of
a subtree leave on the stack is the end of its post-order, and gives way to whatever comes next
(`Reckoner.Expression.Converts`).
-/

namespace Reckoner.Expression

open Token

/-- The level of what holds together by itself: numbers, names, calls, and everything between
parentheses. It is above the level of every operator. -/
def atomic : Nat := 9

mutual

/-- The tokens are a writing of the tree in front of the token `next`. The level says how tightly
the writing holds together: as its outermost operator, or as an atom. Functions that are `bare` may
be applied to an atom without parentheses.

A left operand is at least as tight as its operator, a right operand is tighter, and the operand of
a sign is at least as tight as the sign. Only a sign may be the right operand of a tighter operator,
as long as none of the operators tighter than a sign comes next. -/
inductive Written (bare : String → Prop) : Option Token → Nat → Expression → List Token → Prop
  | number {next : Option Token} (value : Float) :
      Written bare next atomic (.number value) [.number value]
  | name {next : Option Token} (symbol : String) :
      Written bare next atomic (.name symbol) [.identifier symbol]
  | enclosed {next : Option Token} {level : Nat} {tree : Expression} {tokens : List Token}
      (inside : Written bare (some closing) level tree tokens) :
      Written bare next atomic tree (opening :: (tokens ++ [closing]))
  | plus {next : Option Token} {level : Nat} {tree : Expression} {tokens : List Token}
      (signed : Written bare next level tree tokens) :
      Written bare next level tree (operator .add :: tokens)
  | negation {next : Option Token} {level : Nat} {operand : Expression} {tokens : List Token}
      (ofOperand : Written bare next level operand tokens)
      (tight : Operator.negate.halves ≤ level) :
      Written bare next Operator.negate.halves (.negation operand) (operator .subtract :: tokens)
  | operation {next : Option Token} {op : Operator} {leftLevel rightLevel : Nat}
      {left right : Expression} {leftTokens rightTokens : List Token}
      (binary : op.isBinary = true)
      (ofLeft : Written bare (some (operator op)) leftLevel left leftTokens)
      (ofRight : Written bare next rightLevel right rightTokens)
      (leftTight : op.halves ≤ leftLevel)
      (rightTight : op.halves < rightLevel ∨ rightLevel = Operator.negate.halves ∧
        next ≠ some (operator .power) ∧ next ≠ some (operator .cross)) :
      Written bare next op.halves (.operation op left right)
        (leftTokens ++ operator op :: rightTokens)
  | call {next : Option Token} {function : String} {arguments : List Expression}
      {tokens : List Token} (ofArguments : WrittenArguments bare arguments tokens) :
      Written bare next atomic (.call function arguments)
        (.function function :: opening :: (tokens ++ [closing]))
  | application {next : Option Token} {function : String} {argument : Expression}
      {tokens : List Token} (allowed : bare function)
      (ofArgument : Written bare next atomic argument tokens) :
      Written bare next atomic (.call function [argument]) (.function function :: tokens)

/-- The tokens are writings of the trees with commas between them. -/
inductive WrittenArguments (bare : String → Prop) : List Expression → List Token → Prop
  | last {level : Nat} {tree : Expression} {tokens : List Token}
      (written : Written bare (some closing) level tree tokens) :
      WrittenArguments bare [tree] tokens
  | more {level : Nat} {tree : Expression} {trees : List Expression}
      {tokens others : List Token} (written : Written bare (some comma) level tree tokens)
      (ofOthers : WrittenArguments bare trees others) :
      WrittenArguments bare (tree :: trees) (tokens ++ comma :: others)

end

/-! ## Steps of the conversion -/

theorem isOperation_popCalled {stack : List Token} {token : Token}
    (member : token ∈ (popCalled stack).1) : token.isOperation = true := by
  unfold popCalled at member
  split at member
  · rw [List.mem_singleton.mp member]
    rfl
  · exact absurd member List.not_mem_nil

theorem yieldsTo_popCalled {stack : List Token} {token : Token} (halves : Nat)
    (member : token ∈ (popCalled stack).1) : yieldsTo halves token = true := by
  unfold popCalled at member
  split at member
  · rw [List.mem_singleton.mp member]
    rfl
  · exact absurd member List.not_mem_nil

/-- Operators and functions above a parenthesis are what the parenthesis groups. -/
theorem popGroup_append {pending : List Token}
    (operations : ∀ token ∈ pending, token.isOperation = true) (stack : List Token) :
    popGroup (pending ++ opening :: stack) = (pending, opening :: stack) := by
  induction pending with
  | nil => rfl
  | cons token pending ih =>
      have ofRest := ih fun other member => operations other (List.mem_cons_of_mem _ member)
      have ofToken := operations token List.mem_cons_self
      cases token with
      | operator op => simp only [List.cons_append, popGroup, ofRest]
      | function name => simp only [List.cons_append, popGroup, ofRest]
      | _ => cases ofToken

/-- Operators and functions that are left at the end go out. -/
theorem flush_operations {pending : List Token}
    (operations : ∀ token ∈ pending, token.isOperation = true) : flush pending = .ok pending := by
  induction pending with
  | nil => rfl
  | cons token pending ih =>
      have ofRest := ih fun other member => operations other (List.mem_cons_of_mem _ member)
      have ofToken := operations token List.mem_cons_self
      cases token with
      | operator op => simp only [flush, ofRest, Except.map]
      | function name => simp only [flush, ofRest, Except.map]
      | _ => cases ofToken

/-- What yields to an operator also yields to a looser one. -/
theorem yieldsTo_mono {loose tight : Nat} (le : loose ≤ tight) {token : Token}
    (yields : yieldsTo tight token = true) : yieldsTo loose token = true := by
  cases token with
  | operator op =>
      simp only [yieldsTo, decide_eq_true_eq] at yields ⊢
      omega
  | function name => rfl
  | _ => cases yields

/-! ## The invariant -/

/-- The stack is ready for a writing of a level: nothing on top of it gives way to the operators of
the writing. An atom has no operator, and a sign goes onto the stack whatever is there. -/
def Ready (level : Nat) (stack : List Token) : Prop :=
  level = atomic ∨ level = Operator.negate.halves ∧ popCalled stack = ([], stack) ∨
    ∀ token ∈ stack.head?, yieldsTo level token = false

/-- The operators on the stack after a writing: they give way to the token `next`. -/
def Pending (next : Option Token) (pending : List Token) : Prop :=
  ∀ token ∈ pending, token.isOperation = true ∧
    ∀ op, next = some (operator op) → yieldsTo op.halves token = true

/-- The conversion of some tokens. Of `ordered` a part goes out and the rest is pending on top of
the stack `below` when the next token comes; the last token ends an operand. -/
def Converts (next previous : Option Token) (stack below tokens ordered : List Token) : Prop :=
  ∃ out pending last, out ++ pending = ordered ∧ Pending next pending ∧
    last.awaitsOperand = false ∧
      ∀ rest, postOrderFrom stack previous (tokens ++ rest) =
        (postOrderFrom (pending ++ below) (some last) rest).map (out ++ ·)

namespace Converts

variable {next previous : Option Token} {stack below tokens ordered : List Token}

/-- A token that goes on with the stack it leaves. -/
theorem step {token : Token} {out after : List Token}
    (shunted : shunt stack previous token = .ok (out, after))
    (further : Converts next (some token) after below tokens ordered) :
    Converts next previous stack below (token :: tokens) (out ++ ordered) := by
  obtain ⟨others, pending, last, rfl, gives, ended, converted⟩ := further
  refine ⟨out ++ others, pending, last, List.append_assoc .., gives, ended, fun rest => ?_⟩
  rw [List.cons_append, postOrderFrom_of_shunt shunted, converted]
  cases postOrderFrom (pending ++ below) (some last) rest with
  | error cause => rfl
  | ok following => exact congrArg Except.ok (List.append_assoc ..).symm

/-- A token that only goes onto the stack, or is dropped. -/
theorem push {token : Token} {after : List Token}
    (shunted : shunt stack previous token = .ok ([], after))
    (further : Converts next (some token) after below tokens ordered) :
    Converts next previous stack below (token :: tokens) ordered :=
  step shunted further

/-- A token that goes out where it stands. -/
theorem leaf {token : Token} (shunted : shunt stack previous token = .ok ([token], stack))
    (ends : token.awaitsOperand = false) :
    Converts next previous stack stack [token] [token] := by
  refine ⟨[token], [], token, rfl, fun other member => absurd member List.not_mem_nil, ends,
    fun rest => ?_⟩
  exact postOrderFrom_of_shunt shunted rest

/-- Further tokens that go on with whatever is pending. -/
theorem follow {following : Option Token} {others under after : List Token}
    (converts : Converts next previous stack below tokens ordered)
    (further : ∀ pending last, Pending next pending → last.awaitsOperand = false →
      Converts following (some last) (pending ++ below) under others (pending ++ after)) :
    Converts following previous stack under (tokens ++ others) (ordered ++ after) := by
  obtain ⟨out, pending, last, rfl, gives, ended, converted⟩ := converts
  obtain ⟨out', pending', last', same, gives', ended', converted'⟩ :=
    further pending last gives ended
  refine ⟨out ++ out', pending', last', ?_, gives', ended', fun rest => ?_⟩
  · rw [List.append_assoc, same, List.append_assoc]
  · rw [List.append_assoc, converted, converted']
    cases postOrderFrom (pending' ++ under) (some last') rest with
    | error cause => rfl
    | ok following => exact congrArg Except.ok (List.append_assoc ..).symm

/-- What is right below the tokens and gives way to the next token is pending too. -/
theorem absorb {more : List Token} (gives : Pending next more)
    (converts : Converts next previous stack (more ++ below) tokens ordered) :
    Converts next previous stack below tokens (ordered ++ more) := by
  obtain ⟨out, pending, last, rfl, givesOwn, ended, converted⟩ := converts
  refine ⟨out, pending ++ more, last, (List.append_assoc ..).symm, ?_, ended, fun rest => ?_⟩
  · intro token member
    rcases List.mem_append.mp member with member | member
    · exact givesOwn token member
    · exact gives token member
  · rw [List.append_assoc]
    exact converted rest

/-- A function right below an operand is pending too. -/
theorem release (converts : Converts next previous stack below tokens ordered) :
    Converts next previous stack (popCalled below).2 tokens (ordered ++ (popCalled below).1) := by
  rw [← popCalled_append_rest below] at converts
  exact absorb (fun token member => ⟨isOperation_popCalled member,
    fun op _ => yieldsTo_popCalled op.halves member⟩) converts

/-- No function is below the tokens. -/
theorem whole (popped : popCalled below = ([], below))
    (converts : Converts next previous stack (popCalled below).2 tokens
      (ordered ++ (popCalled below).1)) :
    Converts next previous stack below tokens ordered := by
  rwa [popped, List.append_nil] at converts

/-- At the end of all tokens, what is pending goes out. -/
theorem postOrder (converts : Converts none none [] [] tokens ordered) :
    Token.postOrder tokens = .ok ordered := by
  obtain ⟨out, pending, last, same, gives, _, converted⟩ := converts
  have converted := converted []
  rw [List.append_nil, List.append_nil, postOrderFrom,
    flush_operations fun token member => (gives token member).1] at converted
  rw [Token.postOrder, converted, Except.map, same]

/-- A closing parenthesis sends out what is pending above the opening one, and the function whose
arguments it ends. -/
theorem close {pending : List Token} {last : Token} {met : Option Token}
    (gives : Pending met pending) :
    Converts next (some last) (pending ++ opening :: stack) (popCalled stack).2 [closing]
      (pending ++ (popCalled stack).1) := by
  have shunted : shunt (pending ++ opening :: stack) (some last) closing =
      .ok (pending ++ (popCalled stack).1, (popCalled stack).2) := by
    simp only [shunt, popGroup_append fun token member => (gives token member).1]
  refine ⟨pending ++ (popCalled stack).1, [], closing, List.append_nil _,
    fun other member => absurd member List.not_mem_nil, rfl, fun rest => ?_⟩
  exact postOrderFrom_of_shunt shunted rest

end Converts

theorem popCalled_of_ready {level : Nat} {stack : List Token} (ready : Ready level stack)
    (loose : level ≠ atomic) : popCalled stack = ([], stack) := by
  rcases ready with same | ⟨_, popped⟩ | none
  · exact absurd same loose
  · exact popped
  · cases stack with
    | nil => rfl
    | cons token stack =>
        cases token with
        | function name => exact absurd (none _ rfl) Bool.noConfusion
        | _ => rfl

/-- Nothing of a stack that is ready for an operator goes out before it, only what is pending above
that stack. -/
theorem popYielding_append {op : Operator} {pending stack : List Token}
    (gives : Pending (some (operator op)) pending)
    (stays : ∀ token ∈ stack.head?, yieldsTo op.halves token = false) :
    popYielding op (pending ++ stack) = (pending, stack) := by
  have all : ∀ token ∈ pending, yieldsTo op.halves token = true := by
    intro token member
    exact (gives token member).2 op rfl
  unfold popYielding
  rw [takeWhile_append_of_ends all stays, dropWhile_append_of_ends all stays]

theorem halves_lt_atomic (op : Operator) : op.halves < atomic := by
  cases op with
  | unknown symbol => exact Nat.zero_lt_succ _
  | _ => decide

/-- A binary operator never binds as a sign does. -/
theorem stays_of_ready {op : Operator} {stack : List Token} (ready : Ready op.halves stack)
    (binary : op.isBinary = true) : ∀ token ∈ stack.head?, yieldsTo op.halves token = false := by
  rcases ready with same | ⟨same, _⟩ | stays
  · exact absurd same (Nat.ne_of_lt (halves_lt_atomic op))
  · cases op with
    | negate => cases binary
    | _ => cases same
  · exact stays

theorem shunt_binary {op : Operator} {stack : List Token} {last : Token}
    (ended : last.awaitsOperand = false) :
    shunt stack (some last) (operator op) =
      .ok ((popYielding op stack).1, operator op :: (popYielding op stack).2) := by
  simp only [shunt, operandDue, ended, Bool.false_eq_true, ↓reduceIte]

theorem halves_le_of_ne {op : Operator} (power : op ≠ .power) (cross : op ≠ .cross) :
    op.halves ≤ Operator.negate.halves := by
  cases op with
  | power => exact absurd rfl power
  | cross => exact absurd rfl cross
  | unknown symbol => exact Nat.zero_le _
  | _ => decide

theorem ready_opening (level : Nat) (stack : List Token) : Ready level (opening :: stack) := by
  refine .inr (.inr fun token member => ?_)
  cases member
  rfl

theorem ready_operator {op : Operator} {level : Nat} (stack : List Token)
    (tighter : op.halves < level ∨ level = Operator.negate.halves) :
    Ready level (operator op :: stack) := by
  rcases tighter with lt | same
  · refine .inr (.inr fun token member => ?_)
    cases member
    exact decide_eq_false (Nat.not_le_of_lt lt)
  · exact .inr (.inl ⟨same, rfl⟩)

theorem ready_of_le {op : Operator} {level : Nat} {stack : List Token} (le : op.halves ≤ level)
    (stays : ∀ token ∈ stack.head?, yieldsTo op.halves token = false) : Ready level stack := by
  refine .inr (.inr fun token member => ?_)
  have stays := stays token member
  cases yields : yieldsTo level token with
  | false => rfl
  | true => rw [yieldsTo_mono le yields] at stays; cases stays

/-- An operator is pending where no tighter one comes next. -/
theorem pending_operator {next : Option Token} {op : Operator}
    (fits : ∀ other, next = some (operator other) → other.halves ≤ op.halves) :
    Pending next [operator op] := by
  intro token member
  rw [List.mem_singleton.mp member]
  exact ⟨rfl, fun other is => decide_eq_true (fits other is)⟩

/-- What comes next binds no tighter than a right operand, also where this is a sign. -/
theorem fits_right {next : Option Token} {op : Operator} {level : Nat}
    (fits : ∀ other, next = some (operator other) → other.halves ≤ op.halves)
    (tight : op.halves < level ∨ level = Operator.negate.halves ∧
      next ≠ some (operator .power) ∧ next ≠ some (operator .cross)) :
    ∀ other, next = some (operator other) → other.halves ≤ level := by
  intro other is
  rcases tight with tight | ⟨same, power, cross⟩
  · exact Nat.le_trans (fits other is) (Nat.le_of_lt tight)
  · rw [same]
    exact halves_le_of_ne (fun which => power (which ▸ is)) (fun which => cross (which ▸ is))

variable {bare : String → Prop}

mutual

/-- A writing of a tree is converted into the post-order of the tree, and the function that is
applied to it follows. -/
theorem converts_of_written {next : Option Token} {level : Nat} {tree : Expression}
    {tokens : List Token} (written : Written bare next level tree tokens)
    (previous : Option Token) (stack : List Token) (due : operandDue previous = true)
    (fits : ∀ op, next = some (operator op) → op.halves ≤ level) (ready : Ready level stack) :
    Converts next previous stack (popCalled stack).2 tokens
      (tree.postOrder ++ (popCalled stack).1) := by
  match written with
  | .number value => exact (Converts.leaf rfl rfl).release
  | .name symbol => exact (Converts.leaf rfl rfl).release
  | .enclosed inside =>
      have within := converts_of_written inside (some opening) (opening :: stack) rfl
        (fun op is => nomatch is) (ready_opening _ stack)
      exact .push rfl ((within.whole rfl).follow fun pending last gives _ => .close gives)
  | .plus signed =>
      have shunted : shunt stack previous (operator .add) = .ok ([], stack) := by
        simp only [shunt, due, ↓reduceIte]
      exact .push shunted (converts_of_written signed _ stack rfl fits ready)
  | .negation ofOperand tight =>
      have shunted : shunt stack previous (operator .subtract) =
          .ok ([], operator .negate :: stack) := by
        simp only [shunt, due, ↓reduceIte]
      have above := converts_of_written ofOperand (some (operator .subtract))
        (operator .negate :: stack) rfl (fun op is => Nat.le_trans (fits op is) tight)
        (ready_operator stack ((Nat.lt_or_eq_of_le tight).imp_right Eq.symm))
      rw [popCalled_of_ready ready (Nat.ne_of_lt (halves_lt_atomic .negate)), List.append_nil]
      exact .push shunted ((above.whole rfl).absorb (pending_operator fits))
  | @Written.operation _ _ op _ _ _ _ _ _ binary ofLeft ofRight leftTight rightTight =>
      have popped := popCalled_of_ready ready (Nat.ne_of_lt (halves_lt_atomic op))
      have stays := stays_of_ready ready binary
      have left := converts_of_written ofLeft previous stack due
        (fun other is => by cases is; exact leftTight) (ready_of_le leftTight stays)
      have right := converts_of_written ofRight (some (operator op)) (operator op :: stack) rfl
        (fits_right fits rightTight) (ready_operator stack (rightTight.imp_right And.left))
      rw [popped, List.append_nil, postOrder, List.append_assoc]
      refine (left.whole popped).follow fun pending last gives ended => ?_
      have shunted : shunt (pending ++ stack) (some last) (operator op) = _ :=
        shunt_binary ended
      rw [popYielding_append gives stays] at shunted
      exact .step shunted ((right.whole rfl).absorb (pending_operator fits))
  | @Written.call _ _ called _ _ ofArguments =>
      have within := converts_of_writtenArguments ofArguments (some opening)
        (.function called :: stack) rfl
      exact .release (.push rfl (.push rfl
        (within.follow fun pending last gives _ => .close gives)))
  | @Written.application _ _ called _ _ allowed ofArgument =>
      have applied := converts_of_written ofArgument (some (.function called))
        (.function called :: stack) rfl fits (.inl rfl)
      rw [postOrder, postOrders_singleton]
      exact .release (.push rfl applied)

/-- Writings of arguments are converted into their post-orders, one after the other. -/
theorem converts_of_writtenArguments {trees : List Expression} {tokens : List Token}
    (written : WrittenArguments bare trees tokens) (previous : Option Token) (stack : List Token)
    (due : operandDue previous = true) :
    Converts (some closing) previous (opening :: stack) (opening :: stack) tokens
      (postOrders trees) := by
  match written with
  | .last written =>
      have within := converts_of_written written previous (opening :: stack) due
        (fun op is => nomatch is) (ready_opening _ stack)
      rw [postOrders_singleton]
      exact within.whole rfl
  | .more written ofOthers =>
      have within := converts_of_written written previous (opening :: stack) due
        (fun op is => nomatch is) (ready_opening _ stack)
      refine (within.whole rfl).follow fun pending last gives ended => ?_
      have shunted : shunt (pending ++ opening :: stack) (some last) comma =
          .ok (pending, opening :: stack) := by
        simp only [shunt, popGroup_append fun token member => (gives token member).1]
      exact .step shunted (converts_of_writtenArguments ofOthers _ stack rfl)

end

/-- The tokens of a writing, and no others, are converted from an empty stack to an empty one. -/
theorem converts_of_whole {level : Nat} {tree : Expression} {tokens : List Token}
    (written : Written bare none level tree tokens) :
    Converts none none [] [] tokens tree.postOrder := by
  have ready : Ready level [] := .inr (.inr fun token member => nomatch member)
  have converts := converts_of_written written none [] rfl (fun op is => nomatch is) ready
  exact converts.whole rfl

/-- **Post-order undoes writing.** Whatever functions are applied without parentheses, every writing
of a tree is brought into the post-order of the tree. Parentheses that are not needed and plus signs
in front of operands make no difference. -/
theorem postOrder_of_written {level : Nat} {tree : Expression} {tokens : List Token}
    (written : Written bare none level tree tokens) :
    Token.postOrder tokens = .ok tree.postOrder := by
  have converts := converts_of_whole written
  exact converts.postOrder

/-- A sign as the exponent ends with the exponent, and a function without parentheses is applied
before any operator: `2 ^ - 3 * sqrt 16 ^ 2`. -/
theorem postOrder_of_written_sign_in_exponent :
    Token.postOrder [.number 2, operator .power, operator .subtract, .number 3, operator .multiply,
        .function "sqrt", .number 16, operator .power, .number 2] =
      .ok [.number 2, .number 3, operator .negate, operator .power, .number 16, .function "sqrt",
        .number 2, operator .power, operator .multiply] := by
  have exponent : Written (· = "sqrt") (some (operator .multiply)) _ (.negation (.number 3)) _ :=
    .negation (.number 3) (by decide)
  have left : Written (· = "sqrt") (some (operator .multiply)) _
      (.operation .power (.number 2) (.negation (.number 3))) _ :=
    .operation rfl (.number 2) exponent (by decide) (.inr ⟨rfl, nofun, nofun⟩)
  have right : Written (· = "sqrt") none _
      (.operation .power (.call "sqrt" [.number 16]) (.number 2)) _ :=
    .operation rfl (.application rfl (.number 16)) (.number 2) (by decide) (.inl (by decide))
  have product : Written (· = "sqrt") none _ (.operation .multiply _ _) _ :=
    .operation rfl left right (by decide) (.inl (by decide))
  exact postOrder_of_written product

/-! ## Every tree has a writing -/

theorem exists_writtenArguments {arguments : List Expression} (nonempty : arguments ≠ [])
    (each : ∀ argument ∈ arguments, ∀ next,
      ∃ tokens, Written bare next atomic argument tokens) :
    ∃ tokens, WrittenArguments bare arguments tokens := by
  induction arguments with
  | nil => exact absurd rfl nonempty
  | cons first rest ih =>
      cases rest with
      | nil =>
          obtain ⟨tokens, written⟩ := each first List.mem_cons_self (some closing)
          exact ⟨tokens, .last written⟩
      | cons second others =>
          obtain ⟨tokens, written⟩ := each first List.mem_cons_self (some comma)
          obtain ⟨following, ofOthers⟩ := ih (List.cons_ne_nil _ _) fun argument member =>
            each argument (List.mem_cons_of_mem _ member)
          exact ⟨tokens ++ comma :: following, .more written ofOthers⟩

/-- A well-formed tree can be written with every part between parentheses, whatever comes next and
whatever functions are bare. -/
theorem exists_written {tree : Expression} (wellFormed : tree.WellFormed) (next : Option Token) :
    ∃ tokens, Written bare next atomic tree tokens := by
  induction wellFormed generalizing next with
  | number value => exact ⟨_, .number value⟩
  | name symbol => exact ⟨_, .name symbol⟩
  | negation _ ofOperand =>
      obtain ⟨tokens, written⟩ := ofOperand (some closing)
      exact ⟨_, .enclosed (.negation written (by decide))⟩
  | @operation op left right binary _ _ ofLeft ofRight =>
      obtain ⟨leftTokens, writtenLeft⟩ := ofLeft (some (operator op))
      obtain ⟨rightTokens, writtenRight⟩ := ofRight (some closing)
      exact ⟨_, .enclosed (.operation binary writtenLeft writtenRight
        (Nat.le_of_lt (halves_lt_atomic op)) (.inl (halves_lt_atomic op)))⟩
  | @call called arguments f known count _ each =>
      have nonempty : arguments ≠ [] := by
        intro none
        rw [none] at count
        cases f <;> cases count
      obtain ⟨tokens, written⟩ := exists_writtenArguments nonempty each
      exact ⟨_, .call written⟩

end Reckoner.Expression
