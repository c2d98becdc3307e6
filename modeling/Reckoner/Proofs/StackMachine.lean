import Reckoner.Proofs.Expression

/-!
# The stack machine evaluates trees

Running the post-order of a well-formed tree pushes the value of the tree and leaves the lines of
its parts (`Reckoner.Expression.runs_of_wellFormed`). Conversely the tokens of a run that ends
determine the tree they came from: `Reckoner.Expression.regrow` reads a tree back from its
post-order, and every run goes along with it (`Reckoner.Expression.regrow_of_run`). So the machine
gives a value exactly for the post-orders of trees that have one.
-/

namespace Reckoner.Expression

open Reckoner.Scalar

/-- No name has a value. -/
def unbound : String → Option Float :=
  fun _ => none

variable (degrees : Bool)

/-! ## Running a post-order -/

section Run

variable {degrees} {environment : String → Option Float}

theorem lines_negation {operand : Expression} {a : Float}
    (evaluated : operand.value degrees environment = .ok a) :
    (negation operand).lines degrees environment =
      operand.lines degrees environment ++ [negationLine a (-a)] := by
  simp only [lines, nodes, List.filterMap_append]
  simp [line?, evaluated, Except.toOption]

theorem lines_operation {op : Operator} {left right : Expression} {a b result : Float}
    (ofLeft : left.value degrees environment = .ok a)
    (ofRight : right.value degrees environment = .ok b)
    (applied : applyOperator op a b = .ok result) :
    (operation op left right).lines degrees environment =
      left.lines degrees environment ++ right.lines degrees environment ++
        [operatorLine op a b result] := by
  simp only [lines, nodes, List.filterMap_append]
  simp [line?, ofLeft, ofRight, applied, Except.toOption]

theorem lines_call {function : String} {arguments : List Expression} {operands : List Float}
    {result : Float} (evaluated : values degrees environment arguments = .ok operands)
    (applied : NamedFunction.applyNamed function operands degrees = .ok result) :
    (call function arguments).lines degrees environment =
      (nodesOf arguments).filterMap (line? degrees environment) ++
        [functionLine function operands result] := by
  simp only [lines, nodes, List.filterMap_append]
  simp [line?, evaluated, applied, Except.toOption]

end Run

/-- Runs tokens after some lines have been left. -/
def runAfter (lines : List String) (stack : List Float) (rest : List Token) :
    Except Failure (List Float × List String) :=
  (run degrees stack rest).map fun result => (result.1, lines ++ result.2)

variable {degrees}

theorem runAfter_nil (stack : List Float) (rest : List Token) :
    runAfter degrees [] stack rest = run degrees stack rest := by
  unfold runAfter
  cases run degrees stack rest <;> rfl

theorem step_of_run {stack next : List Float} {token : Token} {rest : List Token}
    {lines : List String} (ran : run degrees stack (token :: rest) = .ok (next, lines)) :
    ∃ middle first second, step degrees stack token = .ok (middle, first) ∧
      run degrees middle rest = .ok (next, second) := by
  rw [run] at ran
  cases stepped : step degrees stack token with
  | error failure => rw [stepped] at ran; cases ran
  | ok result =>
      cases further : run degrees result.1 rest with
      | error failure =>
          rw [stepped] at ran
          simp only [bind, Except.bind, further] at ran
          cases ran
      | ok final =>
          rw [stepped] at ran
          simp only [bind, Except.bind, further, pure, Except.pure] at ran
          cases ran
          exact ⟨result.1, result.2, final.2, rfl, further⟩

theorem runAfter_of_step {stack next : List Float} {token : Token} {lines : List String}
    (stepped : step degrees stack token = .ok (next, lines)) (before : List String)
    (rest : List Token) :
    runAfter degrees before stack (token :: rest) =
      runAfter degrees (before ++ lines) next rest := by
  unfold runAfter
  rw [run, stepped]
  change (run degrees next rest >>= fun result => Except.ok (result.1, lines ++ result.2)).map _ = _
  cases run degrees next rest with
  | error failure => rfl
  | ok result => simp only [bind, Except.bind, Except.map, List.append_assoc]

theorem runAfter_of_step_error {stack : List Float} {token : Token} {failure : Failure}
    (stepped : step degrees stack token = .error failure) (before : List String)
    (rest : List Token) : runAfter degrees before stack (token :: rest) = .error failure := by
  unfold runAfter
  rw [run, stepped]
  rfl

variable (degrees) in
/-- The run over the post-order of a tree pushes the value of the tree, or ends with the failure of
the tree. -/
def Runs (tree : Expression) : Prop :=
  ∀ (before : List String) (stack : List Float) (rest : List Token),
    runAfter degrees before stack (tree.postOrder ++ rest) =
      match tree.value degrees unbound with
      | .ok a => runAfter degrees (before ++ tree.lines degrees unbound) (a :: stack) rest
      | .error failure => .error failure

theorem runs_negation {operand : Expression} (ofOperand : Runs degrees operand) :
    Runs degrees (.negation operand) := by
  intro before stack rest
  rw [postOrder, List.append_assoc, ofOperand]
  cases evaluated : operand.value degrees unbound with
  | error failure => simp only [value, evaluated, bind, Except.bind]
  | ok a =>
      have stepped : step degrees (a :: stack) (.operator .negate) =
          .ok (-a :: stack, [negationLine a (-a)]) := rfl
      simp only [value, evaluated, bind, Except.bind, pure, Except.pure]
      rw [List.singleton_append, runAfter_of_step stepped, lines_negation evaluated,
        List.append_assoc]

variable (degrees) in
theorem step_operation {op : Operator} (binary : op.isBinary = true) (a b : Float)
    (stack : List Float) :
    step degrees (b :: a :: stack) (.operator op) =
      (applyOperator op a b).map fun result => (result :: stack, [operatorLine op a b result]) := by
  cases op with
  | negate => cases binary
  | unknown symbol => cases binary
  | _ =>
    simp only [step, bind, Except.bind]
    cases applyOperator _ a b <;> rfl

theorem runs_operation {op : Operator} {left right : Expression} (binary : op.isBinary = true)
    (ofLeft : Runs degrees left) (ofRight : Runs degrees right) :
    Runs degrees (.operation op left right) := by
  intro before stack rest
  rw [postOrder, List.append_assoc, List.append_assoc, ofLeft]
  cases evaluatedLeft : left.value degrees unbound with
  | error failure => simp only [value, evaluatedLeft, bind, Except.bind]
  | ok a =>
      simp only
      rw [ofRight]
      cases evaluatedRight : right.value degrees unbound with
      | error failure => simp only [value, evaluatedLeft, evaluatedRight, bind, Except.bind]
      | ok b =>
          have stepped := step_operation degrees binary a b stack
          simp only [value, evaluatedLeft, evaluatedRight, bind, Except.bind]
          rw [List.singleton_append]
          cases applied : applyOperator op a b with
          | error failure =>
              rw [applied] at stepped
              exact runAfter_of_step_error stepped _ _
          | ok result =>
              rw [applied] at stepped
              simp only
              rw [runAfter_of_step stepped, lines_operation evaluatedLeft evaluatedRight applied]
              simp only [List.append_assoc]

theorem runAfter_postOrders {arguments : List Expression}
    (each : ∀ argument ∈ arguments, Runs degrees argument) (before : List String)
    (stack : List Float) (rest : List Token) :
    runAfter degrees before stack (postOrders arguments ++ rest) =
      match values degrees unbound arguments with
      | .ok operands =>
          runAfter degrees
            (before ++ (nodesOf arguments).filterMap (line? degrees unbound))
            (operands.reverse ++ stack) rest
      | .error failure => .error failure := by
  induction arguments generalizing before stack with
  | nil => simp [postOrders, values, nodesOf]
  | cons first others ih =>
      have ofOthers := ih fun argument member => each argument (List.mem_cons_of_mem _ member)
      rw [postOrders, List.append_assoc, each first List.mem_cons_self]
      cases evaluated : first.value degrees unbound with
      | error failure => simp only [values, evaluated, bind, Except.bind]
      | ok a =>
          simp only
          rw [ofOthers]
          cases evaluatedOthers : values degrees unbound others with
          | error failure =>
              simp only [values, evaluated, evaluatedOthers, bind, Except.bind]
          | ok operands =>
              simp only [values, evaluated, evaluatedOthers, bind, Except.bind, pure, Except.pure,
                nodesOf, List.filterMap_append, List.reverse_cons, List.append_assoc,
                List.singleton_append, lines]

variable (degrees) in
theorem step_call {function : String} {f : NamedFunction} {operands : List Float}
    (known : NamedFunction.ofName? function = some f) (count : operands.length = f.arity)
    (stack : List Float) :
    step degrees (operands.reverse ++ stack) (.function function) =
      (NamedFunction.applyNamed function operands degrees).map fun result =>
        (result :: stack, [functionLine function operands result]) := by
  have enough : ¬ (operands.reverse ++ stack).length < f.arity := by
    simp only [List.length_append, List.length_reverse]
    omega
  have taken : (operands.reverse ++ stack).take f.arity = operands.reverse :=
    List.take_left' (by rw [List.length_reverse, count])
  have dropped : (operands.reverse ++ stack).drop f.arity = stack :=
    List.drop_left' (by rw [List.length_reverse, count])
  simp only [step, known, enough, ↓reduceIte, taken, dropped, List.reverse_reverse,
    NamedFunction.applyNamed, bind, Except.bind]
  cases f.apply (lowerName function) operands degrees <;> rfl

theorem runs_call {function : String} {arguments : List Expression} {f : NamedFunction}
    (known : NamedFunction.ofName? function = some f) (count : arguments.length = f.arity)
    (each : ∀ argument ∈ arguments, Runs degrees argument) :
    Runs degrees (.call function arguments) := by
  intro before stack rest
  rw [postOrder, List.append_assoc, runAfter_postOrders each]
  cases evaluated : values degrees unbound arguments with
  | error failure => simp only [value, evaluated, bind, Except.bind]
  | ok operands =>
      have stepped := step_call degrees known
        ((values_length evaluated).trans count) stack
      simp only [value, evaluated, bind, Except.bind]
      rw [List.singleton_append]
      cases applied : NamedFunction.applyNamed function operands degrees with
      | error failure =>
          rw [applied] at stepped
          exact runAfter_of_step_error stepped _ _
      | ok result =>
          rw [applied] at stepped
          simp only
          rw [runAfter_of_step stepped, lines_call evaluated applied, List.append_assoc]

variable (degrees) in
/-- Running the post-order of a well-formed tree evaluates the tree. -/
theorem runs_of_wellFormed {tree : Expression} (wellFormed : tree.WellFormed) :
    Runs degrees tree := by
  induction wellFormed with
  | number value =>
      intro before stack rest
      have stepped : step degrees stack (.number value) = .ok (value :: stack, []) := rfl
      exact runAfter_of_step stepped before rest
  | name symbol =>
      intro before stack rest
      have stepped : step degrees stack (.identifier symbol) =
          .error (Failure.of (.unknownVariable symbol)) := rfl
      exact runAfter_of_step_error stepped before rest
  | negation _ ofOperand => exact runs_negation ofOperand
  | operation binary _ _ ofLeft ofRight => exact runs_operation binary ofLeft ofRight
  | call known count _ each => exact runs_call known count each

/-! ## Reading a tree back from its post-order -/

/-- The trees on a stack after a token, topmost tree first: a leaf is put on top, an operator or a
function takes its operands from the stack. -/
def regrowStep (grown : List Expression) : Token → Option (List Expression)
  | .number value => some (.number value :: grown)
  | .identifier symbol => some (.name symbol :: grown)
  | .operator .negate =>
      match grown with
      | operand :: below => some (.negation operand :: below)
      | [] => none
  | .operator op =>
      match grown with
      | right :: left :: below =>
          if op.isBinary then some (.operation op left right :: below) else none
      | _ => none
  | .function function =>
      match NamedFunction.ofName? function with
      | none => none
      | some f =>
          if grown.length < f.arity then none
          else some (.call function (grown.take f.arity).reverse :: grown.drop f.arity)
  | _ => none

/-- The trees on a stack after some tokens. -/
def regrow (grown : List Expression) (tokens : List Token) : Option (List Expression) :=
  tokens.foldlM regrowStep grown

/-- What a token adds to the trees on a stack is the token itself, at the end of their
post-orders. -/
theorem postOrders_regrowStep {grown next : List Expression} {token : Token}
    (stepped : regrowStep grown token = some next) :
    postOrders next.reverse = postOrders grown.reverse ++ [token] := by
  have leaf (tree : Expression) (tokens : List Token) (is : tree.postOrder = tokens) :
      postOrders (tree :: grown).reverse = postOrders grown.reverse ++ tokens := by
    rw [List.reverse_cons, postOrders_append, postOrders_singleton, is]
  unfold regrowStep at stepped
  split at stepped
  · cases stepped
    exact leaf _ _ (by rw [postOrder])
  · cases stepped
    exact leaf _ _ (by rw [postOrder])
  · split at stepped
    · cases stepped
      simp only [List.reverse_cons, postOrders_append, postOrders_singleton, postOrder,
        List.append_assoc]
    · cases stepped
  · split at stepped
    · split at stepped
      · cases stepped
        simp only [List.reverse_cons, postOrders_append, postOrders_singleton, postOrder,
          List.append_assoc]
      · cases stepped
    · cases stepped
  · split at stepped
    · cases stepped
    · split at stepped
      · cases stepped
      · rename_i function f known enough
        cases stepped
        have split : grown.reverse =
            (grown.drop f.arity).reverse ++ (grown.take f.arity).reverse := by
          rw [← List.reverse_append, List.take_append_drop]
        rw [split, List.reverse_cons, postOrders_append, postOrders_append, postOrders_singleton,
          postOrder, List.append_assoc]
  · cases stepped

theorem wellFormed_regrowStep {grown next : List Expression} {token : Token}
    (stepped : regrowStep grown token = some next) (before : ∀ tree ∈ grown, tree.WellFormed) :
    ∀ tree ∈ next, tree.WellFormed := by
  unfold regrowStep at stepped
  split at stepped
  · cases stepped
    simpa using ⟨.number _, before⟩
  · cases stepped
    simpa using ⟨.name _, before⟩
  · split at stepped
    · cases stepped
      simp only [List.forall_mem_cons] at before ⊢
      exact ⟨.negation before.1, before.2⟩
    · cases stepped
  · split at stepped
    · split at stepped
      · rename_i binary
        cases stepped
        simp only [List.forall_mem_cons] at before ⊢
        exact ⟨.operation binary before.2.1 before.1, before.2.2⟩
      · cases stepped
    · cases stepped
  · split at stepped
    · cases stepped
    · split at stepped
      · cases stepped
      · rename_i function f known enough
        cases stepped
        have count : (grown.take f.arity).reverse.length = f.arity := by
          rw [List.length_reverse, List.length_take]
          omega
        intro tree member
        cases member with
        | head =>
            exact .call known count fun argument member =>
              before argument (List.mem_of_mem_take (List.mem_reverse.mp member))
        | tail _ member => exact before tree (List.mem_of_mem_drop member)
  · cases stepped

/-- Trees that are read back are well-formed, and their post-orders are the tokens read. -/
theorem regrow_sound {grown next : List Expression} {tokens : List Token}
    (read : regrow grown tokens = some next) (before : ∀ tree ∈ grown, tree.WellFormed) :
    (∀ tree ∈ next, tree.WellFormed) ∧
      postOrders next.reverse = postOrders grown.reverse ++ tokens := by
  induction tokens generalizing grown with
  | nil =>
      cases read
      exact ⟨before, (List.append_nil _).symm⟩
  | cons token rest ih =>
      rw [regrow, List.foldlM_cons] at read
      obtain ⟨middle, stepped, read⟩ := Option.bind_eq_some_iff.mp read
      obtain ⟨wellFormed, same⟩ := ih read (wellFormed_regrowStep stepped before)
      refine ⟨wellFormed, ?_⟩
      rw [same, postOrders_regrowStep stepped, List.append_assoc, List.singleton_append]

/-! ## Runs go along with trees -/

/-- A token that runs takes as many values as it takes trees. -/
theorem regrowStep_of_step {stack next : List Float} {token : Token} {lines : List String}
    (stepped : step degrees stack token = .ok (next, lines)) {grown : List Expression}
    (level : grown.length = stack.length) :
    ∃ after, regrowStep grown token = some after ∧ after.length = next.length := by
  unfold step at stepped
  split at stepped
  · cases stepped
    exact ⟨_, rfl, by simp only [List.length_cons, level]⟩
  · cases stepped
  · split at stepped
    · cases stepped
      match grown, level with
      | operand :: below, level => exact ⟨_, rfl, by simpa using level⟩
    · cases stepped
  · split at stepped
    · rename_i op _ _ b a below
      cases applied : applyOperator op a b with
      | error failure => rw [applied] at stepped; cases stepped
      | ok result =>
          rw [applied] at stepped
          cases stepped
          match grown, level with
          | right :: left :: below, level =>
              cases op with
              | negate => cases applied
              | unknown symbol => cases applied
              | _ => exact ⟨_, rfl, by simpa using level⟩
    · cases stepped
  · split at stepped
    · cases stepped
    · split at stepped
      · cases stepped
      · rename_i function _ f known enough
        simp only [bind, Except.bind] at stepped
        split at stepped
        · cases stepped
        · cases stepped
          refine ⟨.call function (grown.take f.arity).reverse :: grown.drop f.arity, ?_, ?_⟩
          · simp only [regrowStep, known, level, enough, ↓reduceIte]
          · simp only [List.length_cons, List.length_drop, level]
  · cases stepped

theorem regrow_of_run {stack next : List Float} {tokens : List Token} {lines : List String}
    (ran : run degrees stack tokens = .ok (next, lines)) {grown : List Expression}
    (level : grown.length = stack.length) :
    ∃ after, regrow grown tokens = some after ∧ after.length = next.length := by
  induction tokens generalizing stack lines grown with
  | nil =>
      cases ran
      exact ⟨grown, rfl, level⟩
  | cons token rest ih =>
      obtain ⟨middle, first, second, stepped, further⟩ := step_of_run ran
      obtain ⟨between, regrown, level⟩ := regrowStep_of_step stepped level
      obtain ⟨after, read, level⟩ := ih further level
      refine ⟨after, ?_, level⟩
      rw [regrow, List.foldlM_cons, regrown]
      exact read

/-- The tokens of a run that leaves a single value are the post-order of a well-formed tree. -/
theorem exists_postOrder_of_run {tokens : List Token} {a : Float} {lines : List String}
    (ran : run degrees [] tokens = .ok ([a], lines)) :
    ∃ tree : Expression, tree.WellFormed ∧ tree.postOrder = tokens := by
  obtain ⟨after, read, level⟩ :=
    regrow_of_run ran (List.length_nil : ([] : List Expression).length = 0)
  obtain ⟨wellFormed, same⟩ := regrow_sound read fun tree member =>
    absurd member List.not_mem_nil
  match after, level with
  | [tree], _ =>
      refine ⟨tree, wellFormed tree List.mem_cons_self, ?_⟩
      rw [← postOrders_singleton]
      exact same

/-! ## The value of tokens in post-order -/

/-- What evaluation makes of the failure of a tree: a value past the largest double is refused. -/
def reported : Failure → Failure
  | .overflow => Failure.of .numberTooLarge
  | failure => failure

variable (degrees) in
/-- The tokens of a well-formed tree evaluate to the value of the tree, with the lines of its
parts, or fail as the tree does. -/
theorem evaluatePostOrder_postOrder {tree : Expression} (wellFormed : tree.WellFormed) :
    evaluatePostOrder degrees tree.postOrder =
      match tree.value degrees unbound with
      | .ok a => .ok (a, tree.lines degrees unbound)
      | .error failure => .error (reported failure) := by
  have ran := runs_of_wellFormed degrees wellFormed [] [] []
  rw [List.append_nil, runAfter_nil] at ran
  unfold evaluatePostOrder
  rw [ran]
  cases tree.value degrees unbound with
  | error failure => cases failure <;> rfl
  | ok a => simp [runAfter, run, Except.map]

theorem exists_postOrder_of_evaluatePostOrder {tokens : List Token} {a : Float}
    {lines : List String} (evaluated : evaluatePostOrder degrees tokens = .ok (a, lines)) :
    ∃ tree : Expression, tree.WellFormed ∧ tree.postOrder = tokens := by
  unfold evaluatePostOrder at evaluated
  split at evaluated
  · rename_i ran
    exact exists_postOrder_of_run ran
  all_goals cases evaluated

theorem value_of_evaluatePostOrder {tree : Expression} (wellFormed : tree.WellFormed) {a : Float}
    {steps : List String} (evaluated : evaluatePostOrder degrees tree.postOrder = .ok (a, steps)) :
    tree.value degrees unbound = .ok a ∧ steps = tree.lines degrees unbound := by
  rw [evaluatePostOrder_postOrder degrees wellFormed] at evaluated
  cases valued : tree.value degrees unbound with
  | error failure =>
      rw [valued] at evaluated
      cases evaluated
  | ok b =>
      rw [valued] at evaluated
      cases evaluated
      exact ⟨rfl, rfl⟩

end Reckoner.Expression
