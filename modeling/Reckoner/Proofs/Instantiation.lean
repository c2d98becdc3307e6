import Reckoner.Proofs.Replacement

/-!
# Numbers in the place of names

A tree with numbers in the place of some names has the value that the tree has where these names
stand for the numbers (`Reckoner.Expression.value_subst`). If the numbers stand between parentheses,
a writing of the tree becomes a writing of the tree with the numbers
(`Reckoner.Expression.written_subst`).
-/

namespace Reckoner.Expression

open Token

mutual

/-- The expression with a tree in the place of every name. -/
def subst (put : String → Expression) : Expression → Expression
  | .number value => .number value
  | .name symbol => put symbol
  | .negation operand => .negation (operand.subst put)
  | .operation op left right => .operation op (left.subst put) (right.subst put)
  | .call called arguments => .call called (substs put arguments)

/-- The expressions with a tree in the place of every name. -/
def substs (put : String → Expression) : List Expression → List Expression
  | [] => []
  | first :: rest => first.subst put :: substs put rest

end

theorem substs_eq_map (put : String → Expression) (arguments : List Expression) :
    substs put arguments = arguments.map (subst put) := by
  induction arguments with
  | nil => rfl
  | cons first rest ih => rw [substs, List.map_cons, ih]

/-- A number as an expression, with its sign apart. -/
def literal (x : Float) : Expression :=
  if Decimal.signBit x then .negation (.number (-x)) else .number x

/-- A number in the place of some names; all others stay. -/
def assign (named : String → Bool) (x : Float) (symbol : String) : Expression :=
  if named symbol then literal x else .name symbol

/-- Every number of the expression is finite and has no sign, every name is known, operators
between operands are binary, and functions of the table have as many arguments as they take. -/
inductive Plain (known : String → Prop) : Expression → Prop
  | number {value : Float} (finite : value.isFinite = true)
      (unsigned : Decimal.signBit value = false) : Plain known (.number value)
  | name {symbol : String} (isKnown : known symbol) : Plain known (.name symbol)
  | negation {operand : Expression} (ofOperand : Plain known operand) :
      Plain known (.negation operand)
  | operation {op : Operator} {left right : Expression} (binary : op.isBinary = true)
      (ofLeft : Plain known left) (ofRight : Plain known right) :
      Plain known (.operation op left right)
  | call {function : String} {arguments : List Expression} {f : NamedFunction}
      (named : (function, f) ∈ NamedFunction.table) (count : arguments.length = f.arity)
      (ofArguments : ∀ argument ∈ arguments, Plain known argument) :
      Plain known (.call function arguments)

variable {known other : String → Prop} {named : String → Bool} {x : Float} {tree : Expression}

theorem wellFormed_of_plain (plain : tree.Plain known) : tree.WellFormed := by
  induction plain with
  | number finite unsigned => exact .number _
  | name isKnown => exact .name _
  | negation _ ofOperand => exact .negation ofOperand
  | operation binary _ _ ofLeft ofRight => exact .operation binary ofLeft ofRight
  | call named count _ ofArguments =>
      exact .call (ofName_of_mem_table named).1 count ofArguments

theorem plain_literal (finite : x.isFinite = true) : (literal x).Plain known := by
  unfold literal
  cases negative : Decimal.signBit x with
  | false => exact .number finite negative
  | true =>
      refine .negation (.number (Decimal.isFinite_neg finite) ?_)
      rw [Decimal.signBit_neg finite, negative]
      rfl

theorem plain_subst {put : String → Expression}
    (each : ∀ symbol, known symbol → (put symbol).Plain other) (plain : tree.Plain known) :
    (tree.subst put).Plain other := by
  induction plain with
  | number finite unsigned => exact .number finite unsigned
  | name isKnown => exact each _ isKnown
  | negation _ ofOperand => exact .negation ofOperand
  | operation binary _ _ ofLeft ofRight => exact .operation binary ofLeft ofRight
  | call named count _ ofArguments =>
      rw [subst, substs_eq_map]
      refine .call named ((List.length_map _).trans count) fun argument member => ?_
      obtain ⟨original, inside, rfl⟩ := List.mem_map.mp member
      exact ofArguments original inside

/-- Names that have become numbers are no longer there. -/
theorem plain_assign (finite : x.isFinite = true) (plain : tree.Plain known) :
    (tree.subst (assign named x)).Plain fun symbol => known symbol ∧ named symbol = false := by
  refine plain_subst (fun symbol isKnown => ?_) plain
  unfold assign
  cases is : named symbol with
  | true => exact plain_literal finite
  | false => exact .name ⟨isKnown, is⟩

/-! ## Values -/

section Value

variable {degrees : Bool} {environment environment' : String → Option Float}

theorem value_literal (finite : x.isFinite = true) :
    (literal x).value degrees environment = .ok x := by
  unfold literal
  cases Decimal.signBit x with
  | false => rfl
  | true => exact congrArg Except.ok (Decimal.neg_neg_of_isFinite finite)

theorem values_substs {put : String → Expression} {arguments : List Expression}
    (each : ∀ argument ∈ arguments, (argument.subst put).value degrees environment =
      argument.value degrees environment') :
    values degrees environment (substs put arguments) = values degrees environment' arguments := by
  induction arguments with
  | nil => rfl
  | cons first rest ih =>
      rw [substs, values, values, each first List.mem_cons_self,
        ih fun argument member => each argument (List.mem_cons_of_mem _ member)]

/-- **Trees in the place of names.** If every known name has in one environment the value that the
tree in its place has in another one, so has the whole expression. -/
theorem value_subst {put : String → Expression}
    (each : ∀ symbol, known symbol → (put symbol).value degrees environment =
      (name symbol).value degrees environment') (plain : tree.Plain known) :
    (tree.subst put).value degrees environment = tree.value degrees environment' := by
  induction plain with
  | number finite unsigned => rfl
  | name isKnown => exact each _ isKnown
  | negation _ ofOperand => rw [subst, value, value, ofOperand]
  | operation binary _ _ ofLeft ofRight => rw [subst, value, value, ofLeft, ofRight]
  | call named count _ ofArguments => rw [subst, value, value, values_substs ofArguments]

theorem value_assign (finite : x.isFinite = true) (plain : tree.Plain known) :
    (tree.subst (assign named x)).value degrees environment =
      tree.value degrees fun symbol => if named symbol then some x else environment symbol := by
  refine value_subst (fun symbol _ => ?_) plain
  unfold assign
  cases is : named symbol with
  | false => simp only [value, is, Bool.false_eq_true, if_false]
  | true =>
      rw [if_pos rfl, value_literal finite]
      simp only [value, is, if_true]

theorem subst_name (tree : Expression) : tree.subst .name = tree := by
  induction tree with
  | number value => rfl
  | name symbol => rfl
  | negation operand ih => rw [subst, ih]
  | operation op left right ofLeft ofRight => rw [subst, ofLeft, ofRight]
  | call called arguments each =>
      rw [subst, substs_eq_map, List.map_congr_left each, List.map_id']

/-- Only the values of known names count. -/
theorem value_congr (same : ∀ symbol, known symbol → environment symbol = environment' symbol)
    (plain : tree.Plain known) :
    tree.value degrees environment = tree.value degrees environment' := by
  have ofNames : (tree.subst .name).value degrees environment =
      tree.value degrees environment' := by
    refine value_subst (fun symbol isKnown => ?_) plain
    rw [value, value, same symbol isKnown]
  rwa [subst_name] at ofNames

end Value

/-! ## Writings -/

theorem written_literal {bare : String → Prop} (x : Float) (next : Option Token) :
    ∃ level, Written bare next level (literal x)
      (if Decimal.signBit x then [operator .subtract, .number (-x)] else [.number x]) := by
  unfold literal
  cases Decimal.signBit x with
  | false => exact ⟨_, .number x⟩
  | true => exact ⟨_, .negation (.number _) (by decide)⟩

theorem written_enclosed {bare : String → Prop} (x : Float) (next : Option Token) :
    Written bare next atomic (literal x) (Substitution.enclosedTokens x) := by
  obtain ⟨level, written⟩ := @written_literal bare x (some closing)
  exact .enclosed written

theorem replaceTokens_append (first second : List Token) :
    Substitution.replaceTokens named x (first ++ second) =
      Substitution.replaceTokens named x first ++ Substitution.replaceTokens named x second :=
  List.flatMap_append

mutual

/-- **Numbers in a writing.** With numbers between parentheses in the place of names, a writing of a
tree is one of the tree with the numbers. -/
theorem written_subst {bare : String → Prop} {next : Option Token} {level : Nat}
    {tree : Expression} {tokens : List Token} (written : Written bare next level tree tokens) :
    Written bare next level (tree.subst (assign named x))
      (Substitution.replaceTokens named x tokens) := by
  match written with
  | .number value => exact .number value
  | .name symbol =>
      rw [Substitution.replaceTokens_identifier, subst]
      unfold assign
      cases named symbol with
      | false => exact .name symbol
      | true =>
          obtain ⟨level, ofLiteral⟩ := @written_literal bare x (some closing)
          change Written bare next atomic (literal x) (Substitution.enclosedTokens x ++ [])
          rw [List.append_nil]
          exact .enclosed ofLiteral
  | .enclosed inside =>
      have within := @Written.enclosed _ next _ _ _ (written_subst inside)
      change Written _ _ _ _ (opening :: Substitution.replaceTokens named x (_ ++ [closing]))
      rwa [replaceTokens_append]
  | .plus signed => exact .plus (written_subst signed)
  | .negation ofOperand tight => exact .negation (written_subst ofOperand) tight
  | .operation binary ofLeft ofRight leftTight rightTight =>
      rw [replaceTokens_append]
      exact .operation binary (written_subst ofLeft) (written_subst ofRight) leftTight rightTight
  | @Written.call _ _ called _ tokens ofArguments =>
      have within := @Written.call _ next called _ _ (written_substs ofArguments)
      change Written _ _ _ _ (.function called :: opening ::
        Substitution.replaceTokens named x (tokens ++ [closing]))
      rwa [replaceTokens_append]
  | .application allowed ofArgument => exact .application allowed (written_subst ofArgument)

theorem written_substs {bare : String → Prop} {trees : List Expression} {tokens : List Token}
    (written : WrittenArguments bare trees tokens) :
    WrittenArguments bare (substs (assign named x) trees)
      (Substitution.replaceTokens named x tokens) := by
  match written with
  | .last written => exact .last (written_subst written)
  | .more written ofOthers =>
      rw [replaceTokens_append]
      exact .more (written_subst written) (written_substs ofOthers)

end

/-- The token can be spelled, and if it is a name, it is known. -/
def IsKnown (known : String → Prop) (token : Token) : Prop :=
  token.IsPlain ∧ ∀ symbol, token = identifier symbol → known symbol

theorem isKnown_group {tokens : List Token} (within : ∀ token ∈ tokens, IsKnown known token) :
    ∀ token ∈ opening :: (tokens ++ [closing]), IsKnown known token := by
  intro token member
  rcases List.mem_cons.mp member with rfl | member
  · exact ⟨trivial, nofun⟩
  · rcases List.mem_append.mp member with member | member
    · exact within token member
    · rw [List.mem_singleton.mp member]
      exact ⟨trivial, nofun⟩

mutual

/-- The tokens of a plain expression can be spelled, and its names are known. -/
theorem isKnown_of_written {bare : String → Prop} (words : ∀ symbol, known symbol →
      IsWord symbol.toList) {next : Option Token} {level : Nat} {tree : Expression}
    {tokens : List Token} (written : Written bare next level tree tokens)
    (plain : tree.Plain known) : ∀ token ∈ tokens, IsKnown known token := by
  match written, plain with
  | .number value, .number finite unsigned =>
      intro token member
      rw [List.mem_singleton.mp member]
      exact ⟨⟨finite, unsigned⟩, nofun⟩
  | .name symbol, .name isKnown =>
      intro token member
      rw [List.mem_singleton.mp member]
      refine ⟨words symbol isKnown, fun other is => ?_⟩
      cases is
      exact isKnown
  | .enclosed inside, plain => exact isKnown_group (isKnown_of_written words inside plain)
  | .plus signed, plain =>
      exact List.forall_mem_cons.mpr ⟨⟨rfl, nofun⟩, isKnown_of_written words signed plain⟩
  | .negation ofOperand tight, .negation plain =>
      exact List.forall_mem_cons.mpr ⟨⟨rfl, nofun⟩, isKnown_of_written words ofOperand plain⟩
  | .operation binary ofLeft ofRight leftTight rightTight, .operation _ left right =>
      exact List.forall_mem_append.mpr ⟨isKnown_of_written words ofLeft left,
        List.forall_mem_cons.mpr ⟨⟨binary, nofun⟩, isKnown_of_written words ofRight right⟩⟩
  | .call ofArguments, .call isFunction count plain =>
      exact List.forall_mem_cons.mpr ⟨⟨⟨_, isFunction⟩, nofun⟩,
        isKnown_group (isKnown_of_writtenArguments words ofArguments plain)⟩
  | .application allowed ofArgument, .call isFunction count plain =>
      exact List.forall_mem_cons.mpr ⟨⟨⟨_, isFunction⟩, nofun⟩,
        isKnown_of_written words ofArgument (plain _ List.mem_cons_self)⟩

theorem isKnown_of_writtenArguments {bare : String → Prop} (words : ∀ symbol, known symbol →
      IsWord symbol.toList) {trees : List Expression} {tokens : List Token}
    (written : WrittenArguments bare trees tokens) (plain : ∀ tree ∈ trees, tree.Plain known) :
    ∀ token ∈ tokens, IsKnown known token := by
  match written with
  | .last written => exact isKnown_of_written words written (plain _ List.mem_cons_self)
  | .more written ofOthers =>
      exact List.forall_mem_append.mpr
        ⟨isKnown_of_written words written (plain _ List.mem_cons_self),
          List.forall_mem_cons.mpr ⟨⟨trivial, nofun⟩, isKnown_of_writtenArguments words ofOthers
            fun tree member => plain tree (List.mem_cons_of_mem _ member)⟩⟩

end

end Reckoner.Expression
