import Reckoner.Proofs.Meaning

/-!
# Names that are bound

A text that is just a name has what the name is bound to for its value, exactly if this is finite
and substitution takes the name for no constant of another value
(`Reckoner.Evaluation.evaluate_bound_iff`). The number travels through the text. A finite one is
written as a numeral between parentheses, which no other name touches. The words of an infinity and
of the non-number are names themselves: they are left as unknown, or become the number that such a
name is bound to.
-/

namespace Reckoner

open Text Token Outcome

namespace Substitution

/-! ## A single word -/

section Word

variable {pattern : Pattern} {name : String} {y : Float} {rules : List Rule}

/-- A text that is a single word. -/
theorem replace_word (fair : pattern.Fair) {word : List Char} (nonempty : word ≠ [])
    (areLetters : ∀ c ∈ word, isWordLetter c = true) (insert : List Char) :
    replace pattern insert word = if accepts pattern.spelling word then insert else word := by
  have replaced := @replaceFrom_uncalled pattern [] none fair insert word nonempty areLetters
    atBoundary_nil rfl fun c is => by cases is
  rwa [List.append_nil, replaceFrom, List.append_nil] at replaced

/-- A text that is a number between parentheses. -/
theorem replace_enclosed (fair : pattern.Fair) (finite : y.isFinite = true) (insert : List Char) :
    replace pattern insert (enclosed y) = enclosed y := by
  have replaced := @replaceFrom_enclosed pattern y [] none fair insert finite
  rwa [List.append_nil, replaceFrom, List.append_nil] at replaced

theorem writeAll_enclosed (fair : ∀ rule ∈ rules, rule.Fair) (finite : y.isFinite = true) :
    writeAll rules (enclosed y) = enclosed y := by
  induction rules with
  | nil => rfl
  | cons rule rest ih =>
      obtain ⟨ofRule, ofRest⟩ := List.forall_mem_cons.mp fair
      rw [writeAll, List.foldl_cons, replace_enclosed ofRule.pattern finite]
      exact ih ofRest

/-- The number of the first rule for a name is written in its place. -/
theorem writeAll_name (fair : ∀ rule ∈ rules, rule.Fair) (nonempty : name.toList ≠ [])
    (areLetters : ∀ c ∈ name.toList, isWordLetter c = true) :
    writeAll rules name.toList = ((assigned rules name).map enclosed).getD name.toList := by
  induction rules with
  | nil => rfl
  | cons rule rest ih =>
      obtain ⟨ofRule, ofRest⟩ := List.forall_mem_cons.mp fair
      rw [writeAll, List.foldl_cons, replace_word ofRule.pattern nonempty areLetters, assigned,
        Pattern.names]
      split
      · exact writeAll_enclosed ofRest ofRule.finite
      · exact ih ofRest

theorem finite_of_assigned (fair : ∀ rule ∈ rules, rule.Fair) (is : assigned rules name = some y) :
    y.isFinite = true := by
  induction rules with
  | nil => cases is
  | cons rule rest ih =>
      obtain ⟨ofRule, ofRest⟩ := List.forall_mem_cons.mp fair
      rw [assigned] at is
      split at is
      · cases is
        exact ofRule.finite
      · exact ih ofRest is

end Word

/-- The value of the constant that substitution takes a name for. -/
def constantFor? (name : String) : Option Float :=
  assigned (constants.map constantRule) name

theorem fair_constants : ∀ rule ∈ constants.map constantRule, rule.Fair :=
  List.forall_mem_map.mpr fun _ => fair_constantRule

/-- Bindings that do not change a text are passed over. -/
theorem writeVariables_of_kept {text : List Char} {front : Variables}
    (kept : ∀ binding ∈ front, ∀ insert,
      replace ⟨exactly binding.1.toList, false⟩ insert text = text) (rest : Variables) :
    writeVariables text (front ++ rest) = writeVariables text rest := by
  induction front with
  | nil => rfl
  | cons binding front ih =>
      obtain ⟨ofFirst, ofFront⟩ := List.forall_mem_cons.mp kept
      have first : writeVariable text binding.1 binding.2 = .ok text := by
        unfold writeVariable
        dsimp only
        cases binding.2.toDouble with
        | ok x => exact congrArg Except.ok (ofFirst _)
        | error failure =>
            dsimp only
            rw [ofFirst, if_pos (beq_self_eq_true text)]
      rw [List.cons_append, writeVariables, first]
      exact ih ofFront

/-- Bindings do not change a number between parentheses. -/
theorem writeVariables_enclosed {bindings : Variables} {y : Float}
    (sound : ∀ binding ∈ bindings, Bindings.fault? binding.1 binding.2 = none)
    (finite : y.isFinite = true) : writeVariables (enclosed y) bindings = .ok (enclosed y) := by
  have kept := @writeVariables_of_kept (enclosed y) bindings (fun binding inside insert =>
    replace_enclosed (fair_exactly (sound binding inside)) finite insert) []
  rwa [List.append_nil] at kept

/-! ## Words of numbers without a numeral -/

/-- The words of an infinity and of the non-number. -/
def specialWords : List String :=
  ["inf", "nan"]

/-- What the text of an infinity or of the non-number can become: the word, or a finite number that
such a word is bound to, between parentheses and behind signs. -/
inductive Lost : List Char → Prop
  | word {word : String} (special : word ∈ specialWords) : Lost word.toList
  | number {y : Float} (finite : y.isFinite = true) : Lost (enclosed y)
  | group {text : List Char} (inside : Lost text) : Lost ('(' :: (text ++ [')']))
  | minus {text : List Char} (signed : Lost text) : Lost ('-' :: text)

theorem lost_enclosed (x : Float) : Lost (enclosed x) := by
  cases finite : x.isFinite with
  | true => exact .number finite
  | false =>
      rcases Decimal.eq_special finite with rfl | rfl | rfl
      · exact .group (@Lost.word "nan" (by decide))
      · exact .group (@Lost.word "inf" (by decide))
      · exact .group (.minus (@Lost.word "inf" (by decide)))

section Lost

variable {text : List Char}

theorem replaceFrom_closings {pattern : Pattern} (fair : pattern.Fair) (insert : List Char)
    (before : Option Char) {rest : List Char} (closings : ∀ c ∈ rest, c = ')') :
    replaceFrom pattern insert 0 before rest = rest := by
  have kept := @replaceFrom_others pattern insert [] before fair rest fun c member => by
    rw [closings c member]
    decide
  rwa [List.append_nil, replaceFrom, List.append_nil] at kept

/-- What is lost stays lost, whatever is written for the words in it. -/
theorem exists_lost_of_replaceFrom {pattern : Pattern} (fair : pattern.Fair) (x : Float)
    (lost : Lost text) {before : Option Char} (apart : ∀ c ∈ before, isBoundary c = true)
    {rest : List Char} (closings : ∀ c ∈ rest, c = ')') :
    ∃ next, Lost next ∧
      replaceFrom pattern (enclosed x) 0 before (text ++ rest) = next ++ rest := by
  have opening : isWordLetter '(' = false := by decide
  induction lost generalizing before rest with
  | @word word special =>
      have isWord : ∀ word ∈ specialWords, IsWord word.toList := by decide
      obtain ⟨nonempty, areLetters⟩ := isWord word special
      have ends : AtBoundary rest := fun c is => by
        rw [closings c (List.mem_of_mem_head? is)]
        decide
      have uncalled : startsCall rest = false := by
        cases rest with
        | nil => rfl
        | cons c rest =>
            rw [closings c List.mem_cons_self, startsCall_cons (by decide)]
            rfl
      rw [replaceFrom_uncalled fair nonempty (isWordLetter_of_all_isAlpha areLetters) ends uncalled
        apart, replaceFrom_closings fair _ _ closings]
      refine ⟨_, ?_, rfl⟩
      split
      · exact lost_enclosed x
      · exact .word special
  | number finite =>
      rw [replaceFrom_enclosed fair finite, replaceFrom_closings fair _ _ closings]
      exact ⟨_, .number finite, rfl⟩
  | @group text _ ih =>
      obtain ⟨next, lost, replaced⟩ := @ih (some '(') (fun c is => by cases is; decide) (')' :: rest)
        (List.forall_mem_cons.mpr ⟨rfl, closings⟩)
      refine ⟨_, .group lost, ?_⟩
      rw [List.cons_append, List.append_assoc, List.singleton_append,
        replaceFrom_cons fair _ opening, replaced]
      simp
  | @minus text _ ih =>
      obtain ⟨next, lost, replaced⟩ := @ih (some '-') (fun c is => by cases is; decide) rest closings
      refine ⟨_, .minus lost, ?_⟩
      rw [List.cons_append, replaceFrom_cons fair _ (by decide), replaced]
      rfl

theorem lost_of_replace {pattern : Pattern} (fair : pattern.Fair) (x : Float) (lost : Lost text) :
    Lost (replace pattern (enclosed x) text) := by
  obtain ⟨next, ofNext, replaced⟩ := @exists_lost_of_replaceFrom text pattern fair x lost none
    (fun c is => by cases is) [] fun c member => absurd member List.not_mem_nil
  rw [List.append_nil, List.append_nil] at replaced
  rw [replace, replaced]
  exact ofNext

end Lost

/-! ## The text of a bound name -/

section Bound

variable {bindings : Bindings} {name : String} {value : BoundValue} {x : Float}
  (checked : bindings.check = .ok ()) (member : (↑name, value) ∈ bindings)

include checked member

/-- A bound name is a word. -/
theorem letters_of_bound : name.toList ≠ [] ∧ ∀ c ∈ name.toList, isLetter c = true := by
  obtain ⟨some, letters, _⟩ :=
    unreserved_of_fault? (Bindings.fault?_of_check checked _ (Bindings.mem_texts.mpr member))
  exact ⟨fun none => some (String.toList_eq_nil_iff.mp none), List.all_eq_true.mp letters⟩

/-- Substitution writes a constant for a name that it takes for the constant. -/
theorem substitute_of_constant {c : Float} (taken : constantFor? name = some c) :
    substitute name.toList bindings = .ok (enclosed c) := by
  obtain ⟨nonempty, letters⟩ := letters_of_bound checked member
  rw [substitute, checked, ok_bind, writeConstants_eq, writeAll_name fair_constants nonempty
    fun c inside => isWordLetter_of_isLetter (letters c inside)]
  change writeVariables (((constantFor? name).map enclosed).getD _) bindings.texts = _
  rw [taken]
  exact writeVariables_enclosed (Bindings.fault?_of_check checked)
    (finite_of_assigned fair_constants taken)

variable (distinct : bindings.keys.Nodup) (double : value.toDouble = .ok x)

include distinct double

/-- Substitution writes its number for any other name; the bindings behind its own are written into
the number. -/
theorem substitute_of_bound (free : constantFor? name = none) :
    ∃ back : Variables, (∀ binding ∈ back, Bindings.fault? binding.1 binding.2 = none) ∧
      substitute name.toList bindings = writeVariables (enclosed x) back := by
  obtain ⟨nonempty, letters⟩ := letters_of_bound checked member
  have areLetters : ∀ c ∈ name.toList, isWordLetter c = true :=
    fun c inside => isWordLetter_of_isLetter (letters c inside)
  have sound := Bindings.fault?_of_check checked
  have written : substitute name.toList bindings = writeVariables name.toList bindings.texts := by
    rw [substitute, checked, ok_bind, writeConstants_eq,
      writeAll_name fair_constants nonempty areLetters]
    change writeVariables (((constantFor? name).map enclosed).getD _) bindings.texts = _
    rw [free]
    rfl
  rw [written]
  have member := Bindings.mem_texts.mpr member
  have distinct := Bindings.nodup_texts distinct
  clear checked written
  generalize bindings.texts = bindings at sound member distinct
  obtain ⟨front, back, rfl⟩ := List.append_of_mem member
  refine ⟨back, fun binding inside =>
    sound binding (List.mem_append_right _ (List.mem_cons_of_mem _ inside)), ?_⟩
  have others : ∀ binding ∈ front, binding.1 ≠ name := by
    intro binding inside same
    rw [Entries.keys, List.map_append, List.map_cons, List.nodup_append] at distinct
    exact distinct.2.2 binding.1 (List.mem_map_of_mem inside) name List.mem_cons_self same
  have passed := @writeVariables_of_kept name.toList front (fun binding inside insert => by
    have fair := fair_exactly (sound binding (List.mem_append_left _ inside))
    have rejected : accepts (exactly binding.1.toList) name.toList = false := by
      rw [accepts_exactly, decide_eq_false_iff_not, String.toList_inj]
      exact others binding inside
    rw [replace_word fair nonempty areLetters, rejected]
    rfl) ((name, value) :: back)
  have own : writeVariable name.toList name value = .ok (enclosed x) := by
    have accepted : accepts (exactly name.toList) name.toList = true := by
      rw [accepts_exactly, decide_eq_true_eq]
    unfold writeVariable
    rw [double]
    dsimp only
    rw [replace_word (fair_exactly (sound _ member)) nonempty areLetters, accepted]
    rfl
  rw [passed, writeVariables, own]
  rfl

/-- The numeral of a finite number is what is left of the name. -/
theorem substitute_of_finite (free : constantFor? name = none) (finite : x.isFinite = true) :
    substitute name.toList bindings = .ok (enclosed x) := by
  obtain ⟨back, sound, written⟩ := substitute_of_bound checked member distinct double free
  rw [written]
  exact writeVariables_enclosed sound finite

/-- The word of a number without a numeral is lost. -/
theorem lost_of_substitute (free : constantFor? name = none) {result : List Char}
    (substituted : substitute name.toList bindings = .ok result) : Lost result := by
  obtain ⟨back, sound, written⟩ := substitute_of_bound checked member distinct double free
  rw [written] at substituted
  exact keeps_of_writeVariables (fun _ _ y _ pattern text fair => lost_of_replace fair y) sound
    substituted (lost_enclosed x)

end Bound

end Substitution

/-! ## What is left is read -/

open Substitution

/-- A text is read as an expression of arithmetic that binds at least as tightly as a sign. -/
structure Reads (text : List Char) (tree : Expression) (tokens : List Token) : Prop where
  spelled : ∀ others rest, AtBoundary rest → Spelled others rest →
    Spelled (tokens ++ others) (text ++ rest)
  free : ∀ name, identifier name ∈ tokens → NamedFunction.ofName? name = none
  written : ∀ next, ∃ level, Operator.negate.halves ≤ level ∧
    Expression.Written (fun _ => False) next level tree tokens
  wellFormed : tree.WellFormed

namespace Reads

variable {text : List Char} {tree : Expression} {tokens : List Token}

theorem enclosed {y : Float} (finite : y.isFinite = true) :
    Reads (enclosed y) (.literal y) (enclosedTokens y) where
  spelled := fun _ _ _ ofRest => spelled_enclosed finite ofRest
  free := fun name member => by
    unfold enclosedTokens at member
    cases negative : Decimal.signBit y <;> simp [negative] at member
  written := fun next => ⟨_, by decide, Expression.written_enclosed y next⟩
  wellFormed := Expression.wellFormed_of_plain
    (@Expression.plain_literal (fun _ => False) y finite)

theorem word {word : String} (special : word ∈ specialWords) :
    Reads word.toList (.name word) [identifier word] := by
  have known : ∀ word ∈ specialWords, IsWord word.toList ∧
    NamedFunction.ofName? word = none := by decide
  obtain ⟨isWord, unknown⟩ := known word special
  refine ⟨fun _ _ ends ofRest => .identifier isWord ends ofRest, fun name member => ?_,
    fun next => ⟨_, by decide, .name word⟩, .name word⟩
  cases List.mem_singleton.mp member
  exact unknown

theorem group (reads : Reads text tree tokens) :
    Reads ('(' :: (text ++ [')'])) tree (opening :: (tokens ++ [closing])) where
  spelled := fun others rest _ ofRest => by
    have closed : Spelled (closing :: others) (')' :: rest) := spelled_symbol rfl rfl ofRest
    have inside := reads.spelled _ _ (atBoundary_cons (by decide)) closed
    rw [List.cons_append, List.cons_append, List.append_assoc, List.append_assoc]
    exact spelled_symbol rfl rfl inside
  free := fun name member => by
    rw [List.mem_cons, List.mem_append, List.mem_singleton] at member
    rcases member with is | inside | is
    · cases is
    · exact reads.free name inside
    · cases is
  written := fun next => by
    obtain ⟨level, _, written⟩ := reads.written (some closing)
    exact ⟨_, by decide, .enclosed written⟩
  wellFormed := reads.wellFormed

theorem minus (reads : Reads text tree tokens) :
    Reads ('-' :: text) (.negation tree) (operator .subtract :: tokens) where
  spelled := fun others rest ends ofRest => spelled_symbol rfl rfl (reads.spelled _ _ ends ofRest)
  free := fun name member => by
    rcases List.mem_cons.mp member with is | inside
    · cases is
    · exact reads.free name inside
  written := fun next => by
    obtain ⟨level, tight, written⟩ := reads.written next
    exact ⟨_, Nat.le_refl _, .negation written tight⟩
  wellFormed := .negation reads.wellFormed

/-- Where substitution leaves the text of an expression, its value is that of the expression. -/
theorem outcome {given : List Char} {bindings : Bindings} (reads : Reads text tree tokens)
    (substituted : substitute given bindings = .ok text) (settings : Settings) :
    (Scalar.evaluate given bindings settings).outcome.map Prod.fst =
      (tree.value settings.degrees Expression.unbound).mapError Expression.reported := by
  have spelled := reads.spelled [] [] atBoundary_nil .nil
  rw [List.append_nil, List.append_nil] at spelled
  obtain ⟨level, _, written⟩ := reads.written none
  exact Scalar.outcome_of_tokens
    (Scalar.tokens_of_spelled substituted spelled reads.free written settings.lenient) written
    reads.wellFormed

end Reads

/-- What is lost is read as an expression whose value, if it has one, is finite. -/
theorem Substitution.Lost.exists_reads {text : List Char} (lost : Lost text) :
    ∃ tree tokens, Reads text tree tokens ∧ ∀ degrees value,
      tree.value degrees Expression.unbound = .ok value → value.isFinite = true := by
  induction lost with
  | @word word special =>
      refine ⟨_, _, .word special, fun degrees value valued => ?_⟩
      cases valued
  | @number y finite =>
      refine ⟨_, _, .enclosed finite, fun degrees value valued => ?_⟩
      rw [Expression.value_literal finite] at valued
      cases valued
      exact finite
  | group _ ih =>
      obtain ⟨tree, tokens, reads, finite⟩ := ih
      exact ⟨_, _, reads.group, finite⟩
  | minus _ ih =>
      obtain ⟨tree, tokens, reads, finite⟩ := ih
      refine ⟨_, _, reads.minus, fun degrees value negated => ?_⟩
      obtain ⟨size, valued, rfl⟩ := Expression.value_negation_eq_ok.mp negated
      rw [Decimal.isFinite_neg]
      exact finite degrees size valued

/-! ## The value of a bound name -/

/-- Letters are arithmetic. -/
theorem ExpressionKind.of_letters {text : List Char} (letters : ∀ c ∈ text, isLetter c = true) :
    ExpressionKind.of text = .scalar := by
  have absent (c : Char) (other : isLetter c = false) : text.contains c = false := by
    rw [← Bool.not_eq_true, List.contains_iff_mem]
    intro member
    rw [letters c member] at other
    cases other
  have unmarked : ComplexNumber.Unmarked text := by
    have none := @ComplexNumber.unmarked_append_of_not_digit text [] (fun c member =>
      isDecimalDigit_of_isWordLetter (isWordLetter_of_isLetter (letters c member))) .nil
    rwa [List.append_nil] at none
  rw [ExpressionKind.of, absent '[' (by decide), absent '=' (by decide),
    ComplexNumber.occurs_eq_false unmarked]
  rfl

namespace Evaluation

variable {bindings : Bindings} {name : String} {value : BoundValue} {x : Float}

/-- A name evaluates to the number that substitution leaves of it. -/
theorem evaluate_of_enclosed {y : Float} (letters : ∀ c ∈ name.toList, isLetter c = true)
    (substituted : substitute name.toList bindings = .ok (enclosed y)) (finite : y.isFinite = true)
    (settings : Settings) :
    (evaluate name bindings settings).outcome.map Prod.fst = .ok (.number y) := by
  rw [outcome_of_scalar (ExpressionKind.of_letters letters),
    (Reads.enclosed finite).outcome substituted, Expression.value_literal finite]
  rfl

/-- A name whose word is lost has no other values than finite ones. -/
theorem isFinite_of_lost (checked : bindings.check = .ok ()) (member : (↑name, value) ∈ bindings)
    (distinct : bindings.keys.Nodup) (double : value.toDouble = .ok x)
    (free : constantFor? name = none) {settings : Settings} {y : Float}
    (valued : (Scalar.evaluate name.toList bindings settings).outcome.map Prod.fst = .ok y) :
    y.isFinite = true := by
  obtain ⟨result, evaluated, -⟩ := map_eq_ok.mp valued
  rw [Scalar.outcome_evaluate] at evaluated
  obtain ⟨tokens, read, -⟩ := bind_eq_ok.mp evaluated
  obtain ⟨written, _, substituted, -⟩ := Scalar.tokens_eq_ok.mp read
  obtain ⟨tree, tokens, reads, finite⟩ :=
    (lost_of_substitute checked member distinct double free substituted).exists_reads
  rw [reads.outcome substituted] at valued
  cases is : tree.value settings.degrees Expression.unbound with
  | error failure =>
      rw [is] at valued
      cases valued
  | ok z =>
      rw [is] at valued
      cases valued
      exact finite _ _ is

/-- **The value of a bound name.** A text that is just a bound name has its number for its value,
exactly if the number is finite and substitution takes the name for no constant of another value.
The order of the bindings does not matter, nor what else is bound to what, nor any setting. -/
theorem evaluate_bound_iff (checked : bindings.check = .ok ()) (distinct : bindings.keys.Nodup)
    (member : (↑name, value) ∈ bindings) (double : value.toDouble = .ok x) (settings : Settings) :
    (evaluate name bindings settings).outcome.map Prod.fst = .ok (.number x) ↔
      x.isFinite = true ∧ ∀ c, constantFor? name = some c → c = x := by
  obtain ⟨_, letters⟩ := letters_of_bound checked member
  cases taken : constantFor? name with
  | some c =>
      have finite := finite_of_assigned fair_constants taken
      rw [evaluate_of_enclosed letters (substitute_of_constant checked member taken) finite]
      constructor
      · intro same
        cases same
        exact ⟨finite, fun d is => (Option.some.inj is).symm⟩
      · rintro ⟨_, same⟩
        rw [same c rfl]
  | none =>
      cases finite : x.isFinite with
      | true =>
          rw [evaluate_of_enclosed letters
            (substitute_of_finite checked member distinct double taken finite) finite]
          exact ⟨fun _ => ⟨rfl, fun c is => by cases is⟩, fun _ => rfl⟩
      | false =>
          refine ⟨fun valued => ?_, fun given => absurd given.1 Bool.false_ne_true⟩
          rw [outcome_of_scalar (ExpressionKind.of_letters letters)] at valued
          cases ended : (Scalar.evaluate name.toList bindings settings).outcome.map Prod.fst with
          | error failure =>
              rw [ended] at valued
              cases valued
          | ok y =>
              rw [ended] at valued
              cases valued
              have bounded := isFinite_of_lost checked member distinct double taken ended
              rw [finite] at bounded
              cases bounded

/-- A finite number among bindings in any order, one of which is infinite. -/
theorem evaluate_bound_half :
    (evaluate "half" [("inf", .integer 3), ("x", .double (1 / 0)), ("half", .double (-0.5))]
      Settings.defaults).outcome.map Prod.fst = .ok (.number (-0.5)) := by
  have free : (constantFor? "half").isNone = true := by decide
  refine (evaluate_bound_iff rfl (by decide) (List.mem_cons_of_mem _ (List.mem_cons_of_mem _
    List.mem_cons_self)) rfl _).mpr ⟨by decide, fun c taken => ?_⟩
  rw [taken] at free
  cases free

/-- An infinity is accepted for a value, but its word is an unknown name. A name is accepted that is
no constant in lower case, but taken for π. -/
theorem evaluate_bound_infinity :
    (Bindings.check [("x", .double (1 / 0))] = .ok () ∧
      (evaluate "x" [("x", .double (1 / 0))] Settings.defaults).outcome.map Prod.fst =
        .error (.refused (.unknownVariable "inf") (some "x"))) ∧
    (Bindings.check [("p\u0131", .double 5)] = .ok () ∧
      (evaluate "p\u0131" [("p\u0131", .double 5)] Settings.defaults).outcome.map Prod.fst =
        .ok (.number 3.141592653589793)) := by
  constructor
  · have substituted : substitute "x".toList [("x", .double (1 / 0))] =
        .ok ('(' :: ("inf".toList ++ [')'])) := eq_ok_of_toOption (by decide +kernel)
    have word := @Reads.word "inf" (by decide)
    refine ⟨rfl, ?_⟩
    rw [outcome_of_scalar (by decide), word.group.outcome substituted]
    rfl
  · have checked : Bindings.check [("p\u0131", .double 5)] = .ok () := rfl
    have taken : constantFor? "p\u0131" = some 3.141592653589793 := rfl
    refine ⟨checked, evaluate_of_enclosed ?_
      (substitute_of_constant checked List.mem_cons_self taken) (by decide) _⟩
    exact List.all_eq_true.mp (by decide)

end Evaluation

end Reckoner
