import Reckoner.Proofs.Bindings
import Reckoner.Proofs.Case
import Reckoner.Proofs.Instantiation

/-!
# What names stand for

Constants and bound variables are an environment for expressions (`Reckoner.Bindings.environment`).
Substitution writes them into a text by rules, one after the other, where the first rule for a name
decides. What comes out of a writing of an expression is a writing of an expression without names
that has the same value (`Reckoner.Substitution.isText_substitute`).
-/

namespace Reckoner

open Text Outcome

/-- The number that a name stands for: the value of a constant in any case of its letters, or what
the name is bound to. -/
def Bindings.environment (bindings : Bindings) (name : String) : Option Float :=
  (constants.get? (lowerName name)).or
    ((bindings.get? name).bind fun value => value.toDouble.toOption)

/-- All values are finite doubles, or integers that stand for such. -/
def Bindings.Finite (bindings : Bindings) : Prop :=
  ∀ binding ∈ bindings, ∃ x, binding.2.toDouble = .ok x ∧ x.isFinite = true

/-- The same of bindings by texts. -/
def Variables.Finite (bindings : Variables) : Prop :=
  ∀ binding ∈ bindings, ∃ x, binding.2.toDouble = .ok x ∧ x.isFinite = true

theorem Bindings.Finite.texts {bindings : Bindings} (finite : bindings.Finite) :
    bindings.texts.Finite :=
  fun _ member => finite _ (mem_texts.mp member)

namespace Substitution

/-- A number to be written in the place of a name. -/
structure Rule where
  pattern : Pattern
  value : Float

/-- The rule can be trusted with the writing of an expression. -/
structure Rule.Fair (rule : Rule) : Prop where
  pattern : rule.pattern.Fair
  finite : rule.value.isFinite = true

/-- Writes numbers in the places of names, one rule after the other. -/
def writeAll (rules : List Rule) (text : List Char) : List Char :=
  rules.foldl (fun text rule => replace rule.pattern (enclosed rule.value) text) text

/-- The number that the first rule for a name gives it. -/
def assigned : List Rule → String → Option Float
  | [], _ => none
  | rule :: rest, name => if rule.pattern.names name then some rule.value else assigned rest name

theorem assigned_append (first second : List Rule) (name : String) :
    assigned (first ++ second) name = (assigned first name).or (assigned second name) := by
  induction first with
  | nil => rfl
  | cons rule rest ih =>
      rw [List.cons_append, assigned, assigned, ih]
      cases rule.pattern.names name <;> rfl

/-! ## Rules and writings -/

/-- The text is spelled like a writing of the expression in which all products have their signs and
all functions have parentheses. -/
structure IsText (known : String → Prop) (tree : Expression) (text : List Char) : Prop where
  plain : tree.Plain known
  written : ∃ level tokens,
    Expression.Written (fun _ => False) none level tree tokens ∧ Token.Spelled tokens text

variable {known : String → Prop} {tree : Expression} {text : List Char}

/-- A rule replaces names of the expression by its number. -/
theorem isText_replace {rule : Rule} (fair : rule.Fair) (isText : IsText known tree text) :
    IsText (fun name => known name ∧ rule.pattern.names name = false)
      (tree.subst (Expression.assign rule.pattern.names rule.value))
      (replace rule.pattern (enclosed rule.value) text) := by
  obtain ⟨plain, level, tokens, written, spelled⟩ := isText
  exact ⟨Expression.plain_assign fair.finite plain, level, _, Expression.written_subst written,
    spelled_replace fair.pattern fair.finite spelled (Expression.arranged_of_written written)⟩

/-- **Rules, one after the other.** What fair rules make of a writing of an expression is a writing
of an expression that has the same value where names stand for the numbers of the rules. -/
theorem isText_writeAll {rules : List Rule} (fair : ∀ rule ∈ rules, rule.Fair)
    (isText : IsText known tree text) :
    ∃ written, IsText (fun name => known name ∧ assigned rules name = none) written
        (writeAll rules text) ∧
      ∀ degrees environment, written.value degrees environment =
        tree.value degrees fun name => (assigned rules name).or (environment name) := by
  induction rules generalizing known tree text with
  | nil =>
      have same : (fun name => known name ∧ assigned [] name = none) = known :=
        funext fun name => propext (and_iff_left rfl)
      rw [same]
      exact ⟨tree, isText, fun degrees environment => rfl⟩
  | cons rule rest ih =>
      have ofRule := fair rule List.mem_cons_self
      obtain ⟨written, ofRest, value⟩ := ih
        (fun other member => fair other (List.mem_cons_of_mem _ member))
        (isText_replace ofRule isText)
      have same : (fun name => known name ∧ assigned (rule :: rest) name = none) = fun name =>
          (known name ∧ rule.pattern.names name = false) ∧ assigned rest name = none := by
        refine funext fun name => propext ?_
        rw [assigned]
        cases rule.pattern.names name <;> simp
      rw [same]
      refine ⟨written, ofRest, fun degrees environment => ?_⟩
      rw [value, Expression.value_assign ofRule.finite isText.plain]
      congr 1
      refine funext fun name => ?_
      rw [assigned]
      cases rule.pattern.names name <;> rfl

/-! ## Constants -/

/-- The small letters of an ASCII name. -/
theorem lowerName_of_ascii {name : List Char} (ascii : IsAscii name) :
    lowerName (String.ofList name) = String.ofList (name.map Char.toLower) := by
  rw [lowerName, String.toList_ofList]
  exact congrArg String.ofList (lower_of_isAscii ascii)

/-- How a constant is written into a text. -/
def constantRule (entry : String × Float) : Rule :=
  ⟨constantPattern entry.1, entry.2⟩

theorem writeConstants_eq (text : List Char) :
    writeConstants text = writeAll (constants.map constantRule) text := by
  unfold writeConstants writeAll constantRules
  rw [List.foldl_map, List.foldl_map]
  rfl

theorem fair_constantRule {entry : String × Float} (member : entry ∈ constants) :
    (constantRule entry).Fair := by
  have some : ∀ entry ∈ constants, (constantPattern entry.1).spelling ≠ [] := by decide
  have letters : (constants.all fun entry => (constantPattern entry.1).spelling.all
      fun place => place.all isWordLetter) = true := by decide
  have functions : ∀ entry ∈ constants, ∀ known ∈ NamedFunction.table,
      accepts (constantPattern entry.1).spelling (known.1.toList.takeWhile Char.isAlpha) = true →
        (constantPattern entry.1).skipsCalls = true ∧ known.1.toList.all Char.isAlpha = true := by
    decide
  have finite : ∀ entry ∈ constants, entry.2.isFinite = true := by decide
  have ofEntry := List.all_eq_true.mp (List.all_eq_true.mp letters entry member)
  exact ⟨⟨some entry member, fun place inside => List.all_eq_true.mp (ofEntry place inside),
    fun name f known => functions entry member (name, f) known⟩, finite entry member⟩

/-- A constant goes by any case of its letters. -/
theorem names_constantPattern {entry : String × Float} (member : entry ∈ constants) {name : String}
    (areLetters : name.toList.all Char.isAlpha = true) :
    (constantPattern entry.1).names name = decide (entry.1 = lowerName name) := by
  have each (place : Char) (inside : place ∈ entry.1.toList) (c : Char)
      (isLetter : c.isAlpha = true) : (anyCase place).contains c = (place == c.toLower) := by
    have all := forall_isAlpha (p := fun c => constants.all fun entry => entry.1.toList.all
      fun place => (anyCase place).contains c == (place == c.toLower)) (by decide) isLetter
    exact beq_iff_eq.mp (List.all_eq_true.mp (List.all_eq_true.mp all entry member) place inside)
  have accepted : accepts (entry.1.toList.map anyCase) name.toList =
      decide (entry.1.toList = name.toList.map Char.toLower) := by
    generalize entry.1.toList = places at each
    generalize name.toList = word at areLetters
    induction places generalizing word with
    | nil => cases word <;> rfl
    | cons place places ih =>
        cases word with
        | nil => rfl
        | cons c word =>
            rw [List.all_cons, Bool.and_eq_true] at areLetters
            rw [List.map_cons, List.map_cons, accepts, each place List.mem_cons_self c areLetters.1,
              ih (fun other inside => each other (List.mem_cons_of_mem _ inside)) word areLetters.2]
            rw [Bool.eq_iff_iff]
            simp
  have lower : lowerName name = String.ofList (name.toList.map Char.toLower) :=
    congrArg String.ofList (lower_of_isAscii (isAscii_of_all_isAlpha areLetters))
  refine accepted.trans (decide_eq_decide.mpr ?_)
  rw [lower, ← String.toList_inj, String.toList_ofList]

/-- The rules for constants give a name the value of the constant that it is. -/
theorem assigned_constantRule {entries : Entries Float}
    (inside : ∀ entry ∈ entries, entry ∈ constants) {name : String}
    (areLetters : name.toList.all Char.isAlpha = true) :
    assigned (entries.map constantRule) name = entries.get? (lowerName name) := by
  induction entries with
  | nil => rfl
  | cons entry rest ih =>
      have named := names_constantPattern (inside entry List.mem_cons_self) areLetters
      have ofRest := ih fun other member => inside other (List.mem_cons_of_mem _ member)
      rw [List.map_cons, assigned, ofRest]
      change (if (constantPattern entry.1).names name then _ else _) = _
      rw [named, Entries.get?]
      by_cases is : entry.1 = lowerName name
      · rw [if_pos is, decide_eq_true is, if_pos rfl]
        rfl
      · rw [if_neg is, decide_eq_false is, if_neg Bool.false_ne_true]

/-! ## Bound variables -/

/-- How bound variables are written into a text. -/
def bindingRules : Variables → List Rule
  | [] => []
  | (name, value) :: rest =>
      match value.toDouble with
      | .ok x => ⟨⟨exactly name.toList, false⟩, x⟩ :: bindingRules rest
      | .error _ => bindingRules rest

theorem accepts_exactly (name word : List Char) :
    accepts (exactly name) word = decide (name = word) := by
  induction name generalizing word with
  | nil => cases word <;> rfl
  | cons first name ih =>
      cases word with
      | nil => rfl
      | cons c word =>
          change ([first].contains c && accepts (exactly name) word) = _
          rw [ih, Bool.eq_iff_iff]
          simp [@eq_comm _ c first]

/-- A variable goes by its own letters only. -/
theorem names_exactly (variableName name : String) (skipsCalls : Bool) :
    Pattern.names ⟨exactly variableName.toList, skipsCalls⟩ name = decide (variableName = name) :=
  (accepts_exactly _ _).trans (decide_eq_decide.mpr String.toList_inj)

theorem writeVariables_eq {bindings : Variables} (finite : bindings.Finite)
    (text : List Char) :
    writeVariables text bindings = .ok (writeAll (bindingRules bindings) text) := by
  induction bindings generalizing text with
  | nil => rfl
  | cons binding rest ih =>
      obtain ⟨x, double, _⟩ := finite binding List.mem_cons_self
      have ofRest := ih fun other member => finite other (List.mem_cons_of_mem _ member)
      rw [writeVariables, writeVariable, bindingRules, double]
      exact ofRest _

/-- The rules for bindings give a name what it is bound to. -/
theorem assigned_bindingRules {bindings : Variables} (finite : bindings.Finite)
    (name : String) : assigned (bindingRules bindings) name =
      (bindings.get? name).bind fun value => value.toDouble.toOption := by
  induction bindings with
  | nil => rfl
  | cons binding rest ih =>
      obtain ⟨x, double, _⟩ := finite binding List.mem_cons_self
      have ofRest := ih fun other member => finite other (List.mem_cons_of_mem _ member)
      rw [bindingRules, double, Entries.get?]
      change (if Pattern.names ⟨exactly binding.1.toList, false⟩ name then _ else _) = _
      rw [names_exactly]
      by_cases is : binding.1 = name
      · rw [if_pos (decide_eq_true is), if_pos is, Option.bind_some, double]
        rfl
      · rw [decide_eq_false is, if_neg Bool.false_ne_true, if_neg is, ofRest]

/-- A name that can be bound consists of letters and is neither a constant nor a function. -/
theorem unreserved_of_fault? {name : String} {value : BoundValue}
    (sound : Bindings.fault? name value = none) :
    name ≠ "" ∧ name.toList.all isLetter = true ∧ isConstant name = false ∧
      NamedFunction.ofName? name = none := by
  unfold Bindings.fault? at sound
  split at sound
  · cases sound
  · rename_i isName
    split at sound
    · cases sound
    · rename_i unreserved
      simp only [Bool.or_eq_true, Bool.not_eq_true', not_or, Bool.not_eq_true, Bool.not_eq_false,
        Option.isSome_eq_false_iff, Option.isNone_iff_eq_none] at isName unreserved
      refine ⟨?_, isName.2, unreserved⟩
      rintro rfl
      cases isName.1

/-- The letters of the name of a function are the name of a function. -/
theorem ofName?_letters {name : String} {f : NamedFunction}
    (known : (name, f) ∈ NamedFunction.table) :
    (NamedFunction.ofName? (String.ofList (name.toList.takeWhile Char.isAlpha))).isSome = true := by
  have each : ∀ known ∈ NamedFunction.table, (NamedFunction.ofName?
      (String.ofList (known.1.toList.takeWhile Char.isAlpha))).isSome = true := by
    decide
  exact each (name, f) known

/-- A name that can be bound is a word of letters and no function. -/
theorem fair_exactly {name : String} {value : BoundValue}
    (sound : Bindings.fault? name value = none) : Pattern.Fair ⟨exactly name.toList, false⟩ := by
  obtain ⟨some, letters, _, unknown⟩ := unreserved_of_fault? sound
  refine ⟨fun none => ?_, fun place inside c member => ?_, fun other f known accepted => ?_⟩
  · exact some (String.toList_eq_nil_iff.mp (List.map_eq_nil_iff.mp none))
  · obtain ⟨letter, ofName, rfl⟩ := List.mem_map.mp inside
    rw [List.mem_singleton.mp member]
    exact isWordLetter_of_isLetter (List.all_eq_true.mp letters letter ofName)
  · have found := ofName?_letters known
    rw [accepts_exactly, decide_eq_true_eq] at accepted
    rw [← accepted, String.ofList_toList, unknown] at found
    cases found

theorem fair_bindingRules {bindings : Variables}
    (sound : ∀ binding ∈ bindings, Bindings.fault? binding.1 binding.2 = none)
    (finite : bindings.Finite) : ∀ rule ∈ bindingRules bindings, rule.Fair := by
  induction bindings with
  | nil =>
      intro rule member
      exact absurd member List.not_mem_nil
  | cons binding rest ih =>
      obtain ⟨x, double, isFinite⟩ := finite binding List.mem_cons_self
      have ofRest := ih (fun other member => sound other (List.mem_cons_of_mem _ member))
        fun other member => finite other (List.mem_cons_of_mem _ member)
      rw [bindingRules, double]
      exact List.forall_mem_cons.mpr
        ⟨⟨fair_exactly (sound binding List.mem_cons_self), isFinite⟩, ofRest⟩

/-! ## Substitution -/

/-- The name is a word of ASCII letters; if a function goes by it in any case, so does a
constant. -/
def IsName (name : String) : Prop :=
  Token.IsWord name.toList ∧ (isConstant name = true ∨ NamedFunction.ofName? name = none)

instance (name : String) : Decidable (IsName name) :=
  inferInstanceAs (Decidable (_ ∧ _))

theorem assigned_eq_environment {bindings : Bindings} (finite : bindings.Finite) {name : String}
    (isName : IsName name) :
    assigned (constants.map constantRule ++ bindingRules bindings.texts) name =
      bindings.environment name := by
  rw [assigned_append, assigned_constantRule (fun entry member => member) isName.1.2,
    assigned_bindingRules finite.texts, Bindings.get?_texts]
  rfl

/-- A name without a value is no function. -/
theorem ofName?_of_environment {bindings : Bindings} {name : String} (isName : IsName name)
    (none : bindings.environment name = none) : NamedFunction.ofName? name = .none := by
  refine isName.2.resolve_left fun isConstant => ?_
  rw [Bindings.environment, Option.or_eq_none_iff] at none
  rw [Reckoner.isConstant, none.1] at isConstant
  cases isConstant

/-- Substitution writes the constants and then the bound variables. -/
theorem substitute_eq {bindings : Bindings} (checked : bindings.check = .ok ())
    (finite : bindings.Finite) (text : List Char) :
    substitute text bindings =
      .ok (writeAll (constants.map constantRule ++ bindingRules bindings.texts) text) := by
  rw [substitute, checked, writeConstants_eq]
  change writeVariables _ bindings.texts = _
  rw [writeVariables_eq finite.texts, writeAll, writeAll, writeAll,
    List.foldl_append]

/-- **Substitution keeps the value.** With sound and finite bindings, what substitution makes of a
writing of an expression is a writing of an expression that has, on its own, the value of the first
one. Only names that stand for nothing are left. -/
theorem isText_substitute {bindings : Bindings} (checked : bindings.check = .ok ())
    (finite : bindings.Finite) (isText : IsText IsName tree text) :
    ∃ written result, substitute text bindings = .ok result ∧
      IsText (fun name => IsName name ∧ bindings.environment name = none) written result ∧
      ∀ degrees, written.value degrees (fun _ => none) =
        tree.value degrees bindings.environment := by
  obtain ⟨written, ofResult, value⟩ := isText_writeAll
    (List.forall_mem_append.mpr ⟨fun rule member => by
        obtain ⟨entry, inside, rfl⟩ := List.mem_map.mp member
        exact fair_constantRule inside,
      fair_bindingRules (Bindings.fault?_of_check checked) finite.texts⟩) isText
  have same : (fun name => IsName name ∧
      assigned (constants.map constantRule ++ bindingRules bindings.texts) name = none) =
        fun name => IsName name ∧ bindings.environment name = none :=
    funext fun name => propext (and_congr_right fun isName => by
      rw [assigned_eq_environment finite isName])
  rw [same] at ofResult
  refine ⟨written, _, substitute_eq checked finite text, ofResult, fun degrees => ?_⟩
  rw [value]
  refine Expression.value_congr (fun name isName => ?_) isText.plain
  rw [Option.or_none, assigned_eq_environment finite isName]

/-! ## What substitution keeps -/

theorem keeps_of_writeVariables {kept : List Char → Prop} {text written : List Char}
    {bindings : Variables}
    (keeps : ∀ binding ∈ bindings, ∀ x, binding.2.toDouble = .ok x → ∀ (pattern : Pattern) text,
      pattern.Fair → kept text → kept (replace pattern (enclosed x) text))
    (sound : ∀ binding ∈ bindings, Bindings.fault? binding.1 binding.2 = none)
    (wrote : writeVariables text bindings = .ok written) (holds : kept text) : kept written := by
  induction bindings generalizing text with
  | nil =>
      cases wrote
      exact holds
  | cons binding rest ih =>
      obtain ⟨fair, others⟩ := List.forall_mem_cons.mp sound
      obtain ⟨ofFirst, ofOthers⟩ := List.forall_mem_cons.mp keeps
      obtain ⟨next, first, further⟩ := bind_eq_ok.mp wrote
      refine ih ofOthers others further ?_
      unfold writeVariable at first
      dsimp only at first
      split at first
      · rename_i double
        cases first
        exact ofFirst _ double _ _ (fair_exactly fair) holds
      · split at first
        · cases first
          exact holds
        · cases first

/-- **Substitution keeps what the writing of numbers in the places of names keeps.** -/
theorem keeps_of_substitute {kept : List Char → Prop}
    (keeps : ∀ (pattern : Pattern) (x : Float) (text : List Char), pattern.Fair → kept text →
      kept (replace pattern (enclosed x) text))
    {text written : List Char} {bindings : Bindings}
    (substituted : substitute text bindings = .ok written) (holds : kept text) : kept written := by
  obtain ⟨⟨⟩, checked, substituted⟩ := bind_eq_ok.mp substituted
  refine keeps_of_writeVariables (fun _ _ x _ pattern => keeps pattern x)
    (Bindings.fault?_of_check checked) substituted ?_
  rw [writeConstants_eq, writeAll]
  refine List.foldlRecOn _ _ holds fun text holds rule member => ?_
  obtain ⟨entry, inside, rfl⟩ := List.mem_map.mp member
  exact keeps _ _ _ (fair_constantRule inside).pattern holds

end Substitution

end Reckoner
