import Reckoner.Proofs.Reaching
import Reckoner.Proofs.LexemeReplacement

/-!
# Substitution, token by token

Constants and bound variables are written into a text one after the other. Where the marks of
exponents belong to numbers, this is the same as writing numbers in the places of tokens, all at
once (`Reckoner.Substitution.exists_scan_substitute`). The one exception is the constant gamma, which
is a function as well: what is called is looked for in the text as it stands when gamma's turn comes.
-/

namespace Reckoner.Substitution

open Text Token Decimal

/-! ## The patterns that are looked for are apt -/

theorem mem_table_of_ofName? {name : String} {f : NamedFunction}
    (known : NamedFunction.ofName? name = some f) :
    (lowerName name, f) ∈ NamedFunction.table :=
  Entries.mem_of_get? known

theorem toLower_of_isAlpha {c : Char} (isLetter : c.isAlpha = true) :
    c.toLower.isAlpha = true ∧ c.toLower.toLower = c.toLower := by
  have each := forall_isAlpha (p := fun c => c.toLower.isAlpha && c.toLower.toLower == c.toLower)
    (by decide) isLetter
  rwa [Bool.and_eq_true, beq_iff_eq] at each

/-- The small letters of a word are a word. -/
theorem isWord_toLower {word : List Char} (isWord : IsWord word) :
    IsWord (word.map Char.toLower) := by
  refine ⟨fun none => isWord.1 (List.map_eq_nil_iff.mp none), List.all_eq_true.mpr ?_⟩
  intro c member
  obtain ⟨letter, inside, rfl⟩ := List.mem_map.mp member
  exact (toLower_of_isAlpha (List.all_eq_true.mp isWord.2 letter inside)).1

theorem lowerName_word {word : List Char} (isWord : IsWord word) :
    lowerName (String.ofList word) = String.ofList (word.map Char.toLower) :=
  lowerName_of_ascii (isAscii_of_all_isAlpha isWord.2)

theorem lowerName_lowerName {word : List Char} (isWord : IsWord word) :
    lowerName (lowerName (String.ofList word)) = lowerName (String.ofList word) := by
  rw [lowerName_word isWord, lowerName_word (isWord_toLower isWord), List.map_map]
  refine congrArg String.ofList (List.map_congr_left fun c member => ?_)
  exact (toLower_of_isAlpha (List.all_eq_true.mp isWord.2 c member)).2

/-- The table has the small letters of a word with digits if a function goes by the name. -/
theorem mem_table_of_numbered {word digits : List Char} (isWord : IsWord word)
    (areDigits : digits.all Char.isDigit = true) {f : NamedFunction}
    (known : NamedFunction.ofName? (String.ofList (word ++ digits)) = some f) :
    (String.ofList (word.map Char.toLower ++ digits), f) ∈ NamedFunction.table := by
  have inside := mem_table_of_ofName? known
  rwa [lowerName_append_digits isWord areDigits] at inside

/-- The letters of a word with digits behind it. -/
theorem takeWhile_isAlpha_numbered {word digits : List Char} (isWord : IsWord word)
    (areDigits : digits.all Char.isDigit = true) :
    (word ++ digits).takeWhile Char.isAlpha = word := by
  refine takeWhile_append_of_ends (List.all_eq_true.mp isWord.2) fun digit is => ?_
  exact isAlpha_of_isDigit (List.all_eq_true.mp areDigits digit (List.mem_of_mem_head? is))

theorem apt_constantRule {entry : String × Float} (member : entry ∈ constants) :
    (constantRule entry).pattern.Apt := by
  have named {word : List Char} (isWord : IsWord word) :
      accepts (constantPattern entry.1).spelling word =
        decide (entry.1 = lowerName (String.ofList word)) := by
    have names := @names_constantPattern entry member (String.ofList word)
      (by rw [String.toList_ofList]; exact isWord.2)
    rwa [Pattern.names, String.toList_ofList] at names
  have small : ∀ entry ∈ constants, lowerName entry.1 = entry.1 := by decide
  refine ⟨(fair_constantRule member).pattern, ?_, ?_, ?_⟩
  · intro word isWord accepted
    rw [constantRule, named isWord, decide_eq_true_eq] at accepted
    change (NamedFunction.table.get? (lowerName (String.ofList word))).isSome =
      (NamedFunction.table.get? (lowerName entry.1)).isSome
    rw [small entry member, accepted]
  · intro word digits isWord some areDigits accepted
    rw [constantRule, named isWord, decide_eq_true_eq, lowerName_word isWord] at accepted
    have whole : ∀ entry ∈ constants, ∀ known ∈ NamedFunction.table,
        String.ofList (known.1.toList.takeWhile Char.isAlpha) = entry.1 → known.1 = entry.1 := by
      decide
    cases known : NamedFunction.ofName? (String.ofList (word ++ digits)) with
    | none => rfl
    | some f =>
        have inside := whole entry member _ (mem_table_of_numbered isWord areDigits known)
        rw [String.toList_ofList, takeWhile_isAlpha_numbered (isWord_toLower isWord) areDigits,
          accepted] at inside
        have longer := String.ofList_inj.mp (inside rfl)
        exact absurd (List.append_right_eq_self.mp longer) some
  · intro word isWord _
    have lower := lowerName_word isWord
    rw [Pattern.names, constantRule, named isWord, lower, String.toList_ofList,
      named (isWord_toLower isWord), ← lower, lowerName_lowerName isWord]

theorem apt_exactly {name : String} {value : BoundValue}
    (sound : Bindings.fault? name value = none) : Pattern.Apt ⟨exactly name.toList, false⟩ := by
  obtain ⟨_, _, _, unknown⟩ := unreserved_of_fault? sound
  have named {word : List Char} (accepted : accepts (exactly name.toList) word = true) :
      String.ofList word = name := by
    rw [accepts_exactly, decide_eq_true_eq] at accepted
    rw [← accepted, String.ofList_toList]
  refine ⟨fair_exactly sound, ?_, ?_, ?_⟩
  · intro word isWord accepted
    rw [named accepted, unknown]
    rfl
  · intro word digits isWord some areDigits accepted
    cases known : NamedFunction.ofName? (String.ofList (word ++ digits)) with
    | none => rfl
    | some f =>
        have found := ofName?_letters (mem_table_of_numbered isWord areDigits known)
        rw [String.toList_ofList, takeWhile_isAlpha_numbered (isWord_toLower isWord) areDigits,
          ← lowerName_word isWord, NamedFunction.ofName?, lowerName_lowerName isWord] at found
        rw [← named accepted, NamedFunction.ofName?] at unknown
        rw [unknown] at found
        cases found
  · intro word isWord known
    have other : accepts (exactly name.toList) word = false := by
      by_contra accepted
      rw [named (Bool.not_eq_false _ ▸ accepted), unknown] at known
      cases known
    rw [other]
    by_contra accepted
    have same := named (Bool.not_eq_false _ ▸ accepted)
    rw [String.ofList_toList] at same
    rw [← same, NamedFunction.ofName?, lowerName_lowerName isWord] at unknown
    rw [NamedFunction.ofName?, unknown] at known
    cases known

/-! ## One rule after the other -/

/-- The tokens of numbers between parentheses hold no names. -/
theorem putNumbers_enclosed (environment : String → Option Float) (calls : Token → Bool) (x : Float)
    (rest : List Token) :
    putNumbers environment calls (enclosedTokens x ++ rest) =
      enclosedTokens x ++ putNumbers environment calls rest := by
  unfold enclosedTokens
  cases Decimal.signBit x <;> rfl

/-- Without numbers nothing is replaced. -/
theorem putNumbers_none (calls : Token → Bool) (tokens : List Token) :
    putNumbers (fun _ => none) calls tokens = tokens := by
  induction tokens with
  | nil => rfl
  | cons token rest ih =>
      cases token with
      | identifier name => exact congrArg _ ih
      | function name =>
          rw [putNumbers, ih]
          cases rest.head?.any calls <;> rfl
      | _ => exact congrArg _ ih

/-- Numbers for names of variables can be written later as well as at once. -/
theorem putNumbers_putNumbers {first second : String → Option Float} {calls later : Token → Bool}
    {tokens : List Token} (quiet : ∀ name, function name ∈ tokens → second name = none) :
    putNumbers second later (putNumbers first calls tokens) =
      putNumbers (fun name => (first name).or (second name)) calls tokens := by
  induction tokens with
  | nil => rfl
  | cons token rest ih =>
      have ofRest := ih fun name member => quiet name (List.mem_cons_of_mem _ member)
      cases token with
      | identifier name =>
          rw [putNumbers, putNumbers]
          cases first name with
          | none => exact congrArg _ ofRest
          | some x => exact (putNumbers_enclosed _ _ _ _).trans (congrArg _ ofRest)
      | function name =>
          have none := quiet name List.mem_cons_self
          have stays (rest : List Token) : putNumbers second later (function name :: rest) =
              function name :: putNumbers second later rest := by
            rw [putNumbers, none]
            cases rest.head?.any later <;> rfl
          rw [putNumbers, putNumbers, none, Option.or_none]
          split
          · exact (stays _).trans (congrArg _ ofRest)
          · cases first name with
            | none => exact (stays _).trans (congrArg _ ofRest)
            | some x => exact (putNumbers_enclosed _ _ _ _).trans (congrArg _ ofRest)
      | _ => exact congrArg _ ofRest

/-- What comes next is an opening parenthesis, or will be one where a number is written in the place
of a name. -/
def opensNumber (environment : String → Option Float) : Token → Bool
  | opening => true
  | identifier name => (environment name).isSome
  | _ => false

theorem any_isOpening_putNumbers {environment : String → Option Float} {calls : Token → Bool}
    {tokens : List Token} (quiet : ∀ name, function name ∈ tokens → environment name = none) :
    (putNumbers environment calls tokens).head?.any isOpening =
      tokens.head?.any (opensNumber environment) := by
  cases tokens with
  | nil => rfl
  | cons token rest =>
      cases token with
      | identifier name =>
          rw [putNumbers, List.head?_cons, Option.any_some, opensNumber]
          cases environment name <;> rfl
      | function name =>
          rw [putNumbers, quiet name List.mem_cons_self]
          cases rest.head?.any calls <;> rfl
      | _ => rfl

/-- Numbers for names of variables that are written first make calls of what stands before them. -/
theorem putNumbers_after {first second : String → Option Float} {calls : Token → Bool}
    {tokens : List Token} (quiet : ∀ name, function name ∈ tokens → first name = none) :
    putNumbers second isOpening (putNumbers first calls tokens) =
      putNumbers (fun name => (first name).or (second name)) (opensNumber first) tokens := by
  induction tokens with
  | nil => rfl
  | cons token rest ih =>
      have ofRest : ∀ name, function name ∈ rest → first name = none :=
        fun name member => quiet name (List.mem_cons_of_mem _ member)
      have opens := @any_isOpening_putNumbers first calls rest ofRest
      have ih := ih ofRest
      cases token with
      | identifier name =>
          rw [putNumbers, putNumbers]
          cases first name with
          | none => exact congrArg _ ih
          | some x => exact (putNumbers_enclosed _ _ _ _).trans (congrArg _ ih)
      | function name =>
          have stays : putNumbers first calls (function name :: rest) =
              function name :: putNumbers first calls rest := by
            rw [putNumbers, quiet name List.mem_cons_self]
            cases rest.head?.any calls <;> rfl
          rw [stays, putNumbers, putNumbers, opens, ih, quiet name List.mem_cons_self,
            Option.none_or]
      | _ => exact congrArg _ ih

theorem assigned_eq_none {rules : List Rule} {name : String}
    (none : ∀ rule ∈ rules, rule.given name = none) : assigned rules name = .none := by
  induction rules with
  | nil => rfl
  | cons rule rest ih =>
      have unnamed : ¬rule.pattern.names name = true := by
        intro named
        have given := none rule List.mem_cons_self
        rw [Rule.given, if_pos named] at given
        cases given
      rw [assigned, if_neg unnamed, ih fun other member => none other (List.mem_cons_of_mem _ member)]

/-- Writes numbers among tokens, one rule after the other. -/
def putAll (rules : List Rule) (tokens : List Token) : List Token :=
  rules.foldl (fun tokens rule => putNumbers rule.given isOpening tokens) tokens

/-- **Rules among lexemes, one after the other.** -/
theorem lexemes_writeAll {rules : List Rule}
    (apt : ∀ rule ∈ rules, rule.pattern.Apt ∧ rule.value.isFinite = true) {text : List Char}
    {tokens : List Token} (lexemes : Lexemes none text tokens) :
    Lexemes none (writeAll rules text) (putAll rules tokens) := by
  induction rules generalizing text tokens with
  | nil => exact lexemes
  | cons rule rest ih =>
      obtain ⟨ofRule, finite⟩ := apt rule List.mem_cons_self
      exact ih (fun other member => apt other (List.mem_cons_of_mem _ member))
        (lexemes_replaceFrom ofRule finite lexemes fun _ => rfl)

/-- Rules for names of variables only can be written all at once. -/
theorem putAll_putNumbers {rules : List Rule} {first : String → Option Float}
    {calls : Token → Bool} {tokens : List Token}
    (quiet : ∀ rule ∈ rules, ∀ name, function name ∈ tokens → rule.given name = none) :
    putAll rules (putNumbers first calls tokens) =
      putNumbers (fun name => (first name).or (assigned rules name)) calls tokens := by
  induction rules generalizing first with
  | nil =>
      have same : (fun name => (first name).or (assigned [] name)) = first :=
        funext fun name => Option.or_none
      rw [same]
      rfl
  | cons rule rest ih =>
      have ofRest := @ih (fun name => (first name).or (rule.given name))
        fun other member => quiet other (List.mem_cons_of_mem _ member)
      have same : (fun name => (first name).or (assigned (rule :: rest) name)) =
          fun name => ((first name).or (rule.given name)).or (assigned rest name) := by
        refine funext fun name => ?_
        rw [assigned, Rule.given, Option.or_assoc]
        cases rule.pattern.names name <;> rfl
      rw [same, ← ofRest, ← putNumbers_putNumbers (quiet rule List.mem_cons_self)]
      rfl

/-! ## All rules at once -/

/-- The name of a function among lexemes is in the table. -/
theorem function_of_lexemes {before : Option Char} {text : List Char} {tokens : List Token}
    (lexemes : Lexemes before text tokens) {name : String} (member : function name ∈ tokens) :
    ∃ f, (name, f) ∈ NamedFunction.table := by
  have ofName {word : List Char} (is : function name = ofName word) :
      ∃ f, (name, f) ∈ NamedFunction.table := by
    unfold Token.ofName at is
    dsimp only at is
    split at is
    · rename_i known
      cases is
      obtain ⟨f, known⟩ := Option.isSome_iff_exists.mp known
      exact ⟨f, mem_table_of_ofName? known⟩
    · cases is
  induction lexemes with
  | nil => cases member
  | blank _ _ ih => exact ih member
  | symbol ascii is _ ih =>
      rcases List.mem_cons.mp member with rfl | member
      · exact absurd is (ne_function_of_ascii ascii)
      · exact ih member
  | number _ _ _ _ ih =>
      rcases List.mem_cons.mp member with same | member
      · cases same
      · exact ih member
  | word _ _ _ _ _ _ ih | numbered _ _ _ _ _ _ _ ih =>
      rcases List.mem_cons.mp member with same | member
      · exact ofName same
      · exact ih member

/-- The name of a variable among lexemes is a word and no function. -/
theorem identifier_of_lexemes {before : Option Char} {text : List Char} {tokens : List Token}
    (lexemes : Lexemes before text tokens) {name : String} (member : identifier name ∈ tokens) :
    IsWord name.toList ∧ NamedFunction.ofName? name = none := by
  induction lexemes with
  | nil => cases member
  | blank _ _ ih => exact ih member
  | symbol _ is _ ih =>
      rcases List.mem_cons.mp member with rfl | member
      · exact absurd is ofChar?_ne_identifier
      · exact ih member
  | number _ _ _ _ ih =>
      rcases List.mem_cons.mp member with same | member
      · cases same
      · exact ih member
  | word isWord _ _ _ _ _ ih =>
      rcases List.mem_cons.mp member with same | member
      · unfold ofName at same
        dsimp only at same
        split at same
        · cases same
        · rename_i unknown
          cases same
          rw [String.toList_ofList]
          exact ⟨isWord, Option.not_isSome_iff_eq_none.mp unknown⟩
      · exact ih member
  | numbered _ _ _ known _ _ _ ih =>
      rcases List.mem_cons.mp member with same | member
      · unfold ofName at same
        dsimp only at same
        rw [if_pos known] at same
        cases same
      · exact ih member

/-- The tokens with numbers in the places of variables and of the constant gamma, which is a
function as well and stays where the next token makes a call of it. -/
def substituteTokens (environment : String → Option Float) (calls : Token → Bool) :
    List Token → List Token
  | [] => []
  | identifier name :: rest =>
      putNumber (environment name) (identifier name) ++ substituteTokens environment calls rest
  | function name :: rest =>
      (if name = "gamma" ∧ rest.head?.any calls = false then
        putNumber (constants.get? name) (function name) else [function name]) ++
          substituteTokens environment calls rest
  | token :: rest => token :: substituteTokens environment calls rest

theorem putNumbers_eq_substituteTokens {first second : String → Option Float}
    {calls others : Token → Bool} {tokens : List Token}
    (ofVariables : ∀ name, identifier name ∈ tokens → first name = second name)
    (ofFunctions : ∀ name, function name ∈ tokens →
      first name = if name = "gamma" then constants.get? name else none)
    (same : ∀ token ∈ tokens, calls token = others token) :
    putNumbers first calls tokens = substituteTokens second others tokens := by
  induction tokens with
  | nil => rfl
  | cons token rest ih =>
      have ofRest := ih (fun name member => ofVariables name (List.mem_cons_of_mem _ member))
        (fun name member => ofFunctions name (List.mem_cons_of_mem _ member))
        fun other member => same other (List.mem_cons_of_mem _ member)
      cases token with
      | identifier name =>
          rw [putNumbers, substituteTokens, ofRest, ofVariables name List.mem_cons_self]
      | function name =>
          have next : rest.head?.any calls = rest.head?.any others := by
            cases rest with
            | nil => rfl
            | cons token rest => exact same token (List.mem_cons_of_mem _ List.mem_cons_self)
          rw [putNumbers, substituteTokens, ofRest, ofFunctions name List.mem_cons_self, next]
          by_cases gamma : name = "gamma"
          · simp only [gamma, if_true, true_and]
            cases rest.head?.any others <;> rfl
          · simp only [gamma, if_false, false_and]
            cases rest.head?.any others <;> rfl
      | _ => exact congrArg _ ofRest

/-- What comes next makes a call of the constant gamma when its turn comes: an opening parenthesis, or
another constant, which has been written between parentheses by then. -/
def opensConstant : Token → Bool
  | opening => true
  | identifier name => isConstant name
  | _ => false

/-- The constants that are no functions. They are written first. -/
def variableConstants : Entries Float :=
  constants.dropLast

/-- How the constant is written that is a function as well. -/
def gammaRule : Rule :=
  constantRule ("gamma", 0.5772156649015329)

theorem constants_eq : constants = variableConstants ++ [("gamma", 0.5772156649015329)] :=
  rfl

section Constants

variable {name : String}

/-- Of the names of functions, the rules for constants know gamma only. -/
theorem names_of_mem_table {f : NamedFunction} (known : (name, f) ∈ NamedFunction.table) :
    (∀ entry ∈ variableConstants, (constantPattern entry.1).names name = false) ∧
      (constantPattern "gamma").names name = decide (name = "gamma") := by
  have quiet : ∀ entry ∈ variableConstants, ∀ known ∈ NamedFunction.table,
      (constantPattern entry.1).names known.1 = false := by decide
  have gamma : ∀ known ∈ NamedFunction.table,
      (constantPattern "gamma").names known.1 = decide (known.1 = "gamma") := by decide
  exact ⟨fun entry member => quiet entry member _ known, gamma _ known⟩

theorem given_variableConstants {f : NamedFunction} (known : (name, f) ∈ NamedFunction.table) :
    ∀ rule ∈ variableConstants.map constantRule, rule.given name = none := by
  intro rule member
  obtain ⟨entry, inside, rfl⟩ := List.mem_map.mp member
  exact if_neg (Bool.eq_false_iff.mp ((names_of_mem_table known).1 entry inside))

theorem given_gammaRule {f : NamedFunction} (known : (name, f) ∈ NamedFunction.table) :
    gammaRule.given name = if name = "gamma" then constants.get? name else none := by
  rw [Rule.given, gammaRule, constantRule, (names_of_mem_table known).2]
  by_cases gamma : name = "gamma"
  · rw [if_pos (decide_eq_true gamma), if_pos gamma, gamma]
    rfl
  · rw [decide_eq_false gamma, if_neg gamma, if_neg Bool.false_ne_true]

/-- A variable that is a constant is one that is no function. -/
theorem isSome_assigned_constantRule (isWord : IsWord name.toList)
    (unknown : NamedFunction.ofName? name = none) :
    (assigned (variableConstants.map constantRule) name).isSome = isConstant name := by
  have other : "gamma" ≠ lowerName name := by
    intro same
    rw [NamedFunction.ofName?, ← same] at unknown
    cases unknown
  have all : constants.get? (lowerName name) = variableConstants.get? (lowerName name) := by
    have unlisted : Entries.get? [("gamma", (0.5772156649015329 : Float))] (lowerName name) = none :=
      if_neg other
    rw [constants_eq, Entries.get?_append, unlisted, Option.or_none]
  have inside : ∀ entry ∈ variableConstants, entry ∈ constants :=
    fun entry member => List.dropLast_subset _ member
  rw [assigned_constantRule inside isWord.2, isConstant, all]

end Constants

/-- Variables that are bound are no functions. -/
theorem given_bindingRules {bindings : Variables}
    (sound : ∀ binding ∈ bindings, Bindings.fault? binding.1 binding.2 = none)
    (finite : bindings.Finite) {rule : Rule} (member : rule ∈ bindingRules bindings) :
    (rule.pattern.Apt ∧ rule.value.isFinite = true) ∧
      ∀ name f, (name, f) ∈ NamedFunction.table → rule.given name = none := by
  induction bindings with
  | nil => cases member
  | cons binding rest ih =>
      obtain ⟨x, double, isFinite⟩ := finite binding List.mem_cons_self
      rw [bindingRules, double] at member
      rcases List.mem_cons.mp member with rfl | member
      · have ofBinding := sound binding List.mem_cons_self
        refine ⟨⟨apt_exactly ofBinding, isFinite⟩, fun name f known => ?_⟩
        obtain ⟨_, _, _, unknown⟩ := unreserved_of_fault? ofBinding
        have other : binding.1 ≠ name := by
          rintro rfl
          rw [(ofName_of_mem_table known).1] at unknown
          cases unknown
        rw [Rule.given, names_exactly, decide_eq_false other, if_neg Bool.false_ne_true]
      · exact ih (fun other inside => sound other (List.mem_cons_of_mem _ inside))
          (fun other inside => finite other (List.mem_cons_of_mem _ inside)) member

section Checked

variable {bindings : Bindings} (checked : bindings.check = .ok ()) (finite : bindings.Finite)

include checked finite

/-- **All rules at once.** What the rules make of the tokens of lexemes, one after the other. -/
theorem putAll_eq {text : List Char} {before : Option Char} {tokens : List Token}
    (lexemes : Lexemes before text tokens) :
    putAll (constants.map constantRule ++ bindingRules bindings.texts) tokens =
      substituteTokens bindings.environment opensConstant tokens := by
  have quietConstants : ∀ rule ∈ variableConstants.map constantRule, ∀ name,
      function name ∈ tokens → rule.given name = none := by
    intro rule member name inside
    obtain ⟨f, known⟩ := function_of_lexemes lexemes inside
    exact given_variableConstants known rule member
  have quietBindings : ∀ rule ∈ bindingRules bindings.texts, ∀ name, function name ∈ tokens →
      rule.given name = none := by
    intro rule member name inside
    obtain ⟨f, known⟩ := function_of_lexemes lexemes inside
    exact (given_bindingRules (Bindings.fault?_of_check checked) finite.texts member).2 name f known
  have unnamed {rules : List Rule} (quiet : ∀ rule ∈ rules, ∀ name, function name ∈ tokens →
      rule.given name = none) {name : String} (inside : function name ∈ tokens) :
      assigned rules name = none :=
    assigned_eq_none fun rule member => quiet rule member name inside
  have first : putAll (variableConstants.map constantRule) tokens =
      putNumbers (assigned (variableConstants.map constantRule)) isOpening tokens := by
    have all := @putAll_putNumbers _ (fun _ => none) isOpening tokens quietConstants
    rw [putNumbers_none] at all
    exact all
  have steps : putAll (constants.map constantRule ++ bindingRules bindings.texts) tokens =
      putAll (bindingRules bindings.texts) (putNumbers gammaRule.given isOpening
        (putAll (variableConstants.map constantRule) tokens)) := by
    rw [putAll, List.foldl_append]
    rfl
  rw [steps, first, putNumbers_after fun name => unnamed quietConstants,
    putAll_putNumbers quietBindings]
  apply putNumbers_eq_substituteTokens
  · intro name inside
    obtain ⟨isWord, unknown⟩ := identifier_of_lexemes lexemes inside
    have ofConstants : assigned (constants.map constantRule) name =
        (assigned (variableConstants.map constantRule) name).or (gammaRule.given name) := by
      rw [constants_eq, List.map_append, assigned_append]
      rfl
    rw [← assigned_eq_environment finite ⟨isWord, .inr unknown⟩, assigned_append, ofConstants]
  · intro name inside
    obtain ⟨f, known⟩ := function_of_lexemes lexemes inside
    rw [unnamed quietConstants inside, unnamed quietBindings inside, Option.none_or, Option.or_none,
      given_gammaRule known]
  · intro token inside
    cases token with
    | identifier name =>
        obtain ⟨isWord, unknown⟩ := identifier_of_lexemes lexemes inside
        exact isSome_assigned_constantRule isWord unknown
    | _ => rfl

/-- **Substitution among lexemes.** -/
theorem lexemes_substitute {text : List Char} {tokens : List Token}
    (lexemes : Lexemes none text tokens) :
    ∃ result, substitute text bindings = .ok result ∧
      Lexemes none result (substituteTokens bindings.environment opensConstant tokens) := by
  have apt : ∀ rule ∈ constants.map constantRule ++ bindingRules bindings.texts,
      rule.pattern.Apt ∧ rule.value.isFinite = true := by
    intro rule member
    rcases List.mem_append.mp member with ofConstant | ofBinding
    · obtain ⟨entry, inside, rfl⟩ := List.mem_map.mp ofConstant
      exact ⟨apt_constantRule inside, (fair_constantRule inside).finite⟩
    · exact (given_bindingRules (Bindings.fault?_of_check checked) finite.texts ofBinding).1
  refine ⟨_, substitute_eq checked finite text, ?_⟩
  rw [← putAll_eq checked finite lexemes]
  exact lexemes_writeAll apt lexemes

end Checked

/-! ## The constant gamma before another constant -/

/-- No name of the constant gamma that could be a function stands directly before a constant. -/
def GammaApart (tokens : List Token) : Prop :=
  tokens.IsChain fun token next => token = function "gamma" →
    ∀ name, next = identifier name → isConstant name = false

/-- Another constant behind gamma is the only thing that is taken for the arguments of a call and is
none. -/
theorem substituteTokens_eq_iff (environment : String → Option Float) (tokens : List Token) :
    substituteTokens environment opensConstant tokens =
      substituteTokens environment isOpening tokens ↔ GammaApart tokens := by
  induction tokens with
  | nil => exact iff_of_true rfl .nil
  | cons token rest ih =>
      rw [GammaApart, List.isChain_cons, ← GammaApart, ← ih]
      by_cases gamma : token = function "gamma"
      · subst gamma
        rw [substituteTokens, substituteTokens]
        by_cases apart : ∀ next ∈ rest.head?, ∀ name, next = identifier name →
            isConstant name = false
        · have calls : rest.head?.any opensConstant = rest.head?.any isOpening := by
            cases rest with
            | nil => rfl
            | cons next rest =>
                cases next with
                | identifier name => exact apart _ rfl name rfl
                | _ => rfl
          rw [calls, List.append_right_inj, and_iff_right fun next is _ => apart next is]
        · simp only [not_forall, Bool.not_eq_false] at apart
          obtain ⟨next, is, name, rfl, constant⟩ := apart
          have head : rest.head? = some (identifier name) := is
          have calls : (some (identifier name)).any opensConstant = true := constant
          rw [head, calls, if_neg nofun, if_pos ⟨rfl, rfl⟩]
          apply iff_of_false
          · intro same
            cases (List.cons.inj same).1
          · intro both
            rw [both.1 _ rfl rfl name rfl] at constant
            cases constant
      · have quiet : ∀ next ∈ rest.head?, token = function "gamma" →
            ∀ name, next = identifier name → isConstant name = false :=
          fun next is other => absurd other gamma
        rw [and_iff_right quiet]
        cases token with
        | identifier name => exact List.append_right_inj _
        | function name =>
            have other : name ≠ "gamma" := fun same => gamma (congrArg function same)
            simp only [substituteTokens, other, false_and, if_false]
            exact List.append_right_inj _
        | _ => simp only [substituteTokens, List.cons.injEq, true_and]

/-! ## The order of bindings -/

theorem environment_of_perm {bindings other : Bindings} (same : other.Perm bindings)
    (distinct : bindings.keys.Nodup) : other.environment = bindings.environment := by
  funext name
  rw [Bindings.environment, Bindings.environment, Entries.get?_eq_of_perm same distinct]

/-- **Substitution, token by token.** Take an ASCII text that is read, with all marks of exponents in
numbers, and sound and finite bindings under different names. In any order of the bindings, what
substitution writes is read as the tokens of the text with numbers in the places of names, where gamma
stays in front of another constant as if it were called. So the tokens are those with gamma left alone
in front of an opening parenthesis only exactly if no constant stands behind gamma. -/
theorem exists_scan_substitute {text : List Char} {tokens : List Token} {bindings : Bindings}
    (ascii : IsAscii text) (scanned : scan false text = .ok tokens) (marks : MarksRead text)
    (checked : bindings.check = .ok ()) (finite : bindings.Finite)
    (distinct : bindings.keys.Nodup) {other : Bindings} (same : other.Perm bindings) :
    ∃ result, substitute text other = .ok result ∧
      scan false result = .ok (substituteTokens bindings.environment opensConstant tokens) ∧
      (scan false result = .ok (substituteTokens bindings.environment isOpening tokens) ↔
        GammaApart tokens) := by
  have lexemes := lexemes_of_scan ascii marks scanned
  have finite : other.Finite := fun binding member => finite binding (same.mem_iff.mp member)
  obtain ⟨result, written, ofResult⟩ :=
    lexemes_substitute (Bindings.check_of_perm same checked) finite lexemes
  rw [environment_of_perm same distinct] at ofResult
  have read := @scan_of_lexemes result false none _ ofResult
  refine ⟨result, written, read, ?_⟩
  rw [read, Except.ok.injEq]
  exact substituteTokens_eq_iff _ _

/-- A negative number goes in the place of `x`, and gamma is a constant at the end of a text. -/
theorem exists_scan_substitute_negative :
    ∃ result, substitute "x-gamma".toList [("y", .double 2), ("x", .integer (-3))] = .ok result ∧
      scan false result = .ok [opening, operator .subtract, number 3, closing, operator .subtract,
        opening, number 0.5772156649015329, closing] := by
  have lexemes : Lexemes none "x-gamma".toList
      [identifier "x", operator .subtract, function "gamma"] := by
    apply @Lexemes.word none ['x'] "-gamma".toList _ (by decide) rfl rfl nofun rfl
    apply @Lexemes.symbol (some 'x') '-' _ "gamma".toList _ (by decide) rfl
    exact @Lexemes.word (some '-') "gamma".toList [] [] (by decide) rfl rfl nofun rfl .nil
  have ascii : IsAscii "x-gamma".toList := by decide
  have marks : MarksRead "x-gamma".toList := marksRead_of_unmarked (by decide)
  have finite : Bindings.Finite [("x", .integer (-3)), ("y", .double 2)] := by
    refine List.forall_mem_cons.mpr ⟨⟨-3, rfl, by decide⟩, ?_⟩
    exact List.forall_mem_singleton.mpr ⟨2, rfl, by decide⟩
  have apart : GammaApart [identifier "x", operator .subtract, function "gamma"] := by
    simp [GammaApart]
  have swapped : List.Perm (α := BoundName × BoundValue) [("y", .double 2), ("x", .integer (-3))]
      [("x", .integer (-3)), ("y", .double 2)] := .swap _ _ _
  obtain ⟨result, written, _, read⟩ := exists_scan_substitute ascii (scan_of_lexemes lexemes) marks
    rfl finite (by decide) swapped
  exact ⟨result, written, read.mpr apart⟩

/-- In front of another constant gamma is not replaced, although no opening parenthesis follows in
the text. -/
theorem scan_substitute_gamma_pi :
    IsAscii "gamma pi".toList ∧ MarksRead "gamma pi".toList ∧
      Bindings.check [] = .ok () ∧ Bindings.Finite [] ∧
      scan false "gamma pi".toList = .ok [function "gamma", identifier "pi"] ∧
      ∃ result, substitute "gamma pi".toList [] = .ok result ∧
        scan false result ≠ .ok (substituteTokens (Bindings.environment []) isOpening
          [function "gamma", identifier "pi"]) := by
  have lexemes : Lexemes none "gamma pi".toList [function "gamma", identifier "pi"] := by
    apply @Lexemes.word none "gamma".toList " pi".toList _ (by decide) rfl rfl nofun rfl
    apply Lexemes.blank (by decide)
    exact @Lexemes.word (some ' ') "pi".toList [] [] (by decide) rfl rfl nofun rfl .nil
  obtain ⟨result, written, ofResult⟩ := @lexemes_substitute [] rfl nofun _ _ lexemes
  refine ⟨by decide, marksRead_of_unmarked (by decide), rfl, nofun, scan_of_lexemes lexemes, result,
    written, fun read => ?_⟩
  rw [scan_of_lexemes ofResult, Except.ok.injEq, substituteTokens_eq_iff] at read
  have constant : isConstant "pi" = false :=
    (List.isChain_cons_cons.mp read).1 rfl "pi" rfl
  exact absurd constant (by decide)

end Reckoner.Substitution
