import Reckoner.Proofs.RespelledReading
import Reckoner.Proofs.Stages

/-!
# The symbol π

Where no letter stands next to it, the symbol π may be replaced by the name pi between blanks: it
makes no difference to an evaluation (`Reckoner.Scalar.evaluate_namePi`). Next to letters it is one
of the letters of a name.
-/

namespace Reckoner

open Text Token Outcome

namespace Substitution

/-- The text with the name pi, between blanks, in the place of each symbol π. -/
def namePi (text : List Char) : List Char :=
  text.flatMap fun c => if c = 'π' then [' ', 'p', 'i', ' '] else [c]

/-- No letter stands next to a symbol π. -/
def PiAlone (text : List Char) : Prop :=
  text.IsChain fun c d =>
    (c = 'π' → isWordLetter d = false) ∧ (d = 'π' → isWordLetter c = false)

instance (text : List Char) : Decidable (PiAlone text) :=
  inferInstanceAs (Decidable (text.IsChain _))

/-! ## The symbol among words -/

theorem PiAlone.neighbours {front rest : List Char} (alone : PiAlone (front ++ 'π' :: rest)) :
    (lastOf none front).any isWordLetter = false ∧ startsWithLetter rest = false := by
  obtain ⟨_, behind, joint⟩ := List.isChain_append.mp alone
  constructor
  · rw [lastOf_none]
    cases last : front.getLast? with
    | none => rfl
    | some c => exact (joint c last 'π' rfl).2 rfl
  · cases rest with
    | nil => rfl
    | cons d rest => exact (List.isChain_cons_cons.mp behind).1.1 rfl

/-- The symbol is a word of its own. -/
theorem worded_of_piAlone {text : List Char} (alone : PiAlone text) :
    Worded (fun word => word = ['π'] ∨ 'π' ∉ word) text := by
  refine @worded _ none text (fun _ => rfl) fun front word rest split areLetters _ _ => ?_
  by_cases member : 'π' ∈ word
  · left
    obtain ⟨first, last, rfl⟩ := List.append_of_mem member
    obtain ⟨before, after⟩ : (lastOf none (front ++ first)).any isWordLetter = false ∧
        startsWithLetter (last ++ rest) = false := by
      rw [split, List.append_assoc, ← List.append_assoc] at alone
      exact alone.neighbours
    obtain ⟨ofFirst, ofLast⟩ := List.forall_mem_append.mp areLetters
    have none : last = [] := by
      cases last with
      | nil => rfl
      | cons c last => exact absurd (ofLast c (by simp)) (Bool.eq_false_iff.mp after)
    rcases List.eq_nil_or_concat first with rfl | ⟨others, c, rfl⟩
    · rw [none]
      rfl
    · rw [List.concat_eq_append] at before ofFirst
      rw [lastOf_append, lastOf_append] at before
      exact absurd (ofFirst c (by simp)) (Bool.eq_false_iff.mp before)
  · exact .inr member

/-- A given part, and another one between blanks. -/
def Spaced (symbol name part part' : List Char) : Prop :=
  part = symbol ∧ part' = ' ' :: (name ++ [' '])

theorem namePi_append (first second : List Char) :
    namePi (first ++ second) = namePi first ++ namePi second :=
  List.flatMap_append

theorem namePi_eq_self {part : List Char} (none : 'π' ∉ part) : namePi part = part := by
  induction part with
  | nil => rfl
  | cons c part ih =>
      rw [List.mem_cons, not_or] at none
      have others := ih none.2
      unfold namePi at others ⊢
      rw [List.flatMap_cons, if_neg (Ne.symm none.1), others]
      rfl

theorem respelled_namePi {text : List Char}
    (worded : Worded (fun word => word = ['π'] ∨ 'π' ∉ word) text) :
    Respelled (Spaced ['π'] ['p', 'i']) text (namePi text) := by
  induction worded with
  | nil => exact .nil
  | @other c rest stops _ ih =>
      have other : 'π' ∉ [c] := by
        rw [List.mem_singleton]
        rintro rfl
        exact absurd stops (by decide)
      have split : namePi (c :: rest) = [c] ++ namePi rest := by
        rw [← List.singleton_append, namePi_append, namePi_eq_self other]
      rw [split]
      exact .other stops ih
  | @word word rest nonempty areLetters ends ofWord _ ih =>
      rw [namePi_append]
      rcases ofWord with rfl | none
      · exact .swapped ⟨rfl, rfl⟩ ends ih
      · rw [namePi_eq_self none]
        exact .word nonempty areLetters ends ih

/-! ## Writing the constant -/

section Spaced

variable {symbol symbol' name name' insert word : List Char} {pattern : Pattern} {x : Float}

theorem keepsApart_spaced {c : Char} {rest : List Char} (other : joinsNumber c = false)
    (name : List Char) : KeepsApart (Spaced (c :: rest) name) where
  first := by
    rintro _ _ ⟨rfl, rfl⟩
    exact ⟨c, rest, rfl, other⟩
  second := by
    rintro _ _ ⟨rfl, rfl⟩
    exact ⟨' ', _, rfl, by decide⟩
  letters := by
    rintro _ _ ⟨rfl, rfl⟩ _
    rw [startsWithLetter]
    decide

theorem makes_spaced (fair : pattern.Fair) (makes : pattern.Makes insert name name') :
    pattern.Makes insert (' ' :: (name ++ [' '])) (' ' :: (name' ++ [' '])) := by
  intro rest before _ _
  have blank : isWordLetter ' ' = false := by decide
  have inside := @makes (' ' :: rest) (some ' ') (fun _ => blank) blank
  rw [replaceFrom_cons fair _ blank] at inside
  have last : lastOf before (' ' :: (name ++ [' '])) = some ' ' := by
    rw [← List.cons_append, lastOf_append]
    rfl
  rw [last, List.cons_append, List.append_assoc, List.singleton_append,
    replaceFrom_cons fair _ blank, inside, List.cons_append, List.append_assoc,
    List.singleton_append]

theorem rewrites_spaced (fair : pattern.Fair) (first : pattern.Makes insert symbol symbol')
    (second : pattern.Makes insert name name') :
    pattern.Rewrites insert (Spaced symbol name) (Spaced symbol' name') := by
  rintro _ _ rest rest' before ⟨rfl, rfl⟩ atWord _ ends ends'
  refine ⟨_, _, .inl ⟨rfl, rfl⟩, first atWord ends, makes_spaced fair second ?_ ends'⟩
  intro letter
  exact absurd letter (by rw [startsWithLetter]; decide)

/-- A number between parentheses is left alone. -/
theorem leavesAlone_enclosed (fair : pattern.Fair) (finite : x.isFinite = true) :
    pattern.LeavesAlone (enclosed x) := by
  intro insert rest before _ _
  have last : lastOf before (enclosed x) = some ')' := by
    rw [enclosed, lastOf_append]
    rfl
  rw [replaceFrom_enclosed fair finite, last]

theorem leavesParts_spaced (fair : pattern.Fair) (finite : x.isFinite = true) :
    pattern.LeavesParts (Spaced (enclosed x) (enclosed x)) := by
  have alone := leavesAlone_enclosed fair finite
  rintro _ _ ⟨rfl, rfl⟩
  exact ⟨alone, fun insert => makes_spaced fair (alone insert)⟩

theorem seesSameCalls_spaced (pattern : Pattern) :
    pattern.SeesSameCalls (Spaced (enclosed x) (enclosed x)) := by
  have opens (rest : List Char) : startsCall (enclosed x ++ rest) = true := by
    rw [enclosed_append, startsCall_cons (by decide)]
    rfl
  intro _ text text' respelled
  refine respelled.startsCall_eq ?_
  rintro _ _ rest rest' ⟨rfl, rfl⟩
  rw [List.cons_append, startsCall_blank (by decide), List.append_assoc, opens, opens]

/-- A name that is no mark of an exponent and no function is written for wherever it stands. -/
theorem makes_insert (fair : pattern.Fair) (skips : pattern.skipsCalls = false)
    (nonempty : word ≠ []) (areLetters : ∀ c ∈ word, isWordLetter c = true)
    (accepted : accepts pattern.spelling word = true) (unmarked : isMark word = false)
    (insert : List Char) : pattern.Makes insert word insert := by
  refine makes_word fair nonempty areLetters true (fun before rest => ?_) insert
  have mark : isExponentMark before word rest = false := by
    change (isMark word && _ && _) = false
    rw [unmarked]
    rfl
  rw [Pattern.writesFor, accepted, skips, mark]
  rfl

end Spaced

theorem fair_constantPattern {name : String} (known : name ∈ constants.keys) :
    (constantPattern name).Fair := by
  obtain ⟨entry, member, rfl⟩ := List.mem_map.mp known
  exact (fair_constantRule member).pattern

/-- The name becomes the number, and the symbol stays. -/
theorem rewrites_name (insert : List Char) :
    (constantPattern "pi").Rewrites insert (Spaced ['π'] ['p', 'i']) (Spaced ['π'] insert) := by
  have fair : (constantPattern "pi").Fair := fair_constantPattern (by decide)
  have areLetters := @isWordLetter_of_all_isAlpha ['p', 'i'] rfl
  have isSymbol : ∀ c ∈ ['π'], isWordLetter c = true := List.forall_mem_singleton.mpr (by decide)
  exact rewrites_spaced fair
    (leavesAlone_of_word fair (List.cons_ne_nil _ _) isSymbol (by decide) insert)
    (makes_insert fair (by decide) (List.cons_ne_nil _ _) areLetters (by decide) (by decide) insert)

/-- The symbol becomes the number as well. -/
theorem rewrites_symbol {x : Float} (finite : x.isFinite = true) :
    (constantPattern "π").Rewrites (enclosed x) (Spaced ['π'] (enclosed x))
      (Spaced (enclosed x) (enclosed x)) := by
  have fair : (constantPattern "π").Fair := fair_constantPattern (by decide)
  have isSymbol : ∀ c ∈ ['π'], isWordLetter c = true := List.forall_mem_singleton.mpr (by decide)
  exact rewrites_spaced fair
    (makes_insert fair (by decide) (List.cons_ne_nil _ _) isSymbol (by decide) (by decide) _)
    (leavesAlone_enclosed fair finite _)

/-- The constants are written into both texts: the same number comes in the places of the symbol and
of the name. -/
theorem respelled_writeConstants {text : List Char} (alone : PiAlone text) :
    ∃ x : Float, x.isFinite = true ∧
      Respelled (Spaced (enclosed x) (enclosed x)) (writeConstants text)
        (writeConstants (namePi text)) := by
  obtain ⟨x, others, split⟩ : ∃ x others, constants = ("pi", x) :: ("π", x) :: others :=
    ⟨_, _, rfl⟩
  have finite : x.isFinite = true := by
    have member : ("pi", x) ∈ constants := by
      rw [split]
      exact .head _
    exact (fair_constantRule member).finite
  have ofOthers : ∀ entry ∈ others, entry ∈ constants := by
    rw [split]
    exact fun entry member => .tail _ (.tail _ member)
  have other : joinsNumber 'π' = false := by decide
  have uncalled : (constantPattern "pi").skipsCalls = false ∧
      (constantPattern "π").skipsCalls = false := by decide
  have first := respelled_replace (keepsApart_spaced other _)
    (fair_constantPattern (by decide)) (rewrites_name (enclosed x))
    (fun skips => by rw [uncalled.1] at skips; cases skips)
    (respelled_namePi (worded_of_piAlone alone))
  have second := respelled_replace (keepsApart_spaced other _)
    (fair_constantPattern (by decide)) (rewrites_symbol finite)
    (fun skips => by rw [uncalled.2] at skips; cases skips) first
  have inOrder (text : List Char) : writeConstants text = writeAll (others.map constantRule)
      (replace (constantPattern "π") (enclosed x)
        (replace (constantPattern "pi") (enclosed x) text)) := by
    rw [writeConstants_eq, split]
    rfl
  refine ⟨x, finite, ?_⟩
  rw [inOrder, inOrder]
  refine respelled_writeAll (keepsApart_spaced (by decide) _) (List.forall_mem_map.mpr ?_) second
  intro entry member
  have fair := (fair_constantRule (ofOthers entry member)).pattern
  exact ⟨fair, rewrites_of_leavesParts (keepsApart_spaced (by decide) _)
    (leavesParts_spaced fair finite), seesSameCalls_spaced _⟩

/-- Variables are written into both texts alike. -/
theorem respelled_substitute_namePi {text : List Char} (alone : PiAlone text)
    (bindings : Bindings) : ∃ x : Float, x.isFinite = true ∧
      EndsAlike (Respelled (Spaced (enclosed x) (enclosed x))) (· = ·) (substitute text bindings)
        (substitute (namePi text) bindings) := by
  obtain ⟨x, finite, written⟩ := respelled_writeConstants alone
  refine ⟨x, finite, ?_⟩
  unfold substitute
  cases checked : bindings.check with
  | error failure => exact .error rfl
  | ok =>
      have sound := Bindings.fault?_of_check checked
      exact respelled_writeVariables (keepsApart_spaced (by decide) _) sound
        (fun binding inside => leavesParts_spaced (fair_exactly (sound binding inside)) finite)
        written

/-! ## Reading -/

/-- A number between parentheses is read on its own. -/
theorem scan_enclosed {x : Float} (finite : x.isFinite = true) (lenient : Bool) (rest : List Char) :
    scan lenient (enclosed x ++ rest) = (scan lenient rest).map (enclosedTokens x ++ ·) := by
  obtain ⟨numeral, isNumeral, read, is⟩ := Decimal.exists_numeral_of_shortest finite
  have ofNumeral : scan lenient (numeral ++ ')' :: rest) =
      (scan lenient rest).map ([number (numberValue numeral), closing] ++ ·) := by
    rw [scan_numeral isNumeral (atBoundary_cons (by decide)),
      @scan_boundary lenient rest ')' (by decide) closing rfl]
    cases scan lenient rest <;> rfl
  rw [enclosed_append, @scan_boundary lenient _ '(' (by decide) opening rfl, is]
  unfold enclosedTokens
  cases negative : Decimal.signBit x with
  | false =>
      rw [negative] at read
      rw [numberValue, read] at ofNumeral
      simp only [Bool.false_eq_true, if_false, ofNumeral]
      cases scan lenient rest <;> rfl
  | true =>
      rw [negative] at read
      rw [numberValue, read] at ofNumeral
      simp only [if_true, List.cons_append,
        @scan_boundary lenient _ '-' (by decide) (operator .subtract) rfl, ofNumeral]
      cases scan lenient rest <;> rfl

theorem readsParts_spaced {x : Float} (finite : x.isFinite = true) (lenient : Bool) :
    ReadsParts id lenient (Spaced (enclosed x) (enclosed x)) := by
  rintro _ _ rest rest' ⟨rfl, rfl⟩ _ _ ofRest behind
  have blank : isBlank ' ' = true := by decide
  rw [ReadAlike, List.cons_append, scan_blank blank, List.append_assoc, scan_enclosed finite,
    scan_enclosed finite, List.singleton_append, scan_blank blank]
  exact (behind ofRest (Nat.le_refl _)).map fun tokens tokens' same => by
    rw [List.map_append, List.map_append, same]

theorem marksAlike_spaced (x : Float) : MarksAlike (Spaced (enclosed x) (enclosed x)) := by
  rintro _ _ ⟨rfl, rfl⟩
  exact .inr ⟨startsNoExponent_of_head (by decide) _, startsNoExponent_of_head (by decide) _⟩

theorem scan_eq_of_readAlike {lenient : Bool} {text text' : List Char}
    (alike : ReadAlike id lenient text text') : scan lenient text' = scan lenient text := by
  unfold ReadAlike at alike
  generalize scan lenient text = first at alike ⊢
  generalize scan lenient text' = second at alike ⊢
  cases alike with
  | ok same =>
      rw [List.map_id, List.map_id] at same
      rw [same]
  | error same => rw [same]

end Substitution

namespace Scalar

open Substitution

variable {text : List Char}

theorem tokens_namePi (alone : PiAlone text) (bindings : Bindings) (lenient : Bool) :
    Scalar.tokens (namePi text) bindings lenient = Scalar.tokens text bindings lenient := by
  obtain ⟨x, finite, written⟩ := respelled_substitute_namePi alone bindings
  unfold Scalar.tokens
  generalize substitute text bindings = first at written ⊢
  generalize substitute (namePi text) bindings = second at written ⊢
  cases written with
  | error same => rw [same]
  | ok alike =>
      have read := alike.readAlike (keepsApart_spaced (by decide) _) (marksAlike_spaced x)
        (readsParts_spaced finite lenient)
      rw [ok_bind, ok_bind, scan_eq_of_readAlike read]

/-- **The symbol π and the name pi are interchangeable** where no letter stands next to the symbol:
with the name between blanks in the place of each symbol, an evaluation reports the same, whatever
is bound to what. -/
theorem evaluate_namePi (alone : PiAlone text) (bindings : Bindings) (settings : Settings) :
    evaluate (namePi text) bindings settings = evaluate text bindings settings := by
  unfold evaluate
  rw [tokens_namePi alone]

/-- Symbols next to a digit, to parentheses and to a sign. -/
theorem evaluate_namePi_product :
    PiAlone "2π(π)-x".toList ∧ namePi "2π(π)-x".toList = "2 pi ( pi )-x".toList ∧
      evaluate (namePi "2π(π)-x".toList) [("x", .integer 2)] Settings.defaults =
        evaluate "2π(π)-x".toList [("x", .integer 2)] Settings.defaults := by
  have alone : PiAlone "2π(π)-x".toList := by decide
  exact ⟨alone, by decide, evaluate_namePi alone _ _⟩

/-- Behind the letter of a variable the symbol is a letter of another name, and before it the
variable is not replaced. -/
theorem evaluate_pi_next_to_name :
    Bindings.check [("x", .integer 2)] = .ok () ∧ Bindings.Finite [("x", .integer 2)] ∧
      (namePi "xπ".toList = "x pi ".toList ∧
        (evaluate "xπ".toList [("x", .integer 2)] Settings.defaults).outcome.map Prod.fst =
          refuse (.unknownVariable "xπ") ∧
        (evaluate "x pi ".toList [("x", .integer 2)] Settings.defaults).outcome.map Prod.fst =
          .ok (2 * 3.141592653589793)) ∧
      (namePi "πx".toList = " pi x".toList ∧
        (evaluate "πx".toList [("x", .integer 2)] Settings.defaults).outcome.map Prod.fst =
          refuse (.unknownVariable "x") ∧
        (evaluate " pi x".toList [("x", .integer 2)] Settings.defaults).outcome.map Prod.fst =
          .ok (3.141592653589793 * 2)) := by
  have blank : isBlank ' ' = true := by decide
  have two : (2 : Float).isFinite = true := by decide
  have pi : (3.141592653589793 : Float).isFinite = true := by decide
  refine ⟨rfl, List.forall_mem_singleton.mpr ⟨2, rfl, two⟩, ⟨by decide, ?_, ?_⟩, by decide, ?_, ?_⟩
  · have substituted : substitute "xπ".toList [("x", .integer 2)] = .ok "xπ".toList :=
      eq_ok_of_toOption (by decide +kernel)
    have read : scan false "xπ".toList = .ok [identifier "xπ"] := by
      have taken : takeName 'x' ['π'] = (['x', 'π'], []) := by decide
      have step := @scan_letter false 'x' (by decide) (by decide) ['π']
      rw [taken, scan_nil] at step
      exact step
    rw [outcome_of_postOrder Settings.defaults substituted read (List.cons_ne_nil _ _) rfl]
    rfl
  · have substituted : substitute "x pi ".toList [("x", .integer 2)] =
        .ok (enclosed 2 ++ ' ' :: (enclosed 3.141592653589793 ++ [' '])) :=
      eq_ok_of_toOption (by decide +kernel)
    have read : scan false (enclosed 2 ++ ' ' :: (enclosed 3.141592653589793 ++ [' '])) =
        .ok (enclosedTokens 2 ++ enclosedTokens 3.141592653589793) := by
      rw [scan_enclosed two, scan_blank blank, scan_enclosed pi, scan_blank blank, scan_nil]
      rfl
    rw [outcome_of_postOrder Settings.defaults substituted read (List.cons_ne_nil _ _) rfl]
    rfl
  · have substituted : substitute "πx".toList [("x", .integer 2)] = .ok "πx".toList :=
      eq_ok_of_toOption (by decide +kernel)
    have read : scan false "πx".toList = .ok [number 3.141592653589793, identifier "x"] := by
      have taken : takeName 'x' [] = (['x'], []) := by decide
      have step := @scan_letter false 'x' (by decide) (by decide) []
      have first := @scan_cons false ['x'] 'π' (takeNumber?_eq_none (by decide) (by decide))
      rw [taken, scan_nil] at step
      rw [step] at first
      exact first
    rw [outcome_of_postOrder Settings.defaults substituted read (List.cons_ne_nil _ _) rfl]
    rfl
  · have substituted : substitute " pi x".toList [("x", .integer 2)] =
        .ok (' ' :: (enclosed 3.141592653589793 ++ ' ' :: (enclosed 2 ++ []))) :=
      eq_ok_of_toOption (by decide +kernel)
    have read : scan false (' ' :: (enclosed 3.141592653589793 ++ ' ' :: (enclosed 2 ++ []))) =
        .ok (enclosedTokens 3.141592653589793 ++ enclosedTokens 2) := by
      rw [scan_blank blank, scan_enclosed pi, scan_blank blank, scan_enclosed two, scan_nil]
      rfl
    rw [outcome_of_postOrder Settings.defaults substituted read (List.cons_ne_nil _ _) rfl]
    rfl

end Scalar

end Reckoner
