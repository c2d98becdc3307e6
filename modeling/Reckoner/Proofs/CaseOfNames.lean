import Reckoner.Proofs.AbsentNames
import Reckoner.Proofs.RespelledReading
import Reckoner.Proofs.TokenSubstitution
import Reckoner.Proofs.VariableNames

/-!
# The case of names

Names of constants and functions and the marks of exponents may be written in any case: it makes no
difference to how the evaluation of an ASCII text ends. Names of variables have one spelling only
(`Reckoner.Scalar.evaluate_differInCase`).
-/

namespace Reckoner

open Text Token Outcome

namespace Substitution

/-- A constant or a function goes by the word, in any case of its letters. -/
def IsReserved (word : List Char) : Prop :=
  isConstant (String.ofList word) = true ∨
    (NamedFunction.ofName? (String.ofList word)).isSome = true

instance (word : List Char) : Decidable (IsReserved word) :=
  inferInstanceAs (Decidable (_ ∨ _))

/-- The words are reserved, and the same but for the case of their letters. -/
structure Recased (word word' : List Char) : Prop where
  isWord : IsWord word
  same : word'.map Char.toLower = word.map Char.toLower
  reserved : IsReserved word

theorem isMark_eq_toLower {word : List Char} (areLetters : word.all Char.isAlpha = true) :
    isMark word = (word.map Char.toLower == ['e']) := by
  cases word with
  | nil => rfl
  | cons c letters =>
      cases letters with
      | nil =>
          rw [List.all_cons, Bool.and_eq_true] at areLetters
          exact beq_iff_eq.mp (forall_isAlpha
            (p := fun c => isMark [c] == ([c].map Char.toLower == ['e'])) (by decide) areLetters.1)
      | cons d letters => simp [isMark]

namespace Recased

variable {word word' digits rest rest' : List Char} (recased : Recased word word')

include recased

theorem isWord' : IsWord word' := by
  have isWord := isWord_toLower recased.isWord
  refine ⟨?_, all_isAlpha_of_map_toLower recased.same isWord.2⟩
  rintro rfl
  exact isWord.1 recased.same.symm

/-- With the same digits behind them, the words are the same name in small letters. -/
theorem lowerName_eq (areDigits : digits.all Char.isDigit = true) :
    lowerName (String.ofList (word' ++ digits)) = lowerName (String.ofList (word ++ digits)) := by
  rw [lowerName_append_digits recased.isWord areDigits,
    lowerName_append_digits recased.isWord' areDigits, recased.same]

theorem lowerName_word_eq : lowerName (String.ofList word') = lowerName (String.ofList word) := by
  rw [lowerName_word recased.isWord, lowerName_word recased.isWord', recased.same]

theorem symm : Recased word' word where
  isWord := recased.isWord'
  same := recased.same.symm
  reserved := by
    rw [IsReserved, isConstant, NamedFunction.ofName?, recased.lowerName_word_eq]
    exact recased.reserved

theorem areLetters : ∀ c ∈ word, isWordLetter c = true :=
  isWordLetter_of_all_isAlpha recased.isWord.2

theorem isMark_eq : isMark word' = isMark word := by
  rw [isMark_eq_toLower recased.isWord.2, isMark_eq_toLower recased.isWord'.2, recased.same]

theorem isExponentMark_eq (before : Option Char) (rest : List Char) :
    isExponentMark before word' rest = isExponentMark before word rest := by
  unfold isExponentMark
  change (isMark word' && _ && _) = (isMark word && _ && _)
  rw [recased.isMark_eq]

/-! ## Writing for names -/

theorem accepts_eq {entry : String × Float} (member : entry ∈ constants) :
    accepts (constantRule entry).pattern.spelling word' =
      accepts (constantRule entry).pattern.spelling word := by
  have named {word : List Char} (isWord : IsWord word) :
      accepts (constantRule entry).pattern.spelling word =
        decide (entry.1 = lowerName (String.ofList word)) := by
    have names := @names_constantPattern entry member (String.ofList word)
    rw [Pattern.names, String.toList_ofList] at names
    exact names isWord.2
  rw [named recased.isWord, named recased.isWord', recased.lowerName_word_eq]

/-- A bound variable is no reserved word. -/
theorem leavesAlone {name : String} {value : BoundValue}
    (sound : Bindings.fault? name value = none) :
    Pattern.LeavesAlone ⟨exactly name.toList, false⟩ word := by
  refine leavesAlone_of_word (fair_exactly sound) recased.isWord.1 recased.areLetters ?_
  rw [accepts_exactly, decide_eq_false_iff_not]
  rintro rfl
  obtain ⟨_, _, noConstant, noFunction⟩ := unreserved_of_fault? sound
  have reserved := recased.reserved
  rw [IsReserved, String.ofList_toList, noConstant, noFunction] at reserved
  rcases reserved with is | is <;> cases is

end Recased

theorem keepsApart_recased : KeepsApart Recased := by
  have head {word : List Char} (isWord : IsWord word) :
      ∃ c rest, word = c :: rest ∧ joinsNumber c = false := by
    obtain ⟨c, rest, rfl, letter, _⟩ := exists_cons_of_isWord isWord
    exact ⟨c, rest, rfl,
      joinsNumber_of_isWordLetter (isWordLetter_of_isLetter (isLetter_of_isAlpha letter))⟩
  refine ⟨fun _ _ recased => head recased.isWord, fun _ _ recased => head recased.isWord', ?_⟩
  intro word _ recased none
  rw [startsWithLetter_word recased.isWord.1 recased.areLetters] at none
  cases none

theorem marksAlike_recased : MarksAlike Recased := by
  intro word word' recased
  have same := recased.isMark_eq
  cases marked : isMark word with
  | true => exact .inl ⟨rfl, same.trans marked⟩
  | false =>
      exact .inr ⟨startsNoExponent_of_word recased.isWord.1 recased.areLetters marked,
        startsNoExponent_of_word recased.isWord'.1 recased.symm.areLetters (same.trans marked)⟩

theorem seesSameCalls_recased (pattern : Pattern) : pattern.SeesSameCalls Recased := by
  intro _ text text' respelled
  have none {word : List Char} (isWord : IsWord word) (rest : List Char) :
      startsCall (word ++ rest) = false := by
    obtain ⟨c, letters, rfl, letter, _⟩ := exists_cons_of_isWord isWord
    exact startsCall_of_isAlpha _ letter
  refine respelled.startsCall_eq fun _ _ _ _ recased => ?_
  rw [none recased.isWord, none recased.isWord']

/-- Constants are written in the places of reserved words in any case. -/
theorem rewrites_constantRule {entry : String × Float} (member : entry ∈ constants)
    (insert : List Char) : (constantRule entry).pattern.Rewrites insert Recased Recased := by
  intro word word' rest rest' before recased atWord ofRest ends ends'
  have fair := (fair_constantRule member).pattern
  have outside := atWord (startsWithLetter_word recased.isWord.1 recased.areLetters)
  have calls := seesSameCalls_recased (constantRule entry).pattern
  have same : (constantRule entry).pattern.writesFor before word' rest' =
      (constantRule entry).pattern.writesFor before word rest := by
    rw [writesFor_eq keepsApart_recased calls ofRest]
    unfold Pattern.writesFor
    rw [recased.accepts_eq member, recased.isExponentMark_eq]
  rw [replaceFrom_run fair outside recased.isWord.1 recased.areLetters ends,
    replaceFrom_run fair outside recased.isWord'.1 recased.symm.areLetters ends', same]
  cases (constantRule entry).pattern.writesFor before word rest with
  | true => exact ⟨insert, insert, .inr ⟨rfl, rfl⟩, rfl, rfl⟩
  | false => exact ⟨word, word', .inl recased, rfl, rfl⟩

theorem leavesParts_recased {name : String} {value : BoundValue}
    (sound : Bindings.fault? name value = none) :
    Pattern.LeavesParts ⟨exactly name.toList, false⟩ Recased :=
  fun _ _ recased => ⟨recased.leavesAlone sound, recased.symm.leavesAlone sound⟩

/-- **Substitution does not see the case of reserved words.** -/
theorem respelled_substitute {text text' : List Char} (respelled : Respelled Recased text text')
    (bindings : Bindings) :
    EndsAlike (Respelled Recased) (· = ·) (substitute text bindings)
      (substitute text' bindings) := by
  unfold substitute
  cases checked : bindings.check with
  | error failure => exact .error rfl
  | ok =>
      have sound := Bindings.fault?_of_check checked
      have written : Respelled Recased (writeConstants text) (writeConstants text') := by
        rw [writeConstants_eq, writeConstants_eq]
        refine respelled_writeAll keepsApart_recased (List.forall_mem_map.mpr ?_) respelled
        exact fun entry member => ⟨(fair_constantRule member).pattern,
          rewrites_constantRule member _, seesSameCalls_recased _⟩
      exact respelled_writeVariables keepsApart_recased sound
        (fun binding inside => leavesParts_recased (sound binding inside)) written

/-! ## Texts in another case -/

/-- The letters around a place of a text. -/
def lettersAround (text : List Char) (place : ℕ) : List Char :=
  ((text.take place).reverse.takeWhile isWordLetter).reverse ++
    (text.drop place).takeWhile isWordLetter

/-- The texts differ in the case of letters, and only in reserved words. -/
structure DifferInCase (text text' : List Char) : Prop where
  same : text'.map Char.toLower = text.map Char.toLower
  reserved : ∀ place < text.length, text'[place]? ≠ text[place]? →
    IsReserved (lettersAround text place)

instance (text text' : List Char) : Decidable (DifferInCase text text') :=
  decidable_of_iff (_ ∧ ∀ place < text.length, text'[place]? ≠ text[place]? →
      IsReserved (lettersAround text place))
    ⟨fun both => ⟨both.1, both.2⟩, fun differ => ⟨differ.same, differ.reserved⟩⟩

theorem lettersAround_word {front word rest : List Char}
    (outside : (lastOf none front).any isWordLetter = false)
    (areLetters : ∀ c ∈ word, isWordLetter c = true) (ends : startsWithLetter rest = false)
    {place : ℕ} (inside : place < word.length) :
    lettersAround (front ++ (word ++ rest)) (front.length + place) = word := by
  have before : ∀ c ∈ front.reverse.head?, isWordLetter c = false := by
    intro c last
    rw [lastOf_none, ← List.head?_reverse, Option.mem_def.mp last] at outside
    exact outside
  have after : ∀ c ∈ rest.head?, isWordLetter c = false := by
    cases rest with
    | nil => exact nofun
    | cons c rest =>
        rintro d ⟨⟩
        exact ends
  have short := Nat.le_of_lt inside
  have first : ∀ c ∈ (word.take place).reverse, isWordLetter c = true :=
    fun c member => areLetters c (List.mem_of_mem_take (List.mem_reverse.mp member))
  have second : ∀ c ∈ word.drop place, isWordLetter c = true :=
    fun c member => areLetters c (List.mem_of_mem_drop member)
  rw [lettersAround, List.take_length_add_append, List.take_append_of_le_length short,
    List.drop_length_add_append, List.drop_append_of_le_length short, List.reverse_append,
    takeWhile_append_of_ends first before, takeWhile_append_of_ends second after,
    List.reverse_reverse, List.take_append_drop]

/-- A character that is no letter has no other case. -/
theorem eq_of_toLower_eq {c d : Char} (stops : isWordLetter c = false)
    (same : d.toLower = c.toLower) : d = c := by
  have first : c.isAlpha = false := by
    rw [← Bool.not_eq_true]
    intro letter
    rw [isWordLetter_of_isLetter (isLetter_of_isAlpha letter)] at stops
    cases stops
  have second : d.isAlpha = false := by
    rw [← isAlpha_toLower, same, isAlpha_toLower, first]
  rwa [toLower_of_not_isAlpha first, toLower_of_not_isAlpha second] at same

theorem isWord_of_ascii {word : List Char} (nonempty : word ≠ []) (ascii : IsAscii word)
    (areLetters : ∀ c ∈ word, isWordLetter c = true) : IsWord word := by
  refine ⟨nonempty, List.all_eq_true.mpr fun c member => ?_⟩
  have plain := forall_ascii (p := fun c => !isWordLetter c || c.isAlpha) (by decide)
    (ascii c member)
  rwa [areLetters c member] at plain

theorem exists_differs {word word' : List Char} (differ : word' ≠ word)
    (size : word'.length = word.length) :
    ∃ place < word.length, word'[place]? ≠ word[place]? := by
  by_contra none
  simp only [not_exists, not_and, not_not] at none
  refine differ (List.ext_getElem? fun place => ?_)
  by_cases inside : place < word.length
  · exact none place inside
  · rw [List.getElem?_eq_none (by omega), List.getElem?_eq_none (by omega)]

/-- Behind a text that has been compared, the rest is respelled. -/
theorem respelled_of_worded {front text text' : List Char}
    (worded : Worded (fun _ => True) text) (ascii : IsAscii text)
    (same : text'.map Char.toLower = text.map Char.toLower)
    (reserved : ∀ place < text.length, text'[place]? ≠ text[place]? →
      IsReserved (lettersAround (front ++ text) (front.length + place)))
    (atWord : AtWord (lastOf none front) text) : Respelled Recased text text' := by
  have behind {front part part' rest rest' : List Char} (size : part'.length = part.length)
      (reserved : ∀ place < (part ++ rest).length,
        (part' ++ rest')[place]? ≠ (part ++ rest)[place]? →
          IsReserved (lettersAround (front ++ (part ++ rest)) (front.length + place))) :
      ∀ place < rest.length, rest'[place]? ≠ rest[place]? →
        IsReserved (lettersAround (front ++ part ++ rest) ((front ++ part).length + place)) := by
    intro place inside differs
    have found := reserved (part.length + place) (by rw [List.length_append]; omega)
    rw [← size, List.getElem?_append_right (Nat.le_add_right _ _), size,
      List.getElem?_append_right (Nat.le_add_right _ _), Nat.add_sub_cancel_left] at found
    rw [List.length_append, List.append_assoc, Nat.add_assoc]
    exact found differs
  induction worded generalizing front text' with
  | nil =>
      obtain rfl := List.map_eq_nil_iff.mp same
      exact .nil
  | @other c rest stops _ ih =>
      obtain ⟨d, rest', rfl, first, others⟩ := List.map_eq_cons_iff.mp same
      obtain rfl := eq_of_toLower_eq stops first
      refine .other stops (ih (fun e member => ascii e (.tail _ member)) others
        (@behind front [d] [d] rest rest' rfl reserved) ?_)
      rw [lastOf_append]
      exact fun _ => stops
  | @word word rest nonempty areLetters ends _ _ ih =>
      rw [List.map_append] at same
      obtain ⟨word', rest', rfl, first, others⟩ := List.map_eq_append_iff.mp same
      have size : word'.length = word.length := by
        rw [← List.length_map, first, List.length_map]
      have further := ih (fun e member => ascii e (List.mem_append_right _ member)) others
        (behind size reserved) (atWord_of_ends ends _)
      by_cases kept : word' = word
      · rw [kept]
        exact .word nonempty areLetters ends further
      · obtain ⟨place, inside, differs⟩ := exists_differs kept size
        have outside := atWord.ofPart nonempty (startsWithLetter_word nonempty areLetters)
        have isWord := isWord_of_ascii nonempty
          (fun e member => ascii e (List.mem_append_left _ member)) areLetters
        have found := reserved place (by rw [List.length_append]; omega)
        rw [List.getElem?_append_left (size ▸ inside), List.getElem?_append_left inside,
          lettersAround_word outside areLetters ends inside] at found
        exact .swapped ⟨isWord, first, found differs⟩ ends further

/-- **ASCII texts that differ in the case of reserved words** differ in the spelling of these. -/
theorem respelled_of_differInCase {text text' : List Char} (ascii : IsAscii text)
    (differ : DifferInCase text text') : Respelled Recased text text' := by
  have worded := @worded (fun _ => True) none text (fun _ => rfl) fun _ _ _ _ _ _ _ => trivial
  refine @respelled_of_worded [] text text' worded ascii differ.same ?_ fun _ => rfl
  intro place inside differs
  rw [List.nil_append, List.length_nil, Nat.zero_add]
  exact differ.reserved place inside differs

/-! ## Reading -/

/-- Where a reserved word comes next, the same token is read, but for the name of a variable. -/
theorem readsParts_recased (lenient : Bool) : ReadsParts anonymous lenient Recased := by
  intro word word' rest rest' recased ends ends' ofRest behind
  have same {digits : List Char} (areDigits : digits.all Char.isDigit = true) :
      (ofName (word' ++ digits)).anonymous = (ofName (word ++ digits)).anonymous := by
    have lower := recased.lowerName_eq areDigits
    unfold ofName NamedFunction.ofName?
    dsimp only
    rw [lower]
    split <;> rfl
  have known {digits : List Char} (areDigits : digits.all Char.isDigit = true) :
      NamedFunction.ofName? (String.ofList (word' ++ digits)) =
        NamedFunction.ofName? (String.ofList (word ++ digits)) := by
    unfold NamedFunction.ofName?
    rw [recased.lowerName_eq areDigits]
  obtain ⟨c, letters, rfl, letter, areLetters⟩ := exists_cons_of_isWord recased.isWord
  obtain ⟨c', letters', rfl, letter', areLetters'⟩ := exists_cons_of_isWord recased.isWord'
  obtain ⟨digits, further⟩ := ofRest.span keepsApart_recased fun _ => Respelled.isDigit_of_unjoined
  have areDigits := List.all_takeWhile (p := Char.isDigit) (l := rest)
  rw [ReadAlike, List.cons_append, List.cons_append, scan_name letter, scan_name letter',
    takeName_word areLetters ends, takeName_word areLetters' ends', digits, known areDigits]
  split
  · exact (behind further (length_dropWhile_le _ rest)).cons (same areDigits)
  · have whole := @same [] rfl
    rw [List.append_nil, List.append_nil] at whole
    exact (behind ofRest (Nat.le_refl _)).cons whole

end Substitution

namespace Scalar

open Substitution

variable {text text' : List Char}

theorem tokens_alike (respelled : Respelled Recased text text') (bindings : Bindings)
    (lenient : Bool) :
    EndsAlike (fun tokens tokens' => tokens'.map anonymous = tokens.map anonymous) Failure.Alike
      (Scalar.tokens text bindings lenient) (Scalar.tokens text' bindings lenient) := by
  unfold Scalar.tokens
  refine ((respelled_substitute respelled bindings).mono (fun _ _ => id) fun _ _ => .of_eq).bind
    fun written written' alike => ?_
  have read := alike.readAlike keepsApart_recased marksAlike_recased (readsParts_recased lenient)
  refine (orRefuse_alike read).bind fun tokens tokens' same => ?_
  have empty : tokens'.isEmpty = tokens.isEmpty := by
    rw [← List.isEmpty_map (f := anonymous), same, List.isEmpty_map]
  rw [empty]
  cases tokens.isEmpty with
  | true => exact .error (.refl _)
  | false =>
      refine .ok ?_
      rw [← insertProducts_anonymous, same, insertProducts_anonymous]

/-- **Case matters for variables only.** Of two ASCII texts that differ in the case of reserved
words, whatever is bound to what, either both have the same value and the same steps, or both are
refused for causes of the same kind and code, or they fail in the same other way. The name of a
variable counts only with exactly its letters: a text in which these do not stand on their own is
evaluated as without the variable. (An infinity or the non-number that is bound to an earlier name
brings a word of its own into the text.) -/
theorem evaluate_differInCase (bindings : Bindings) (settings : Settings) :
    (∀ text text', IsAscii text → DifferInCase text text' →
      EndsAlike (· = ·) Failure.Alike (evaluate text bindings settings).outcome
        (evaluate text' bindings settings).outcome) ∧
    ∀ (front back : Bindings) (name : String) value text,
      bindings = front ++ (↑name, value) :: back →
      Bindings.fault? name value = none → Absent name.toList text →
      (name ∈ specialWords → ∀ binding ∈ front, ∀ x, binding.2.toDouble = .ok x →
        x.isFinite = true) →
      evaluate text bindings settings = evaluate text (front ++ back) settings := by
  constructor
  · intro text text' ascii differ
    have respelled := respelled_of_differInCase ascii differ
    exact outcome_evaluate_alike (tokens_alike respelled bindings settings.lenient)
  · rintro front back name value text rfl sound absent special
    exact evaluate_of_absent sound special absent settings

/-- The mark of an exponent, a function and a constant in other cases, and a variable of which only
the capital letter is in the text. -/
theorem evaluate_differInCase_exponent :
    (IsAscii "2E3*Sin(X)-PI".toList ∧
      DifferInCase "2E3*Sin(X)-PI".toList "2e3*sIN(X)-Pi".toList ∧
      EndsAlike (· = ·) Failure.Alike
        (evaluate "2E3*Sin(X)-PI".toList [("X", .integer 1), ("x", .integer 7)]
          Settings.defaults).outcome
        (evaluate "2e3*sIN(X)-Pi".toList [("X", .integer 1), ("x", .integer 7)]
          Settings.defaults).outcome) ∧
    (Bindings.fault? "x" (.integer 7) = none ∧ Absent "x".toList "2E3*Sin(X)-PI".toList ∧
      "x" ∉ specialWords ∧
      evaluate "2E3*Sin(X)-PI".toList [("X", .integer 1), ("x", .integer 7)] Settings.defaults =
        evaluate "2E3*Sin(X)-PI".toList [("X", .integer 1)] Settings.defaults) := by
  obtain ⟨recased, bound⟩ :=
    evaluate_differInCase [("X", .integer 1), ("x", .integer 7)] Settings.defaults
  have ascii : IsAscii "2E3*Sin(X)-PI".toList := by decide
  have differ : DifferInCase "2E3*Sin(X)-PI".toList "2e3*sIN(X)-Pi".toList := by decide +kernel
  have absent : Absent "x".toList "2E3*Sin(X)-PI".toList := by
    intro front rest split
    have member : 'x' ∈ "2E3*Sin(X)-PI".toList := by
      rw [split]
      exact List.mem_append_right front List.mem_cons_self
    exact absurd member (by decide)
  refine ⟨⟨ascii, differ, recased _ _ ascii differ⟩, by decide, absent, by decide, ?_⟩
  exact bound [("X", .integer 1)] [] "x" (.integer 7) _ rfl (by decide) absent
    fun member => absurd member (by decide)

end Scalar

end Reckoner
