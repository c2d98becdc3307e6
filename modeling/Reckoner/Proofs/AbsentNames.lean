import Reckoner.Proofs.BoundNames
import Reckoner.Proofs.Respelling

/-!
# Names that are absent

A binding changes nothing about a text in which its name does not stand with exactly its letters
(`Reckoner.Scalar.evaluate_of_absent`). The words of an infinity and of the non-number can come into
a text with a number that is bound to another name.
-/

namespace Reckoner

open Text Token Outcome

namespace Substitution

/-- Wherever the letters of the name are in the text, another letter stands next to them. -/
def Absent (name text : List Char) : Prop :=
  ∀ front rest, text = front ++ (name ++ rest) →
    (lastOf none front).any isWordLetter = true ∨ startsWithLetter rest = true

theorem worded_of_absent {name text : List Char} (absent : Absent name text) :
    Worded (· ≠ name) text := by
  refine @worded _ none text (fun _ => rfl) fun front word rest split _ outside ends => ?_
  rintro rfl
  rcases absent front rest split with inside | goesOn
  · rw [outside] at inside
    cases inside
  · rw [ends] at goesOn
    cases goesOn

namespace Worded

variable {kind : List Char → Prop} {text rest : List Char}

theorem append_others {others : List Char} (none : ∀ c ∈ others, isWordLetter c = false)
    (ofRest : Worded kind rest) : Worded kind (others ++ rest) := by
  induction others with
  | nil => exact ofRest
  | cons c others ih =>
      obtain ⟨stops, none⟩ := List.forall_mem_cons.mp none
      exact .other stops (ih none)

section Numbers

variable (marks : kind ['e'] ∧ kind ['E'])

include marks

/-- The only word in a number is the mark of its exponent. -/
theorem append_numeral {numeral : List Char} (isNumeral : IsNumeral numeral)
    (ofRest : Worded kind rest) : Worded kind (numeral ++ rest) := by
  obtain ⟨decimal, exponent, rfl, isDecimal, isPower⟩ := exists_decimal_of_isNumeral isNumeral
  rw [List.append_assoc]
  refine append_others (not_letter_of_isDecimal isDecimal) ?_
  cases isPower with
  | none => exact ofRest
  | @marked mark sign digits isMark isSign some areDigits =>
      have none := not_letter_of_signed isSign areDigits
      have nonempty : sign ++ digits ≠ [] := fun is => some (List.append_eq_nil_iff.mp is).2
      have ends : startsWithLetter (sign ++ digits ++ rest) = false := by
        obtain ⟨c, others, is⟩ := List.exists_cons_of_ne_nil nonempty
        rw [is] at none ⊢
        exact none c List.mem_cons_self
      have ofMark : kind [mark] ∧ isWordLetter mark = true := by
        rcases isMark with rfl | rfl
        · exact ⟨marks.1, by decide⟩
        · exact ⟨marks.2, by decide⟩
      have whole := Worded.word (List.cons_ne_nil mark []) (List.forall_mem_singleton.mpr ofMark.2)
        ends ofMark.1 (append_others none ofRest)
      rwa [← List.append_assoc] at whole

/-- Other words come with a number only if it is an infinity or the non-number. -/
theorem append_enclosed {x : Float}
    (special : x.isFinite = false → ∀ word ∈ specialWords, kind word.toList)
    (ofRest : Worded kind rest) : Worded kind (enclosed x ++ rest) := by
  have closed : Worded kind (')' :: rest) := .other (by decide) ofRest
  have minus {text : List Char} (ofText : Worded kind text) : Worded kind ('-' :: text) :=
    .other (by decide) ofText
  rw [enclosed_append]
  refine .other (by decide) ?_
  cases finite : x.isFinite with
  | true =>
      obtain ⟨numeral, isNumeral, _, is⟩ := Decimal.exists_numeral_of_shortest finite
      have ofNumeral := append_numeral marks isNumeral closed
      rw [is]
      split
      · exact minus ofNumeral
      · exact ofNumeral
  | false =>
      have ofWord {word : String} (member : word ∈ specialWords) :
          Worded kind (word.toList ++ ')' :: rest) := by
        have areWords : ∀ word ∈ specialWords, IsWord word.toList := by decide
        obtain ⟨nonempty, areLetters⟩ := areWords word member
        have stops : isWordLetter ')' = false := by decide
        exact .word nonempty (isWordLetter_of_all_isAlpha areLetters) stops
          (special finite word member) closed
      rcases Decimal.eq_special finite with rfl | rfl | rfl
      · exact @ofWord "nan" (by decide)
      · exact @ofWord "inf" (by decide)
      · exact minus (@ofWord "inf" (by decide))

end Numbers

/-- Writing for a pattern keeps words of a kind, if what is written does. -/
theorem replaceFrom {pattern : Pattern} (fair : pattern.Fair) {insert : List Char}
    (writes : ∀ {rest}, Worded kind rest → Worded kind (insert ++ rest)) (worded : Worded kind text)
    {before : Option Char} (atWord : AtWord before text) :
    Worded kind (replaceFrom pattern insert 0 before text) := by
  induction worded generalizing before with
  | nil => exact .nil
  | other stops _ ih =>
      rw [replaceFrom_cons fair _ stops]
      exact .other stops (ih fun _ => stops)
  | @word word rest nonempty areLetters ends ofWord _ ih =>
      have outside := atWord.ofPart nonempty (startsWithLetter_word nonempty areLetters)
      have behind := ih (atWord_of_ends ends (lastOf before word))
      rw [replaceFrom_run fair outside nonempty areLetters ends]
      cases pattern.writesFor before word rest with
      | true => exact writes behind
      | false =>
          exact .word nonempty areLetters (startsWithLetter_replaceFrom fair ends) ofWord behind

/-- A name that is none of the words is replaced nowhere. -/
theorem replaceFrom_eq_self {name : List Char} (fair : Pattern.Fair ⟨exactly name, false⟩)
    (insert : List Char) (worded : Worded (· ≠ name) text) {before : Option Char}
    (atWord : AtWord before text) :
    Substitution.replaceFrom ⟨exactly name, false⟩ insert 0 before text = text := by
  induction worded generalizing before with
  | nil => rfl
  | @other c rest stops _ ih =>
      rw [replaceFrom_cons fair _ stops, @ih (some c) fun _ => stops]
  | @word word rest nonempty areLetters ends other _ ih =>
      have outside := atWord.ofPart nonempty (startsWithLetter_word nonempty areLetters)
      have rejected : accepts (exactly name) word = false := by
        rw [accepts_exactly, decide_eq_false_iff_not]
        exact other.symm
      rw [replaceFrom_run fair outside nonempty areLetters ends, Pattern.writesFor, rejected,
        ih (atWord_of_ends ends _)]
      rfl

end Worded

/-! ## Bindings -/

theorem writeVariables_append (text : List Char) (front back : Variables) :
    writeVariables text (front ++ back) =
      writeVariables text front >>= fun text => writeVariables text back := by
  induction front generalizing text with
  | nil => rfl
  | cons binding front ih =>
      rw [List.cons_append, writeVariables, writeVariables]
      cases writeVariable text binding.1 binding.2 with
      | error failure => rfl
      | ok text => exact ih text

section Absent

variable {name : String} {value : BoundValue} {text : List Char}
  (sound : Bindings.fault? name value = none)

include sound

/-- The name of a variable is no mark of an exponent. -/
theorem not_mark_of_fault? : ['e'] ≠ name.toList ∧ ['E'] ≠ name.toList := by
  obtain ⟨_, _, noConstant, _⟩ := unreserved_of_fault? sound
  have other (mark : String) (reserved : isConstant mark = true) : mark.toList ≠ name.toList := by
    intro is
    rw [String.toList_inj.mp is, noConstant] at reserved
    cases reserved
  exact ⟨other "e" (by decide), other "E" (by decide)⟩

theorem check_append_cons (front back : Bindings) :
    Bindings.check (front ++ (↑name, value) :: back) = Bindings.check (front ++ back) := by
  induction front with
  | nil => rw [List.nil_append, Bindings.check, Bindings.checkOne_text.mpr sound, ok_bind,
      List.nil_append]
  | cons binding front ih => rw [List.cons_append, List.cons_append, Bindings.check,
      Bindings.check, ih]

/-- A name that is absent from a text is absent from what constants and variables make of it. -/
theorem worded_of_writeVariables {front : Variables}
    (special : name ∈ specialWords → ∀ binding ∈ front, ∀ x, binding.2.toDouble = .ok x →
      x.isFinite = true)
    (others : ∀ binding ∈ front, Bindings.fault? binding.1 binding.2 = none)
    (absent : Absent name.toList text) {written : List Char}
    (wrote : writeVariables (writeConstants text) front = .ok written) :
    Worded (· ≠ name.toList) written := by
  have marks := not_mark_of_fault? sound
  have keeps {x : Float} (numbers : x.isFinite = false → name ∉ specialWords) (pattern : Pattern)
      (text : List Char) (fair : pattern.Fair) (worded : Worded (· ≠ name.toList) text) :
      Worded (· ≠ name.toList) (replace pattern (enclosed x) text) := by
    refine worded.replaceFrom fair (fun ofRest => .append_enclosed marks ?_ ofRest) fun _ => rfl
    intro infinite word member is
    rw [String.toList_inj.mp is] at member
    exact numbers infinite member
  refine keeps_of_writeVariables (fun binding inside x double => keeps ?_) others wrote ?_
  · intro infinite member
    rw [special member binding inside x double] at infinite
    cases infinite
  · rw [writeConstants_eq, writeAll]
    refine List.foldlRecOn _ _ (worded_of_absent absent) fun text worded rule member => ?_
    have fair := fair_constants rule member
    refine keeps (fun infinite => ?_) _ _ fair.pattern worded
    rw [fair.finite] at infinite
    cases infinite

/-- **A binding of an absent name writes nothing.** -/
theorem substitute_of_absent {front back : Bindings}
    (special : name ∈ specialWords → ∀ binding ∈ front, ∀ x, binding.2.toDouble = .ok x →
      x.isFinite = true)
    (absent : Absent name.toList text) :
    substitute text (front ++ (↑name, value) :: back) = substitute text (front ++ back) := by
  unfold substitute
  rw [check_append_cons sound]
  cases checked : Bindings.check (front ++ back) with
  | error failure => rfl
  | ok =>
      have sounds := Bindings.fault?_of_check checked
      rw [Bindings.texts_append] at sounds
      rw [ok_bind, ok_bind, Bindings.texts_append_cons, Bindings.texts_append,
        writeVariables_append, writeVariables_append]
      cases wrote : writeVariables (writeConstants text) front.texts with
      | error failure => rfl
      | ok written =>
          have worded := worded_of_writeVariables sound
            (fun isSpecial binding inside => special isSpecial _ (Bindings.mem_texts.mp inside))
            (List.forall_mem_append.mp sounds).1 absent wrote
          have passed := @writeVariables_of_kept written [(name, value)]
          refine passed (fun binding inside insert => ?_) back.texts
          rw [List.mem_singleton.mp inside]
          exact worded.replaceFrom_eq_self (fair_exactly sound) insert fun _ => rfl

end Absent

end Substitution

/-- **A binding changes nothing about a text from which its name is absent.** -/
theorem Scalar.evaluate_of_absent {front back : Bindings} {name : String} {value : BoundValue}
    {text : List Char} (sound : Bindings.fault? name value = none)
    (special : name ∈ Substitution.specialWords → ∀ binding ∈ front, ∀ x,
      binding.2.toDouble = .ok x → x.isFinite = true)
    (absent : Substitution.Absent name.toList text) (settings : Settings) :
    evaluate text (front ++ (↑name, value) :: back) settings =
      evaluate text (front ++ back) settings := by
  unfold evaluate Scalar.tokens
  rw [Substitution.substitute_of_absent sound special absent]

end Reckoner
