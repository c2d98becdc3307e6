import Reckoner.Proofs.LexemeReplacement

/-!
# Texts that spell some parts differently

Two texts that differ in the spelling of some parts only, none of which has letters next to it
(`Reckoner.Substitution.Respelled`). The writing of numbers in the places of names looks at words,
at the character before a word, and at whether a call or an exponent comes behind it. So it makes
texts of the same kind of such texts, if it does so of the parts
(`Reckoner.Substitution.Respelled.replaceFrom`).
-/

namespace Reckoner.Substitution

open Text Token Outcome

/-- The texts are the same, but for parts that `swap` gives another spelling. Behind such a part
stands no letter, and before it none either if it starts with a letter. -/
inductive Respelled (swap : List Char → List Char → Prop) : List Char → List Char → Prop
  | nil : Respelled swap [] []
  | other {c : Char} {text text' : List Char} (stops : isWordLetter c = false)
      (ofRest : Respelled swap text text') : Respelled swap (c :: text) (c :: text')
  | word {word text text' : List Char} (nonempty : word ≠ [])
      (areLetters : ∀ c ∈ word, isWordLetter c = true) (ends : startsWithLetter text = false)
      (ofRest : Respelled swap text text') : Respelled swap (word ++ text) (word ++ text')
  | swapped {part part' text text' : List Char} (given : swap part part')
      (ends : startsWithLetter text = false) (ofRest : Respelled swap text text') :
      Respelled swap (part ++ text) (part' ++ text')

/-- The character goes on a number, or is the sign of an exponent. -/
def joinsNumber (c : Char) : Bool :=
  isDecimalDigit c || c == '.' || c == '+' || c == '-'

/-- No spelling of a part starts with a character of numbers, and the second one starts with a
letter only where the first one does. -/
structure KeepsApart (swap : List Char → List Char → Prop) : Prop where
  first : ∀ ⦃part part'⦄, swap part part' → ∃ c rest, part = c :: rest ∧ joinsNumber c = false
  second : ∀ ⦃part part'⦄, swap part part' → ∃ c rest, part' = c :: rest ∧ joinsNumber c = false
  letters : ∀ ⦃part part'⦄, swap part part' → startsWithLetter part = false →
    startsWithLetter part' = false

theorem joinsNumber_eq_false {c : Char} : joinsNumber c = false ↔
    isDecimalDigit c = false ∧ c ≠ '.' ∧ c ≠ '+' ∧ c ≠ '-' := by
  simp only [joinsNumber, Bool.or_eq_false_iff, beq_eq_false_iff_ne, and_assoc]

theorem joinsNumber_of_isWordLetter {c : Char} (letter : isWordLetter c = true) :
    joinsNumber c = false := by
  have other {d : Char} (stops : isWordLetter d = false) : c ≠ d := by
    rintro rfl
    rw [letter] at stops
    cases stops
  exact joinsNumber_eq_false.mpr ⟨isDecimalDigit_of_isWordLetter letter, other (by decide),
    other (by decide), other (by decide)⟩

theorem startsWithLetter_append {part : List Char} (nonempty : part ≠ []) (text : List Char) :
    startsWithLetter (part ++ text) = startsWithLetter part := by
  cases part with
  | nil => exact absurd rfl nonempty
  | cons c part => rfl

theorem startsWithLetter_word {word : List Char} (nonempty : word ≠ [])
    (areLetters : ∀ c ∈ word, isWordLetter c = true) : startsWithLetter word = true := by
  cases word with
  | nil => exact absurd rfl nonempty
  | cons c word => exact areLetters c List.mem_cons_self

/-! ## Words -/

theorem lastOf_none (text : List Char) : lastOf none text = text.getLast? := by
  rcases List.eq_nil_or_concat text with rfl | ⟨front, c, rfl⟩
  · rfl
  · rw [List.concat_eq_append, lastOf_append, List.getLast?_concat]
    rfl

/-- The text that comes next may start with a letter only at the start of a word. -/
def AtWord (before : Option Char) (text : List Char) : Prop :=
  startsWithLetter text = true → before.any isWordLetter = false

theorem atWord_of_ends {rest : List Char} (ends : startsWithLetter rest = false)
    (before : Option Char) : AtWord before rest := by
  intro letter
  rw [ends] at letter
  cases letter

/-- The text consists of words of a kind, and of characters that are no letters. -/
inductive Worded (kind : List Char → Prop) : List Char → Prop
  | nil : Worded kind []
  | other {c : Char} {text : List Char} (stops : isWordLetter c = false)
      (ofRest : Worded kind text) : Worded kind (c :: text)
  | word {word text : List Char} (nonempty : word ≠ [])
      (areLetters : ∀ c ∈ word, isWordLetter c = true) (ends : startsWithLetter text = false)
      (ofWord : kind word) (ofRest : Worded kind text) : Worded kind (word ++ text)

/-- A text consists of words of a kind if every word that stands on its own in it is one. -/
theorem worded {kind : List Char → Prop} {before : Option Char} {text : List Char}
    (atWord : AtWord before text)
    (each : ∀ front word rest, text = front ++ (word ++ rest) →
      (∀ c ∈ word, isWordLetter c = true) → (lastOf before front).any isWordLetter = false →
        startsWithLetter rest = false → kind word) :
    Worded kind text := by
  induction length : text.length using Nat.strong_induction_on generalizing before text with
  | _ length ih =>
      subst length
      have ofRest {front rest : List Char} (shorter : rest.length < text.length)
          (atWord : AtWord (lastOf before front) rest) (split : text = front ++ rest) :
          Worded kind rest := by
        refine ih rest.length shorter atWord (fun inner word behind inside => ?_) rfl
        rw [← lastOf_append]
        exact each (front ++ inner) word behind (by rw [split, inside, List.append_assoc])
      cases text with
      | nil => exact .nil
      | cons c rest =>
          cases letter : isWordLetter c with
          | false =>
              exact .other letter (@ofRest [c] rest (Nat.lt_succ_self _) (fun _ => letter) rfl)
          | true =>
              have split := List.takeWhile_append_dropWhile (p := isWordLetter) (l := rest)
              have shorter := length_dropWhile_le isWordLetter rest
              have areLetters : ∀ d ∈ c :: rest.takeWhile isWordLetter, isWordLetter d = true :=
                List.forall_mem_cons.mpr ⟨letter, List.all_eq_true.mp List.all_takeWhile⟩
              have ends : startsWithLetter (rest.dropWhile isWordLetter) = false := by
                have stopped := ends_dropWhile (p := isWordLetter) rest
                cases is : rest.dropWhile isWordLetter with
                | nil => rfl
                | cons d others =>
                    rw [is] at stopped
                    exact stopped d rfl
              have whole : c :: rest =
                  (c :: rest.takeWhile isWordLetter) ++ rest.dropWhile isWordLetter := by
                rw [List.cons_append, split]
              have ofWord := each [] _ _ whole areLetters (atWord letter) ends
              have behind := ofRest (Nat.lt_succ_of_le shorter) (atWord_of_ends ends _) whole
              rw [whole]
              exact .word (List.cons_ne_nil _ _) areLetters ends ofWord behind

namespace Respelled

variable {swap later : List Char → List Char → Prop} {text text' : List Char}

theorem ofWord {word : List Char} (areLetters : ∀ c ∈ word, isWordLetter c = true)
    (ends : startsWithLetter text = false) (ofRest : Respelled swap text text') :
    Respelled swap (word ++ text) (word ++ text') := by
  by_cases none : word = []
  · subst none
    exact ofRest
  · exact .word none areLetters ends ofRest

/-- A text that ends with no letter may stand before both. -/
theorem append_cons {c : Char} (stops : isWordLetter c = false)
    (ofRest : Respelled swap text text') (front : List Char) :
    Respelled swap (front ++ c :: text) (front ++ c :: text') := by
  have ofFront : Worded (fun _ => True) front :=
    @worded _ none front (fun _ => rfl) fun _ _ _ _ _ _ _ => trivial
  induction ofFront with
  | nil => exact .other stops ofRest
  | other others _ ih => exact .other others ih
  | @word word behind nonempty areLetters ends _ _ ih =>
      rw [List.append_assoc, List.append_assoc]
      refine .word nonempty areLetters ?_ ih
      cases behind with
      | nil => exact stops
      | cons d behind => exact ends

/-- A number between parentheses may stand before both. -/
theorem append_enclosed (x : Float) (ofRest : Respelled swap text text') :
    Respelled swap (enclosed x ++ text) (enclosed x ++ text') := by
  rw [enclosed_append, enclosed_append]
  exact append_cons (by decide) ofRest ('(' :: (Decimal.shortest x).toList)

/-! ## What stands at the start -/

section Start

variable (apart : KeepsApart swap)

include apart

theorem startsWithLetter_eq_false (respelled : Respelled swap text text')
    (ends : startsWithLetter text = false) : startsWithLetter text' = false := by
  cases respelled with
  | nil => rfl
  | other stops => exact stops
  | word nonempty areLetters =>
      rw [startsWithLetter_append nonempty, startsWithLetter_word nonempty areLetters] at ends
      cases ends
  | swapped given =>
      obtain ⟨c, rest, rfl, _⟩ := apart.first given
      obtain ⟨d, rest', rfl, _⟩ := apart.second given
      have other : startsWithLetter (d :: rest') = false := apart.letters given ends
      exact other

/-- Both texts start with the same digit or sign, if one of them starts with any. -/
theorem any_head {p : Char → Bool} (numeric : ∀ c, joinsNumber c = false → p c = false)
    (respelled : Respelled swap text text') : text'.head?.any p = text.head?.any p := by
  cases respelled with
  | nil => rfl
  | other => rfl
  | @word word _ _ nonempty =>
      obtain ⟨c, rest, rfl⟩ := List.exists_cons_of_ne_nil nonempty
      rfl
  | swapped given =>
      obtain ⟨c, rest, rfl, ofFirst⟩ := apart.first given
      obtain ⟨d, rest', rfl, ofSecond⟩ := apart.second given
      exact (numeric d ofSecond).trans (numeric c ofFirst).symm

omit apart in
theorem startsExponent_of_unjoined {c : Char} (unjoined : joinsNumber c = false)
    (rest : List Char) : startsExponent (c :: rest) = false := by
  obtain ⟨digit, _, unsigned⟩ := joinsNumber_eq_false.mp unjoined
  rw [startsExponent_unsigned unsigned, digit]

theorem startsExponent_eq (respelled : Respelled swap text text') :
    startsExponent text' = startsExponent text := by
  cases respelled with
  | nil => rfl
  | @other c rest rest' stops ofRest =>
      by_cases signed : c = '+' ∨ c = '-'
      · rw [startsExponent_sign signed, startsExponent_sign signed,
          any_head apart (fun _ unjoined => (joinsNumber_eq_false.mp unjoined).1) ofRest]
      · rw [not_or] at signed
        rw [startsExponent_unsigned signed, startsExponent_unsigned signed]
  | @word word _ _ nonempty areLetters =>
      obtain ⟨c, rest, rfl⟩ := List.exists_cons_of_ne_nil nonempty
      have unjoined := joinsNumber_of_isWordLetter (areLetters c List.mem_cons_self)
      rw [List.cons_append, List.cons_append, startsExponent_of_unjoined unjoined,
        startsExponent_of_unjoined unjoined]
  | swapped given =>
      obtain ⟨c, rest, rfl, ofFirst⟩ := apart.first given
      obtain ⟨d, rest', rfl, ofSecond⟩ := apart.second given
      rw [List.cons_append, List.cons_append, startsExponent_of_unjoined ofFirst,
        startsExponent_of_unjoined ofSecond]

omit apart in
/-- A call comes next in both texts, if it does so where a part comes next. -/
theorem startsCall_eq (ofParts : ∀ ⦃part part' text text' : List Char⦄, swap part part' →
      startsCall (part' ++ text') = startsCall (part ++ text))
    (respelled : Respelled swap text text') : startsCall text' = startsCall text := by
  induction respelled with
  | nil => rfl
  | @other c rest rest' stops ofRest ih =>
      cases blank : isBlank c with
      | true => rw [startsCall_blank blank, startsCall_blank blank, ih]
      | false => rw [startsCall_cons blank, startsCall_cons blank]
  | @word word _ _ nonempty areLetters =>
      obtain ⟨c, rest, rfl⟩ := List.exists_cons_of_ne_nil nonempty
      have letter := areLetters c List.mem_cons_self
      have blank : isBlank c = false := by
        rw [← Bool.not_eq_true]
        intro blank
        rw [isWordLetter_of_isBoundary (isBoundary_of_isBlank blank)] at letter
        cases letter
      rw [List.cons_append, List.cons_append, startsCall_cons blank, startsCall_cons blank]
  | swapped given => exact ofParts given

end Start

end Respelled

/-! ## Writing for a pattern -/

section Write

variable {pattern : Pattern} {insert word rest : List Char} {before : Option Char}

/-- Only a word depends on the character before it. -/
theorem replaceFrom_before (fair : pattern.Fair) (ends : startsWithLetter rest = false)
    (before other : Option Char) :
    replaceFrom pattern insert 0 before rest = replaceFrom pattern insert 0 other rest := by
  cases rest with
  | nil => rfl
  | cons c rest => rw [replaceFrom_cons fair _ ends, replaceFrom_cons fair _ ends]

/-- Writing for the pattern makes the same of a part wherever it stands. -/
def Pattern.Makes (pattern : Pattern) (insert part out : List Char) : Prop :=
  ∀ ⦃rest : List Char⦄ ⦃before : Option Char⦄, AtWord before part → startsWithLetter rest = false →
    replaceFrom pattern insert 0 before (part ++ rest) =
      out ++ replaceFrom pattern insert 0 (lastOf before part) rest

/-- The pattern leaves a part alone wherever it stands. -/
def Pattern.LeavesAlone (pattern : Pattern) (part : List Char) : Prop :=
  ∀ insert, pattern.Makes insert part part

theorem makes_word (fair : pattern.Fair) (nonempty : word ≠ [])
    (areLetters : ∀ c ∈ word, isWordLetter c = true) (writes : Bool)
    (always : ∀ before rest, pattern.writesFor before word rest = writes) (insert : List Char) :
    pattern.Makes insert word (if writes then insert else word) := by
  intro rest before atWord ends
  have outside := atWord (startsWithLetter_word nonempty areLetters)
  rw [replaceFrom_run fair outside nonempty areLetters ends, always]

theorem leavesAlone_of_word (fair : pattern.Fair) (nonempty : word ≠ [])
    (areLetters : ∀ c ∈ word, isWordLetter c = true)
    (rejected : accepts pattern.spelling word = false) : pattern.LeavesAlone word := by
  refine makes_word fair nonempty areLetters false fun before rest => ?_
  rw [Pattern.writesFor, rejected]
  rfl

/-- Writing for the pattern makes parts that `swap` gives two spellings into parts that `later`
does, or into what is written. -/
def Pattern.Rewrites (pattern : Pattern) (insert : List Char)
    (swap later : List Char → List Char → Prop) : Prop :=
  ∀ ⦃part part' rest rest' : List Char⦄ ⦃before : Option Char⦄, swap part part' →
    AtWord before part → Respelled swap rest rest' → startsWithLetter rest = false →
      startsWithLetter rest' = false → ∃ out out',
        (later out out' ∨ out = insert ∧ out' = insert) ∧
        replaceFrom pattern insert 0 before (part ++ rest) =
          out ++ replaceFrom pattern insert 0 (lastOf before part) rest ∧
        replaceFrom pattern insert 0 before (part' ++ rest') =
          out' ++ replaceFrom pattern insert 0 (lastOf before part') rest'

end Write

section Texts

variable {swap later : List Char → List Char → Prop} {pattern : Pattern}
  {text text' part part' word rest rest' : List Char} {before : Option Char}

theorem KeepsApart.nonempty (apart : KeepsApart swap) (given : swap part part') : part ≠ [] := by
  obtain ⟨c, others, rfl, _⟩ := apart.first given
  exact List.cons_ne_nil c others

theorem AtWord.ofPart (atWord : AtWord before (part ++ rest)) (nonempty : part ≠ []) :
    AtWord before part :=
  fun letter => atWord (by rwa [startsWithLetter_append nonempty])

theorem AtWord.swapped (atWord : AtWord before part) (apart : KeepsApart swap)
    (given : swap part part') : AtWord before part' := by
  intro letter
  refine atWord (eq_true_of_ne_false fun other => ?_)
  rw [apart.letters given other] at letter
  cases letter

/-- The pattern sees calls behind both texts or behind none. -/
def Pattern.SeesSameCalls (pattern : Pattern) (swap : List Char → List Char → Prop) : Prop :=
  pattern.skipsCalls = true → ∀ ⦃text text'⦄, Respelled swap text text' →
    startsCall text' = startsCall text

/-- Whether a word is replaced does not depend on the spelling of what comes behind. -/
theorem writesFor_eq (apart : KeepsApart swap) (calls : pattern.SeesSameCalls swap)
    (ofRest : Respelled swap rest rest') :
    pattern.writesFor before word rest' = pattern.writesFor before word rest := by
  unfold Pattern.writesFor isExponentMark
  rw [ofRest.startsExponent_eq apart]
  cases skips : pattern.skipsCalls with
  | false => rfl
  | true => rw [calls skips ofRest]

/-- **Writing a number in the place of a name** in two texts that spell some parts differently. -/
theorem respelled_replaceFrom (apart : KeepsApart swap) (fair : pattern.Fair) {x : Float}
    (rewrites : pattern.Rewrites (enclosed x) swap later) (calls : pattern.SeesSameCalls swap)
    (respelled : Respelled swap text text') (atWord : AtWord before text) :
    Respelled later (replaceFrom pattern (enclosed x) 0 before text)
      (replaceFrom pattern (enclosed x) 0 before text') := by
  induction respelled generalizing before with
  | nil => exact .nil
  | other stops _ ih =>
      rw [replaceFrom_cons fair _ stops, replaceFrom_cons fair _ stops]
      exact .other stops (ih fun _ => stops)
  | @word word rest rest' nonempty areLetters ends ofRest ih =>
      have outside := atWord.ofPart nonempty (startsWithLetter_word nonempty areLetters)
      have ends' := ofRest.startsWithLetter_eq_false apart ends
      have behind := ih (atWord_of_ends ends (lastOf before word))
      rw [replaceFrom_run fair outside nonempty areLetters ends,
        replaceFrom_run fair outside nonempty areLetters ends', writesFor_eq apart calls ofRest]
      cases pattern.writesFor before word rest with
      | true => exact behind.append_enclosed x
      | false => exact .word nonempty areLetters (startsWithLetter_replaceFrom fair ends) behind
  | @swapped part part' rest rest' given ends ofRest ih =>
      have ends' := ofRest.startsWithLetter_eq_false apart ends
      have behind := ih (atWord_of_ends ends (lastOf before part))
      obtain ⟨out, out', written, first, second⟩ :=
        rewrites given (atWord.ofPart (apart.nonempty given)) ofRest ends ends'
      rw [first, second, replaceFrom_before fair ends' _ (lastOf before part)]
      rcases written with respelled | ⟨rfl, rfl⟩
      · exact .swapped respelled (startsWithLetter_replaceFrom fair ends) behind
      · exact behind.append_enclosed x

/-- The pattern leaves both spellings of every part alone. -/
def Pattern.LeavesParts (pattern : Pattern) (swap : List Char → List Char → Prop) : Prop :=
  ∀ ⦃part part'⦄, swap part part' → pattern.LeavesAlone part ∧ pattern.LeavesAlone part'

/-- A pattern that leaves the parts alone keeps their spellings. -/
theorem rewrites_of_leavesParts (apart : KeepsApart swap) {insert : List Char}
    (leaves : pattern.LeavesParts swap) : pattern.Rewrites insert swap swap := by
  intro part part' rest rest' before given atWord _ ends ends'
  exact ⟨part, part', .inl given, (leaves given).1 insert atWord ends,
    (leaves given).2 insert (atWord.swapped apart given) ends'⟩

/-- A pattern that leaves the parts alone changes both texts or none of them. -/
theorem replaceFrom_eq_self_iff (apart : KeepsApart swap) (fair : pattern.Fair)
    (leaves : pattern.LeavesParts swap) (calls : pattern.SeesSameCalls swap) {insert : List Char}
    (visible : insert ≠ []) (opens : startsWithLetter insert = false)
    (respelled : Respelled swap text text') (atWord : AtWord before text) :
    replaceFrom pattern insert 0 before text' = text' ↔
      replaceFrom pattern insert 0 before text = text := by
  induction respelled generalizing before with
  | nil => exact Iff.rfl
  | other stops _ ih =>
      rw [replaceFrom_cons fair _ stops, replaceFrom_cons fair _ stops, List.cons_inj_right,
        List.cons_inj_right]
      exact ih fun _ => stops
  | @word word rest rest' nonempty areLetters ends ofRest ih =>
      have letter := startsWithLetter_word nonempty areLetters
      have outside := atWord.ofPart nonempty letter
      have ends' := ofRest.startsWithLetter_eq_false apart ends
      have behind := ih (atWord_of_ends ends (lastOf before word))
      rw [replaceFrom_run fair outside nonempty areLetters ends,
        replaceFrom_run fair outside nonempty areLetters ends', writesFor_eq apart calls ofRest]
      cases pattern.writesFor before word rest with
      | true =>
          -- What is written starts with no letter, unlike the word.
          have differs (written others : List Char) : insert ++ written ≠ word ++ others := by
            intro is
            have starts := congrArg startsWithLetter is
            rw [startsWithLetter_append visible, startsWithLetter_append nonempty, opens,
              letter] at starts
            cases starts
          exact iff_of_false (differs _ _) (differs _ _)
      | false => simpa using behind
  | @swapped part part' rest rest' given ends ofRest ih =>
      have ofPart := atWord.ofPart (apart.nonempty given)
      have ends' := ofRest.startsWithLetter_eq_false apart ends
      have behind := ih (atWord_of_ends ends (lastOf before part))
      rw [(leaves given).1 insert ofPart ends,
        (leaves given).2 insert (ofPart.swapped apart given) ends',
        replaceFrom_before fair ends' _ (lastOf before part)]
      simpa using behind

/-! ## Writing all names -/

theorem respelled_replace (apart : KeepsApart swap) (fair : pattern.Fair) {x : Float}
    (rewrites : pattern.Rewrites (enclosed x) swap later) (calls : pattern.SeesSameCalls swap)
    (respelled : Respelled swap text text') :
    Respelled later (replace pattern (enclosed x) text) (replace pattern (enclosed x) text') :=
  respelled_replaceFrom apart fair rewrites calls respelled fun _ => rfl

theorem respelled_writeAll (apart : KeepsApart swap) {rules : List Rule}
    (sound : ∀ rule ∈ rules, rule.pattern.Fair ∧
      rule.pattern.Rewrites (enclosed rule.value) swap swap ∧ rule.pattern.SeesSameCalls swap)
    (respelled : Respelled swap text text') :
    Respelled swap (writeAll rules text) (writeAll rules text') := by
  induction rules generalizing text text' with
  | nil => exact respelled
  | cons rule rest ih =>
      obtain ⟨⟨fair, rewrites, calls⟩, ofRest⟩ := List.forall_mem_cons.mp sound
      rw [writeAll, writeAll, List.foldl_cons, List.foldl_cons]
      exact ih ofRest (respelled_replace apart fair rewrites calls respelled)

/-- An integer without a double is refused in both texts or in none of them. -/
theorem respelled_writeVariable (apart : KeepsApart swap) {name : String} {value : BoundValue}
    (sound : Bindings.fault? name value = none)
    (leaves : Pattern.LeavesParts ⟨exactly name.toList, false⟩ swap)
    (respelled : Respelled swap text text') :
    EndsAlike (Respelled swap) (· = ·) (writeVariable text name value)
      (writeVariable text' name value) := by
  have fair := fair_exactly sound
  have calls : Pattern.SeesSameCalls ⟨exactly name.toList, false⟩ swap := nofun
  unfold writeVariable
  dsimp only
  cases value.toDouble with
  | ok x =>
      exact .ok (respelled_replace apart fair (rewrites_of_leavesParts apart leaves) calls
        respelled)
  | error failure =>
      have kept : replace ⟨exactly name.toList, false⟩ ['(', ')'] text' = text' ↔
          replace ⟨exactly name.toList, false⟩ ['(', ')'] text = text :=
        replaceFrom_eq_self_iff apart fair leaves calls (List.cons_ne_nil '(' [')']) (by decide)
          respelled fun _ => rfl
      by_cases same : replace ⟨exactly name.toList, false⟩ ['(', ')'] text = text
      · simp only [same, kept.mpr same, beq_self_eq_true, if_true]
        exact .ok respelled
      · simp only [beq_false_of_ne same, beq_false_of_ne (mt kept.mp same), Bool.false_eq_true,
          if_false]
        exact .error rfl

/-- **Writing variables** that are none of the parts keeps texts alike. -/
theorem respelled_writeVariables (apart : KeepsApart swap) {bindings : Variables}
    (sound : ∀ binding ∈ bindings, Bindings.fault? binding.1 binding.2 = none)
    (leaves : ∀ binding ∈ bindings,
      Pattern.LeavesParts ⟨exactly binding.1.toList, false⟩ swap)
    (respelled : Respelled swap text text') :
    EndsAlike (Respelled swap) (· = ·) (writeVariables text bindings)
      (writeVariables text' bindings) := by
  induction bindings generalizing text text' with
  | nil => exact .ok respelled
  | cons binding rest ih =>
      obtain ⟨ofFirst, ofRest⟩ := List.forall_mem_cons.mp sound
      obtain ⟨leavesFirst, leavesRest⟩ := List.forall_mem_cons.mp leaves
      exact (respelled_writeVariable apart ofFirst leavesFirst respelled).bind
        fun _ _ alike => ih ofRest leavesRest alike

end Texts

end Reckoner.Substitution
