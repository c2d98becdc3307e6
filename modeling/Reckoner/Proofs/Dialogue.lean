import Reckoner.CommandLine.Session
import Reckoner.Proofs.InternalFailures

/-!
# Dialogues

A dialogue is a state machine over its lines, with the bindings as its state. A line that binds a
variable to the number of an expression changes one binding, and no other line changes any; a line
with an expression shows it under the bindings of its moment; and nothing but a line that stops the
dialogue, or the end of the input, ends it (`Reckoner.CommandLine.converses`).
-/

namespace Reckoner.CommandLine

open Text Outcome

/-! ## What a line asks for -/

/-- What a line asks for, told by its text without the blanks around it. -/
inductive Asks (line : String) : Line → Prop
  | stop (is : strip line.toList = "quit".toList ∨ strip line.toList = "exit".toList) :
      Asks line .stop
  | blank (is : strip line.toList = []) : Asks line .blank
  | assign {name expression : List Char}
      (is : strip line.toList = "let ".toList ++ (name ++ '=' :: expression)) (first : '=' ∉ name) :
      Asks line (.assign (String.ofList (strip name)) (String.ofList (strip expression)))
  | expression (some : strip line.toList ≠ [])
      (goesOn : strip line.toList ≠ "quit".toList ∧ strip line.toList ≠ "exit".toList)
      (unassigned : ∀ rest, strip line.toList = "let ".toList ++ rest → '=' ∉ rest) :
      Asks line (.expression (String.ofList (strip line.toList)))

/-- The text of an assignment, cut at the first sign of equality behind the name. -/
theorem assignment_eq_some {text name expression : List Char} :
    (after? "let ".toList text).bind (cutAt? '=') = some (name, expression) ↔
      text = "let ".toList ++ (name ++ '=' :: expression) ∧ '=' ∉ name := by
  rw [Option.bind_eq_some_iff]
  constructor
  · rintro ⟨rest, starts, cut⟩
    obtain ⟨rfl, first⟩ := cutAt?_eq_some.mp cut
    exact ⟨after?_eq_some.mp starts, first⟩
  · rintro ⟨rfl, first⟩
    exact ⟨_, after?_eq_some.mpr rfl, cutAt?_eq_some.mpr ⟨rfl, first⟩⟩

theorem stops_iff {text : List Char} :
    (text == "quit".toList || text == "exit".toList) = true ↔
      text = "quit".toList ∨ text = "exit".toList := by
  rw [Bool.or_eq_true, beq_iff_eq, beq_iff_eq]

theorem Asks.read {line : String} {asked : Line} (asks : Asks line asked) :
    Line.read line = asked := by
  cases asks with
  | stop is =>
      rw [Line.read, stops_iff.mpr is]
      rfl
  | blank is =>
      rw [Line.read, is]
      rfl
  | assign is first =>
      have found := assignment_eq_some.mpr ⟨is, first⟩
      have goesOn : (strip line.toList == "quit".toList || strip line.toList == "exit".toList) =
          false := by
        rw [is]
        rfl
      have some : (strip line.toList).isEmpty = false := by
        rw [is]
        rfl
      rw [Line.read]
      simp only [goesOn, some, Bool.false_eq_true, if_false, found]
  | expression some goesOn unassigned =>
      have goesOn := Bool.not_eq_true _ ▸ stops_iff.not.mpr (not_or.mpr goesOn)
      have none : (after? "let ".toList (strip line.toList)).bind (cutAt? '=') = none := by
        refine Option.eq_none_iff_forall_ne_some.mpr fun ⟨name, value⟩ found => ?_
        refine unassigned _ (assignment_eq_some.mp found).1 ?_
        exact List.mem_append_right name List.mem_cons_self
      rw [Line.read]
      simp only [goesOn, List.isEmpty_eq_false_iff.mpr some, Bool.false_eq_true, if_false, none]

theorem asks_read (line : String) : Asks line (Line.read line) := by
  unfold Line.read
  dsimp only
  split
  · rename_i stops
    exact .stop (stops_iff.mp stops)
  · rename_i goesOn
    rw [stops_iff, not_or] at goesOn
    split
    · rename_i empty
      exact .blank (List.isEmpty_iff.mp empty)
    · rename_i some
      split
      · rename_i found
        obtain ⟨is, first⟩ := assignment_eq_some.mp found
        exact .assign is first
      · rename_i none
        refine .expression (fun is => some (List.isEmpty_iff.mpr is)) goesOn ?_
        intro rest is assigns
        obtain ⟨name, expression, rfl, first⟩ := List.eq_append_cons_of_mem assigns
        rw [assignment_eq_some.mpr ⟨is, first⟩] at none
        cases none

/-- **A line is read as what it asks for.** -/
theorem asks_iff {line : String} {asked : Line} : Asks line asked ↔ Line.read line = asked :=
  ⟨Asks.read, fun is => is ▸ asks_read line⟩

/-! ## Parts of a reply -/

namespace Reply

variable {α β : Type}

/-- A sequence goes on behind a part that ends with a value. -/
theorem bind_of_ok {first : Reply α} {value : α} (ends : first.outcome = .ok value)
    (next : α → Reply β) : first >>= next =
      ⟨first.printed ++ (next value).printed, first.copied ++ (next value).copied,
        (next value).outcome⟩ := by
  change Reply.bind first next = _
  rw [Reply.bind, ends]

theorem map_of_ok {first : Reply α} {value : α} (ends : first.outcome = .ok value) (f : α → β) :
    (first >>= fun a => pure (f a)) = ⟨first.printed, first.copied, .ok (f value)⟩ := by
  have printed : first.printed ++ "" = first.printed := String.append_empty
  have copied : first.copied ++ [] = first.copied := List.append_nil _
  rw [bind_of_ok ends]
  change Reply.mk (first.printed ++ "") (first.copied ++ []) (.ok (f value)) = _
  rw [printed, copied]

/-- How a sequence ends depends on how its parts end. -/
@[simp] theorem outcome_bind (first : Reply α) (next : α → Reply β) :
    (first >>= next).outcome = first.outcome >>= fun value => (next value).outcome := by
  change (Reply.bind first next).outcome = _
  unfold Reply.bind
  cases first.outcome <;> rfl

/-- What a sequence copies is what its parts copy, as far as it gets. -/
@[simp] theorem copied_bind (first : Reply α) (next : α → Reply β) :
    (first >>= next).copied = first.copied ++
      match first.outcome with
      | .ok value => (next value).copied
      | .error _ => [] := by
  change (Reply.bind first next).copied = _
  unfold Reply.bind
  cases first.outcome with
  | ok value => rfl
  | error failure => exact (List.append_nil _).symm

@[simp] theorem outcome_pure (value : α) : (pure value : Reply α).outcome = .ok value := rfl

@[simp] theorem copied_pure (value : α) : (pure value : Reply α).copied = [] := rfl

@[simp] theorem outcome_print (lines : List String) : (print lines).outcome = .ok () := rfl

@[simp] theorem copied_print (lines : List String) : (print lines).copied = [] := rfl

@[simp] theorem outcome_copy (text : String) : (copy text).outcome = .ok () := rfl

@[simp] theorem copied_copy (text : String) : (copy text).copied = [text] := rfl

@[simp] theorem outcome_ofExcept (outcome : Except Failure α) :
    (ofExcept outcome).outcome = outcome := rfl

@[simp] theorem copied_ofExcept (outcome : Except Failure α) : (ofExcept outcome).copied = [] := rfl

@[simp] theorem copied_ofReport (report : Report α) : (ofReport report).copied = [] := by
  unfold ofReport
  rw [copied_bind, copied_print, outcome_print, List.nil_append]
  dsimp only
  split <;> rfl

theorem outcome_ofReport_of_ok {report : Report α} {value : α} (ends : report.outcome = .ok value) :
    (ofReport report).outcome = .ok (.ok value) := by
  rw [ofReport, outcome_bind, ends]
  rfl

theorem outcome_ofReport_of_refused {report : Report α} {cause : Cause} {input : Option String}
    (ends : report.outcome = .error (.refused cause input)) :
    (ofReport report).outcome = .ok (.error (cause, input)) := by
  rw [ofReport, outcome_bind, ends]
  rfl

end Reply

/-! ## The answer to a line -/

/-- The value of an expression under bindings. -/
def valueOf (settings : Settings) (bindings : Bindings) (expression : String) :
    Except Failure Value :=
  (Evaluation.evaluate expression bindings settings).outcome.map Prod.fst

/-- How a line that does not stop a dialogue is answered under bindings: what is printed, what is
copied, and the bindings afterwards. -/
inductive Answers (context : Context) (bindings : Bindings) (line : String) :
    String → List String → Bindings → Prop
  | blank (asks : Asks line .blank) : Answers context bindings line "" [] bindings
  | bound {name expression : String} {x : Float} (asks : Asks line (.assign name expression))
      (valued : valueOf context.settings bindings expression = .ok (.number x))
      (accepted : Bindings.check [(name, .double x)] = .ok ()) :
      Answers context bindings line (letVariable context bindings name expression).printed []
        (bindings.put name (.double x))
  | unbound {name expression : String} (asks : Asks line (.assign name expression))
      (rejected : ∀ x, valueOf context.settings bindings expression = .ok (.number x) →
        Bindings.check [(name, .double x)] ≠ .ok ()) :
      Answers context bindings line (letVariable context bindings name expression).printed []
        bindings
  | shown {text result : String} {value : Value} (asks : Asks line (.expression text))
      (valued : valueOf context.settings bindings text = .ok value)
      (rendered : Display.value context.settings value = .ok result) :
      Answers context bindings line (showResult context text bindings).printed
        (if context.copyResult then [result] else []) bindings
  | refused {text : String} {failure : Failure} (asks : Asks line (.expression text))
      (failed : valueOf context.settings bindings text = .error failure) :
      Answers context bindings line (showResult context text bindings).printed [] bindings

variable {context : Context} {bindings : Bindings}

/-- An expression with a value is shown, and its text is copied if copying is wanted. -/
theorem showResult_of_ok {text result : String} {value : Value}
    (valued : valueOf context.settings bindings text = .ok value)
    (rendered : Display.value context.settings value = .ok result) :
    (showResult context text bindings).copied = (if context.copyResult then [result] else []) ∧
      (showResult context text bindings).outcome = .ok 0 := by
  obtain ⟨⟨same, steps⟩, evaluated, rfl⟩ := map_eq_ok.mp valued
  have read := Reply.outcome_ofReport_of_ok evaluated
  unfold showResult
  cases copies : context.copyResult <;> simp [read, rendered]

/-- An expression without a value is refused. -/
theorem exists_refused_of_valueOf {settings : Settings} {text : String} {failure : Failure}
    (failed : valueOf settings bindings text = .error failure) :
    ∃ cause input, (Evaluation.evaluate text bindings settings).outcome =
      .error (.refused cause input) := by
  cases evaluated : (Evaluation.evaluate text bindings settings).outcome with
  | ok result =>
      rw [valueOf, evaluated] at failed
      cases failed
  | error failure =>
      obtain ⟨cause, input, rfl⟩ := Evaluation.exists_refused evaluated
      exact ⟨cause, input, rfl⟩

/-- A refused expression is reported, and nothing is copied. -/
theorem showResult_of_error {text : String} {failure : Failure}
    (failed : valueOf context.settings bindings text = .error failure) :
    (showResult context text bindings).copied = [] ∧
      (showResult context text bindings).outcome = .ok 1 := by
  obtain ⟨cause, input, evaluated⟩ := exists_refused_of_valueOf failed
  have read := Reply.outcome_ofReport_of_refused evaluated
  unfold showResult
  simp [read]

/-- A variable is bound to the number of an expression, if its name is accepted. -/
theorem letVariable_of_bound {name expression result : String} {x : Float}
    (valued : valueOf context.settings bindings expression = .ok (.number x))
    (accepted : Bindings.check [(name, .double x)] = .ok ())
    (rendered : Display.value context.settings (.number x) = .ok result) :
    (letVariable context bindings name expression).copied = [] ∧
      (letVariable context bindings name expression).outcome =
        .ok (bindings.put name (.double x)) := by
  obtain ⟨⟨same, steps⟩, evaluated, rfl⟩ := map_eq_ok.mp valued
  have read := Reply.outcome_ofReport_of_ok evaluated
  have number : numberFor name (.number x) = .ok x := by
    rw [numberFor, Bindings.check_singleton.mp accepted]
  unfold letVariable
  simp [read, number, rendered]

/-- No variable is bound where the expression has no number, or the name is not accepted. -/
theorem letVariable_of_unbound {name expression : String}
    (rejected : ∀ x, valueOf context.settings bindings expression = .ok (.number x) →
      Bindings.check [(name, .double x)] ≠ .ok ()) :
    (letVariable context bindings name expression).copied = [] ∧
      (letVariable context bindings name expression).outcome = .ok bindings := by
  cases valued : valueOf context.settings bindings expression with
  | error failure =>
      obtain ⟨cause, input, evaluated⟩ := exists_refused_of_valueOf valued
      have read := Reply.outcome_ofReport_of_refused evaluated
      unfold letVariable
      simp [read]
  | ok value =>
      obtain ⟨⟨same, steps⟩, evaluated, rfl⟩ := map_eq_ok.mp valued
      have read := Reply.outcome_ofReport_of_ok evaluated
      obtain ⟨cause, number⟩ : ∃ cause, numberFor name same = .error cause := by
        cases same with
        | number x =>
            cases fault : Bindings.fault? name (.double x) with
            | none => exact absurd (Bindings.check_singleton.mpr fault) (rejected x valued)
            | some cause => exact ⟨cause, by rw [numberFor, fault]⟩
        | matrix rows => exact ⟨_, rfl⟩
        | complex z => exact ⟨_, rfl⟩
        | answer text => exact ⟨_, rfl⟩
      unfold letVariable
      simp [read, number]

/-! ## One line -/

section Step

variable {line printed : String} {copied : List String} {next : Bindings} {places : Nat}
  (given : context.settings.decimalPlaces = .ok places) (few : places ≤ Rendering.placesLimit)

include given few

/-- **A line is answered as it asks for.** -/
theorem answer_of_answers (answers : Answers context bindings line printed copied next) :
    answer context bindings line = ⟨printed, copied, .ok (some next)⟩ := by
  cases answers with
  | blank asks =>
      rw [answer, asks_iff.mp asks]
      rfl
  | @bound name expression x asks valued accepted =>
      obtain ⟨result, rendered, -⟩ := (Display.endsIn_value given few (.number x)).exists_ok
      obtain ⟨silent, ends⟩ := letVariable_of_bound valued accepted rendered
      rw [answer, asks_iff.mp asks]
      dsimp only
      rw [Reply.map_of_ok ends, silent]
  | unbound asks rejected =>
      obtain ⟨silent, ends⟩ := letVariable_of_unbound rejected
      rw [answer, asks_iff.mp asks]
      dsimp only
      rw [Reply.map_of_ok ends, silent]
  | shown asks valued rendered =>
      obtain ⟨copies, ends⟩ := showResult_of_ok valued rendered
      rw [answer, asks_iff.mp asks]
      dsimp only
      rw [Reply.map_of_ok ends, copies]
  | refused asks failed =>
      obtain ⟨copies, ends⟩ := showResult_of_error failed
      rw [answer, asks_iff.mp asks]
      dsimp only
      rw [Reply.map_of_ok ends, copies]

/-- Every line that does not stop a dialogue is answered. -/
theorem exists_answers (goesOn : ¬Asks line .stop) :
    ∃ printed copied next, Answers context bindings line printed copied next := by
  cases read : Line.read line with
  | stop => exact absurd (asks_iff.mpr read) goesOn
  | blank => exact ⟨_, _, _, .blank (asks_iff.mpr read)⟩
  | assign name expression =>
      have asks := asks_iff.mpr read
      by_cases bound : ∃ x, valueOf context.settings bindings expression = .ok (.number x) ∧
          Bindings.check [(name, .double x)] = .ok ()
      · obtain ⟨x, valued, accepted⟩ := bound
        exact ⟨_, _, _, .bound asks valued accepted⟩
      · exact ⟨_, _, _, .unbound asks fun x valued accepted => bound ⟨x, valued, accepted⟩⟩
  | expression text =>
      have asks := asks_iff.mpr read
      cases valued : valueOf context.settings bindings text with
      | error failure => exact ⟨_, _, _, .refused asks valued⟩
      | ok value =>
          obtain ⟨result, rendered, -⟩ := (Display.endsIn_value given few value).exists_ok
          exact ⟨_, _, _, .shown asks valued rendered⟩

end Step

/-! ## Many lines -/

/-- How lines that do not stop a dialogue are answered one after the other: what is printed, with the
prompt in front of every line, what is copied, and the bindings afterwards. -/
inductive Conversation (context : Context) :
    Bindings → List String → String → List String → Bindings → Prop
  | nil {bindings : Bindings} : Conversation context bindings [] "" [] bindings
  | cons {bindings next last : Bindings} {line printed more : String} {rest copied others : List String}
      (answers : Answers context bindings line printed copied next)
      (further : Conversation context next rest more others last) :
      Conversation context bindings (line :: rest) (prompt ++ printed ++ more) (copied ++ others) last

section Run

variable {lines copied : List String} {printed : String} {last : Bindings} {places : Nat}

theorem Conversation.append {more : String} {others behind : List String} {final : Bindings}
    (first : Conversation context bindings lines printed copied last)
    (second : Conversation context last behind more others final) :
    Conversation context bindings (lines ++ behind) (printed ++ more) (copied ++ others) final := by
  induction first with
  | nil =>
      rw [String.empty_append]
      exact second
  | cons answers _ ih =>
      rw [List.cons_append, String.append_assoc, List.append_assoc]
      exact .cons answers (ih second)

/-- A conversation can be broken off behind any of its lines and taken up again with the bindings of
that moment. -/
theorem Conversation.split {first rest : List String}
    (conversation : Conversation context bindings (first ++ rest) printed copied last) :
    ∃ before after copiedBefore copiedAfter middle,
      Conversation context bindings first before copiedBefore middle ∧
        Conversation context middle rest after copiedAfter last ∧
          printed = before ++ after ∧ copied = copiedBefore ++ copiedAfter := by
  induction first generalizing bindings printed copied with
  | nil => exact ⟨_, _, _, _, _, .nil, conversation, String.empty_append.symm, rfl⟩
  | cons line first ih =>
      cases conversation with
      | cons answers further =>
          obtain ⟨before, after, copiedBefore, copiedAfter, middle, ofFirst, ofRest, rfl, rfl⟩ :=
            ih further
          exact ⟨_, _, _, _, middle, .cons answers ofFirst, ofRest,
            String.append_assoc.symm, (List.append_assoc _ _ _).symm⟩

variable (given : context.settings.decimalPlaces = .ok places)
  (few : places ≤ Rendering.placesLimit)

include given few

/-- A dialogue goes on behind a line that has been answered, with the bindings as they are then. -/
theorem dialogue_cons {line : String} {next : Bindings}
    (answers : Answers context bindings line printed copied next) (rest : List String) :
    dialogue context bindings (line :: rest) =
      ⟨prompt ++ printed ++ (dialogue context next rest).printed,
        copied ++ (dialogue context next rest).copied, (dialogue context next rest).outcome⟩ := by
  rw [dialogue, Reply.bind_of_ok rfl, answer_of_answers given few answers, Reply.bind_of_ok rfl]
  change Reply.mk (prompt ++ (printed ++ _)) ([] ++ (copied ++ _)) _ = _
  rw [String.append_assoc, List.nil_append]

/-- A dialogue goes on behind lines that have been answered. -/
theorem dialogue_of_conversation (conversation : Conversation context bindings lines printed copied last)
    (rest : List String) : dialogue context bindings (lines ++ rest) =
      ⟨printed ++ (dialogue context last rest).printed, copied ++ (dialogue context last rest).copied,
        (dialogue context last rest).outcome⟩ := by
  induction conversation with
  | nil =>
      rw [String.empty_append]
      rfl
  | cons answers _ ih =>
      rw [List.cons_append, dialogue_cons given few answers, ih]
      dsimp only
      rw [String.append_assoc, String.append_assoc, String.append_assoc, List.append_assoc]

/-- Lines have only one conversation. -/
theorem Conversation.unique (conversation : Conversation context bindings lines printed copied last)
    {more : String} {others : List String} {final : Bindings}
    (other : Conversation context bindings lines more others final) :
    more = printed ∧ others = copied ∧ final = last := by
  induction conversation generalizing more others with
  | nil =>
      cases other
      exact ⟨rfl, rfl, rfl⟩
  | cons answers _ ih =>
      cases other with
      | cons again further =>
          have same := (answer_of_answers given few again).symm.trans
            (answer_of_answers given few answers)
          cases same
          obtain ⟨rfl, rfl, rfl⟩ := ih further
          exact ⟨rfl, rfl, rfl⟩

/-- Lines that do not stop a dialogue are all answered. -/
theorem exists_conversation (goOn : ∀ line ∈ lines, ¬Asks line .stop) :
    ∃ printed copied last, Conversation context bindings lines printed copied last := by
  induction lines generalizing bindings with
  | nil => exact ⟨_, _, _, .nil⟩
  | cons line rest ih =>
      obtain ⟨ofLine, ofRest⟩ := List.forall_mem_cons.mp goOn
      obtain ⟨printed, copied, next, answers⟩ := exists_answers given few ofLine
      obtain ⟨more, others, last, further⟩ := ih ofRest
      exact ⟨_, _, _, .cons answers further⟩

end Run

/-- A dialogue ends where a line stops it, or with the input. -/
theorem dialogue_of_stopped {rest : List String} (stops : ∀ line ∈ rest.head?, Asks line .stop) :
    dialogue context bindings rest = ⟨prompt, [], .ok ()⟩ := by
  cases rest with
  | nil => rfl
  | cons line rest =>
      have asks := stops line rfl
      rw [dialogue, Reply.bind_of_ok rfl, answer, asks_iff.mp asks]
      rfl

/-! ## Sessions that converse -/

/-- Nothing but a dialogue is asked for. -/
structure AsksForDialogue (arguments : Arguments) : Prop where
  help : arguments.help = false
  expression : arguments.expression = none
  paste : arguments.paste = false
  newSettings : arguments.newSettings = []

/-- Lines up to the first that stops a dialogue, and the others. -/
theorem exists_stop (input : List String) : ∃ lines rest, input = lines ++ rest ∧
    (∀ line ∈ lines, ¬Asks line .stop) ∧ ∀ line ∈ rest.head?, Asks line .stop := by
  induction input with
  | nil => exact ⟨[], [], rfl, List.forall_mem_nil _, fun line none => by cases none⟩
  | cons line input ih =>
      by_cases stops : Asks line .stop
      · refine ⟨[], line :: input, rfl, List.forall_mem_nil _, fun other is => ?_⟩
        cases is
        exact stops
      · obtain ⟨lines, rest, rfl, ofLines, ofRest⟩ := ih
        exact ⟨line :: lines, rest, rfl, List.forall_mem_cons.mpr ⟨stops, ofLines⟩, ofRest⟩

variable {arguments : Arguments} {surroundings : Surroundings} {settings : Settings} {places : Nat}

/-- A session that is asked for nothing else holds a dialogue with the settings of the file. -/
theorem run_of_asksForDialogue (asks : AsksForDialogue arguments)
    (loaded : Settings.load surroundings.file = .ok settings) (ends :
      (dialogue (arguments.context settings) arguments.bindings surroundings.input).outcome =
        .ok ()) :
    run arguments surroundings =
      ⟨⟨greeting ++
          (dialogue (arguments.context settings) arguments.bindings surroundings.input).printed,
        (dialogue (arguments.context settings) arguments.bindings surroundings.input).copied,
        .ok 0⟩, surroundings.file⟩ := by
  have stored : arguments.storeSettings surroundings.file = .ok surroundings.file := by
    rw [Arguments.storeSettings, asks.newSettings]
    rfl
  have converse : arguments.task surroundings.clipboard = .converse := by
    rw [Arguments.task, asks.paste, asks.expression, asks.newSettings]
    rfl
  rw [run, asks.help, if_neg Bool.false_ne_true, stored]
  dsimp only
  rw [loaded]
  dsimp only
  rw [Arguments.perform, converse]
  dsimp only
  rw [Reply.bind_of_ok rfl, Reply.map_of_ok ends fun _ => 0]
  rfl

/-- **A dialogue is a state machine.** With up to 300 decimal places, a session without an expression
answers all lines up to the first that stops it, or to the end of the input, and ends with exit code
zero and the settings file as it was. What it prints and copies is what its lines make it to, one
after the other, each under the bindings that the lines before have left; and behind any of the lines
the dialogue stands where these bindings put it. -/
theorem converses (asks : AsksForDialogue arguments)
    (loaded : Settings.load surroundings.file = .ok settings)
    (given : settings.decimalPlaces = .ok places) (few : places ≤ 300) :
    ∃ lines rest, surroundings.input = lines ++ rest ∧ (∀ line ∈ lines, ¬Asks line .stop) ∧
      (∀ line ∈ rest.head?, Asks line .stop) ∧
        (∃ printed copied last,
          Conversation (arguments.context settings) arguments.bindings lines printed copied last ∧
            run arguments surroundings =
              ⟨⟨greeting ++ printed ++ prompt, copied, .ok 0⟩, surroundings.file⟩) ∧
          ∀ first others, lines = first ++ others → ∃ printed copied middle,
            Conversation (arguments.context settings) arguments.bindings first printed copied middle ∧
              dialogue (arguments.context settings) arguments.bindings surroundings.input =
                ⟨printed ++ (dialogue (arguments.context settings) middle (others ++ rest)).printed,
                  copied ++ (dialogue (arguments.context settings) middle (others ++ rest)).copied,
                  .ok ()⟩ := by
  obtain ⟨lines, rest, input, goOn, stops⟩ := exists_stop surroundings.input
  have given : (arguments.context settings).settings.decimalPlaces = .ok places := given
  have within : places ≤ Rendering.placesLimit := Nat.le_trans few (by decide)
  obtain ⟨printed, copied, last, conversation⟩ :=
    @exists_conversation _ arguments.bindings _ _ given within goOn
  have answered := dialogue_of_conversation given within conversation rest
  rw [dialogue_of_stopped stops, ← input, List.append_nil] at answered
  refine ⟨lines, rest, input, goOn, stops, ⟨printed, copied, last, conversation, ?_⟩, ?_⟩
  · rw [run_of_asksForDialogue asks loaded (congrArg Reply.outcome answered), answered,
      String.append_assoc]
  · rintro first others rfl
    obtain ⟨before, after, copiedBefore, copiedAfter, middle, ofFirst, ofOthers, -, -⟩ :=
      conversation.split
    have stands := dialogue_of_conversation given within ofFirst (others ++ rest)
    rw [← List.append_assoc, ← input] at stands
    refine ⟨before, copiedBefore, middle, ofFirst, ?_⟩
    rw [stands, ← congrArg Reply.outcome stands, answered]

/-- A variable that is bound and used, a name that is not accepted, and a line behind the end. -/
theorem converses_let_and_use : ∃ lines rest printed copied last,
    ["let a = y + 1", "let pi = 3", "a * 2", " quit ", "7"] = lines ++ rest ∧
      (∀ line ∈ rest.head?, Asks line .stop) ∧
        Conversation ⟨Settings.defaults, true⟩ [("y", .double 2)] lines printed copied last ∧
          greeting ++ printed ++ prompt = "Enter the problem ('quit' to leave): \n" ++
            "> a = 3\n" ++
            "> Error: Invalid variable name: 'pi' is a reserved constant or function name\n" ++
            ">   Evaluating: a * 2\n  Converted to postfix: 3 2 *\n  3 * 2 = 6\n6\n" ++ "> " ∧
          copied = ["6"] := by
  have asks : AsksForDialogue { assignments := [("y", 2)], copy := true } := ⟨rfl, rfl, rfl, rfl⟩
  obtain ⟨lines, rest, input, -, stops, ⟨printed, copied, last, conversation, ran⟩, -⟩ :=
    @converses _ ⟨.absent, "", ["let a = y + 1", "let pi = 3", "a * 2", " quit ", "7"]⟩
      Settings.defaults 6 asks rfl rfl (by decide)
  have text : (run { assignments := [("y", 2)], copy := true } ⟨.absent, "",
      ["let a = y + 1", "let pi = 3", "a * 2", " quit ", "7"]⟩).reply.printed =
        "Enter the problem ('quit' to leave): \n" ++ "> a = 3\n" ++
          "> Error: Invalid variable name: 'pi' is a reserved constant or function name\n" ++
          ">   Evaluating: a * 2\n  Converted to postfix: 3 2 *\n  3 * 2 = 6\n6\n" ++ "> " := by
    decide +kernel
  have copies : (run { assignments := [("y", 2)], copy := true } ⟨.absent, "",
      ["let a = y + 1", "let pi = 3", "a * 2", " quit ", "7"]⟩).reply.copied = ["6"] := by
    decide +kernel
  rw [ran] at text copies
  exact ⟨lines, rest, printed, copied, last, input, stops, conversation, text, copies⟩

end Reckoner.CommandLine
