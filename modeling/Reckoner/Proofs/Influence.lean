import Reckoner.Proofs.AngleWords
import Reckoner.Proofs.Equation.Answered
import Reckoner.Proofs.InternalFailures

/-!
# What settings influence

The outcome of an evaluation depends on few settings: on the reader, on what angles are measured in
where there are functions of angles, and in equations on how numbers are shown
(`Reckoner.Evaluation.settings_influence`). Two evaluations are compared stage by stage. One mirrors
the other (`Reckoner.Outcome.Mirrors`) if it has the same value, and the same failure unless its
reader is lenient and the other one strict.
-/

namespace Reckoner

open Outcome

/-! ## A lenient reader -/

/-- The settings of the second reader are those of the first, or it is lenient where the first is
strict and only values count. -/
def Relents (whole : Prop) (first second : Bool) : Prop :=
  first = second ∨ first = false ∧ second = true ∧ ¬whole

namespace Token

/-- **A lenient reader reads what a strict one reads.** -/
theorem scan_of_strict {text : List Char} {tokens : List Token}
    (scanned : scan false text = .ok tokens) : scan true text = .ok tokens := by
  rw [← scanned]
  refine scan_eq_of_settled fun c failed => ?_
  rw [scanned] at failed
  cases failed

/-- The tokens of a text for a reader that relents. -/
theorem mirrors_scan {first second : Bool} (relents : Relents whole first second)
    (text : List Char) : Mirrors whole (scan first text) (scan second text) := by
  rcases relents with rfl | ⟨rfl, rfl, values⟩
  · exact .refl _
  · exact ⟨fun tokens => scan_of_strict, fun counts => absurd counts values⟩

end Token

/-! ## Functions of angles -/

namespace NamedFunction

theorem isAngular_of_ofName? {name : String} {f : NamedFunction} (found : ofName? name = some f) :
    (f.takesAngle || f.givesAngle) = angleFunctions.contains (lowerName name) := by
  have each : ∀ entry ∈ table,
      (entry.2.takesAngle || entry.2.givesAngle) = angleFunctions.contains entry.1 := by decide
  exact each _ (Entries.mem_of_get? found)

/-- What is measured in degrees does not matter to a function without angles. -/
theorem apply_of_no_angle {f : NamedFunction} (takes : f.takesAngle = false)
    (gives : f.givesAngle = false) (name : String) (arguments : List Float) (first second : Bool) :
    f.apply name arguments first = f.apply name arguments second := by
  unfold apply
  rw [takes, gives, Bool.and_false, Bool.and_false]

end NamedFunction

namespace Token

/-- What the conversion of a token gives has been on the stack, is the token or is the sign. -/
theorem mem_of_shunt {stack : List Token} {previous : Option Token} {token : Token}
    {out next : List Token} (shunted : shunt stack previous token = .ok (out, next)) :
    ∀ t ∈ out ++ next, t ∈ stack ∨ t = token ∨ t = .operator .negate := by
  intro t member
  have added {other : Token} {front back : List Token} (parts : front ++ back = stack)
      (member : t ∈ front ++ other :: back) : t ∈ stack ∨ t = other := by
    rw [List.mem_append, List.mem_cons] at member
    rw [← parts, List.mem_append]
    tauto
  cases shunts_of_shunt shunted with
  | number value => exact (@added _ [] stack rfl member).imp_right .inl
  | identifier name => exact (@added _ [] stack rfl member).imp_right .inl
  | function name => exact (@added _ [] stack rfl member).imp_right .inl
  | opening => exact (@added _ [] stack rfl member).imp_right .inl
  | closing grouped =>
      rw [List.append_assoc, popCalled_append_rest] at member
      rw [eq_of_popGroup grouped]
      exact .inl ((List.sublist_cons_self _ _).append_left _ |>.subset member)
  | comma grouped =>
      rw [eq_of_popGroup grouped]
      exact .inl member
  | minus due => exact (@added _ [] stack rfl member).imp_right .inr
  | plus due => exact .inl member
  | operator notDue => exact (added (popYielding_append_rest _ stack) member).imp_right .inl

/-- What stands in the post-order of tokens is one of them, or the sign. -/
theorem mem_of_postOrderFrom {stack ordered tokens : List Token} {previous : Option Token}
    (converted : postOrderFrom stack previous tokens = .ok ordered) :
    ∀ t ∈ ordered, t ∈ stack ∨ t ∈ tokens ∨ t = .operator .negate := by
  induction tokens generalizing stack ordered previous with
  | nil =>
      intro t member
      rw [eq_of_flush converted] at member
      exact .inl member
  | cons token tokens ih =>
      obtain ⟨out, next, following, shunted, further, rfl⟩ := shunt_of_postOrderFrom converted
      have here := mem_of_shunt shunted
      intro t member
      have settled (inside : t ∈ out ++ next) :
          t ∈ stack ∨ t ∈ token :: tokens ∨ t = .operator .negate := by
        rcases here t inside with onStack | is | sign
        · exact .inl onStack
        · exact .inr (.inl (is ▸ List.mem_cons_self))
        · exact .inr (.inr sign)
      rcases List.mem_append.mp member with member | member
      · exact settled (List.mem_append_left _ member)
      · rcases ih further t member with onStack | later | sign
        · exact settled (List.mem_append_right _ onStack)
        · exact .inr (.inl (List.mem_cons_of_mem _ later))
        · exact .inr (.inr sign)

end Token

namespace Scalar

/-- A token that is no function of angles does the same in degrees and in radians. -/
theorem step_of_not_angular {token : Token} (plain : token.isAngular = false) (first second : Bool)
    (stack : List Float) : step first stack token = step second stack token := by
  cases token with
  | function name =>
      rw [step, step]
      cases found : NamedFunction.ofName? name with
      | none => rfl
      | some f =>
          have angles := NamedFunction.isAngular_of_ofName? found
          change angleFunctions.contains (lowerName name) = false at plain
          rw [plain, Bool.or_eq_false_iff] at angles
          dsimp only
          rw [NamedFunction.apply_of_no_angle angles.1 angles.2 _ _ first second]
  | operator op => cases op <;> rfl
  | _ => rfl

theorem run_of_not_angular {tokens : List Token}
    (plain : ∀ token ∈ tokens, token.isAngular = false) (first second : Bool) (stack : List Float) :
    run first stack tokens = run second stack tokens := by
  induction tokens generalizing stack with
  | nil => rfl
  | cons token tokens ih =>
      obtain ⟨ofToken, ofTokens⟩ := List.forall_mem_cons.mp plain
      rw [run, run, step_of_not_angular ofToken first second]
      refine congrArg (step second stack token >>= ·) (funext fun result => ?_)
      obtain ⟨stack, lines⟩ := result
      dsimp only
      rw [ih ofTokens]

/-- Tokens without functions of angles have the same value in degrees and in radians. -/
theorem evaluatePostOrder_of_not_angular {tokens : List Token}
    (plain : ∀ token ∈ tokens, token.isAngular = false) (first second : Bool) :
    evaluatePostOrder first tokens = evaluatePostOrder second tokens := by
  rw [evaluatePostOrder, evaluatePostOrder, run_of_not_angular plain first second]

variable {whole : Prop} {s t : Settings}

theorem mirrors_orRefuse {α : Type} {first second : Except Cause α}
    (mirrors : Mirrors whole first second) :
    Mirrors whole (orRefuse first) (orRefuse second) :=
  mirrors.through fun cause => ⟨Failure.of cause, rfl⟩

/-- The tokens of an expression for a reader that relents. -/
theorem mirrors_tokens {first second : Bool} (relents : Relents whole first second)
    (text : List Char) (bindings : Bindings) :
    Mirrors whole (Scalar.tokens text bindings first) (Scalar.tokens text bindings second) := by
  unfold Scalar.tokens
  refine (Mirrors.refl _).bind fun text _ => ?_
  refine (mirrors_orRefuse (Token.mirrors_scan relents text)).bind fun tokens _ => ?_
  exact .refl _

/-- **What settings influence in arithmetic**: the reader, and the measure of angles where there are
functions of angles. -/
theorem mirrors_evaluate (relents : Relents whole s.lenient t.lenient) {text : List Char}
    {bindings : Bindings} (angles : s.degrees = t.degrees ∨ ∀ tokens,
      Scalar.tokens text bindings s.lenient = .ok tokens →
        ∀ token ∈ tokens, token.isAngular = false) :
    Mirrors whole (Scalar.evaluate text bindings s).outcome
      (Scalar.evaluate text bindings t).outcome := by
  rw [outcome_evaluate, outcome_evaluate]
  refine (mirrors_tokens relents text bindings).bind fun tokens read => ?_
  refine (Mirrors.refl _).bind fun ordered converted => ?_
  have same : evaluatePostOrder s.degrees ordered = evaluatePostOrder t.degrees ordered := by
    rcases angles with same | plain
    · rw [same]
    · refine evaluatePostOrder_of_not_angular (fun token member => ?_) _ _
      have placed := Token.mem_of_postOrderFrom (orRefuse_eq_ok.mp converted) token member
      rcases placed with none | isToken | rfl
      · cases none
      · exact plain tokens read token isToken
      · rfl
  rw [same]
  exact .refl _

end Scalar

/-- The tokens that are evaluated have no function of angles if the text has none. -/
theorem isAngular_of_tokens {text : List Char} {bindings : Bindings} {lenient : Bool}
    {tokens : List Token} (read : Scalar.tokens text bindings lenient = .ok tokens)
    (none : isAngleless [] text = true) : ∀ token ∈ tokens, token.isAngular = false := by
  obtain ⟨written, raw, substituted, scanned, _, rfl⟩ := Scalar.tokens_eq_ok.mp read
  have each := isAngleless_eq_of_scan scanned
  rw [Substitution.isAngleless_of_substitute substituted none, eq_comm, List.all_eq_true] at each
  intro token member
  rcases Token.mem_insertProducts member with member | rfl
  · exact (Bool.not_eq_true' _).mp (each token member)
  · rfl

/-! ## Equations -/

namespace Equation

open Text

variable {whole : Prop} {s t : Settings}

/-- A numeric text has no words. -/
theorem isAngleless_of_isNumeric {text : List Char} (numeric : ∀ c ∈ text, isNumeric c = true) :
    isAngleless [] text = true := by
  have none := @isAngleless_others text [] fun c member => by
    rw [← Bool.not_eq_true]
    intro letter
    have other := numeric c member
    rw [isNumeric_letter (isWordLetter_of_isLetter letter)] at other
    cases other
  rwa [List.append_nil] at none

/-- A numeric text has the same value for a reader that relents, whatever angles are measured in. -/
theorem mirrors_numeric (relents : Relents whole s.lenient t.lenient) {text : List Char}
    (numeric : ∀ c ∈ text, isNumeric c = true) :
    Mirrors whole (Scalar.evaluate text [] s).outcome (Scalar.evaluate text [] t).outcome :=
  Scalar.mirrors_evaluate relents (.inr fun _ read =>
    isAngular_of_tokens read (isAngleless_of_isNumeric numeric))

theorem mirrors_addTerm (relents : Relents whole s.lenient t.lenient) {unknown : Char}
    {term : List Char} (numeric : unknown ∉ term → ∀ c ∈ term, isNumeric c = true)
    (side : LeftSide) :
    Mirrors whole (LeftSide.addTerm s unknown side term).outcome
      (LeftSide.addTerm t unknown side term).outcome := by
  unfold LeftSide.addTerm
  split
  · exact .refl _
  · rename_i outside
    rw [List.contains_iff_mem] at outside
    rw [Report.outcome_bind, Report.outcome_bind]
    exact (mirrors_numeric relents (numeric outside)).bind fun result _ => .refl _

/-- The left side of a simple equation is the same for a reader that relents. -/
theorem mirrors_readLeft (relents : Relents whole s.lenient t.lenient) {unknown : Char}
    {left : List Char} (among : isAmongNumbers [unknown] left = true) :
    Mirrors whole (readLeft s unknown left).outcome (readLeft t unknown left).outcome := by
  rw [readLeft, readLeft, outcome_foldlM, outcome_foldlM]
  refine mirrors_foldlM (fun term ofSide side => mirrors_addTerm relents ?_ side) _
  intro outside c member
  obtain ⟨front, back, rfl, ofFront, ofBack⟩ := isAmongNumbers_iff.mp among
  have inside := (mem_of_mem_terms ofSide c member).1
  rcases List.mem_append.mp inside with inside | inside
  · exact List.all_eq_true.mp ofFront c inside
  rcases List.mem_append.mp inside with inside | inside
  · rw [List.mem_singleton.mp inside] at member
    exact absurd member outside
  · exact List.all_eq_true.mp ofBack c inside

/-- **What settings influence in an equation**: the reader, and how a number is shown. -/
theorem mirrors_solve (relents : Relents whole s.lenient t.lenient)
    (places : s.decimalPlaces = t.decimalPlaces) (fractions : s.fractions = t.fractions)
    (equation : List Char) :
    Mirrors whole (solve equation s).outcome (solve equation t).outcome := by
  unfold solve
  dsimp only
  cases sides? equation with
  | none => exact .refl _
  | some sides =>
      obtain ⟨left, right⟩ := sides
      dsimp only
      by_cases empty : (left.isEmpty || right.isEmpty) = true
      · rw [if_pos empty, if_pos empty]
        exact .refl _
      · rw [if_neg empty, if_neg empty]
        cases unknown? equation with
        | none => exact .refl _
        | some unknown =>
            dsimp only
            by_cases simple : isSimple left right [unknown] = true
            · rw [simple, Bool.not_true, if_neg Bool.false_ne_true, if_neg Bool.false_ne_true,
                Report.outcome_bind, Report.outcome_bind]
              obtain ⟨among, _, numeric⟩ := isSimple_iff.mp simple
              refine (mirrors_readLeft relents among).bind fun side _ => ?_
              rw [Report.outcome_bind, Report.outcome_bind]
              have ofRight := List.all_eq_true.mp numeric
              refine (mirrors_numeric relents ofRight).bind fun result _ => ?_
              unfold Linear.solve
              rw [places, fractions]
              exact .refl _
            · rw [Bool.not_eq_true] at simple
              rw [simple, Bool.not_false, if_pos rfl, if_pos rfl]
              exact .refl _

end Equation

/-! ## Diagnostic lines -/

namespace Report

variable {α β : Type}

/-- The computation writes no lines. -/
def Silent (report : Report α) : Prop :=
  report.lines = []

theorem Silent.bind {first : Report α} {next : α → Report β} (silent : first.Silent)
    (further : ∀ a, (next a).Silent) : (first >>= next).Silent := by
  change (Report.bind first next).lines = []
  unfold Report.bind
  cases first.outcome with
  | error failure => exact silent
  | ok a =>
      change first.lines ++ (next a).lines = []
      rw [silent, further a]
      rfl

theorem silent_ofExcept (outcome : Except Failure α) : (ofExcept outcome).Silent := rfl

theorem silent_foldlM {f : β → α → Report β} (each : ∀ state item, (f state item).Silent)
    (items : List α) (start : β) : (items.foldlM f start).Silent := by
  induction items generalizing start with
  | nil => exact silent_ofExcept _
  | cons item items ih => exact (each start item).bind ih

end Report

section Quiet

variable {settings : Settings} (quiet : settings.debug = false)

include quiet

theorem Scalar.silent_evaluate (text : List Char) (bindings : Bindings) :
    (Scalar.evaluate text bindings settings).Silent := by
  unfold Scalar.evaluate
  refine .bind (Report.silent_ofExcept _) fun tokens => ?_
  refine .bind (Report.silent_ofExcept _) fun ordered => ?_
  rw [quiet]
  refine .bind rfl fun _ => ?_
  exact .bind (Report.silent_ofExcept _) fun result => Report.silent_ofExcept _

theorem Equation.silent_addTerm (unknown : Char) (side : LeftSide) (term : List Char) :
    (LeftSide.addTerm settings unknown side term).Silent := by
  unfold LeftSide.addTerm
  split
  · exact .bind (Report.silent_ofExcept _) fun _ => Report.silent_ofExcept _
  · exact (Scalar.silent_evaluate quiet term []).bind fun _ => Report.silent_ofExcept _

theorem Equation.silent_solve (equation : List Char) :
    (Equation.solve equation settings).Silent := by
  unfold Equation.solve
  dsimp only
  split
  · exact Report.silent_ofExcept _
  split
  · exact Report.silent_ofExcept _
  split
  · exact Report.silent_ofExcept _
  split
  · exact Report.silent_ofExcept _
  refine (Report.silent_foldlM (silent_addTerm quiet _) _ _).bind fun side => ?_
  refine (Scalar.silent_evaluate quiet _ []).bind fun result => ?_
  split
  · exact Report.silent_ofExcept _
  · exact .bind (Report.silent_ofExcept _) fun _ => Report.silent_ofExcept _

theorem Evaluation.silent_ofKind (kind : ExpressionKind) (expression : List Char)
    (bindings : Bindings) : (ofKind kind expression bindings settings).Silent := by
  cases kind with
  | matrix =>
      unfold ofKind
      dsimp only
      split
      · exact Report.silent_ofExcept _
      · exact .bind (Report.silent_ofExcept _) fun _ => Report.silent_ofExcept _
  | complex =>
      unfold ofKind
      dsimp only
      split
      · exact Report.silent_ofExcept _
      · exact .bind (Report.silent_ofExcept _) fun _ => Report.silent_ofExcept _
  | equation =>
      refine (Equation.silent_solve quiet expression).bind fun _ => ?_
      exact Report.silent_ofExcept _
  | scalar =>
      refine (Scalar.silent_evaluate quiet expression bindings).bind fun _ => ?_
      exact Report.silent_ofExcept _

/-- Evaluation writes lines only where they are asked for. -/
theorem Evaluation.silent_evaluate (expression : String) (bindings : Bindings) :
    (Evaluation.evaluate expression bindings settings).Silent := by
  unfold Evaluation.evaluate
  dsimp only
  rw [quiet]
  refine .bind rfl fun _ => ?_
  exact .bind (silent_ofKind quiet _ _ bindings) fun _ => Report.silent_ofExcept _

end Quiet

/-! ## All settings -/

namespace Evaluation

variable {whole : Prop} {s t : Settings}

theorem mirrors_ofKind (relents : Relents whole s.lenient t.lenient) (kind : ExpressionKind)
    (expression : List Char) (bindings : Bindings)
    (rendering : kind = .equation → s.decimalPlaces = t.decimalPlaces ∧ s.fractions = t.fractions)
    (angles : kind = .scalar → s.degrees = t.degrees ∨ ∀ tokens,
      Scalar.tokens expression bindings s.lenient = .ok tokens →
        ∀ token ∈ tokens, token.isAngular = false) :
    Mirrors whole (ofKind kind expression bindings s).outcome
      (ofKind kind expression bindings t).outcome := by
  cases kind with
  | matrix => exact .refl _
  | complex => exact .refl _
  | equation =>
      obtain ⟨places, fractions⟩ := rendering rfl
      rw [ofKind, ofKind, Report.outcome_bind, Report.outcome_bind]
      exact (Equation.mirrors_solve relents places fractions expression).bind fun _ _ => .refl _
  | scalar =>
      rw [ofKind, ofKind, Report.outcome_bind, Report.outcome_bind]
      exact (Scalar.mirrors_evaluate relents (angles rfl)).bind fun _ _ => .refl _

/-- No token of an expression is a function of angles: none of the tokens of its text, or none of
those that are evaluated. -/
def AngleFree (expression : List Char) (bindings : Bindings) (lenient : Bool) : Prop :=
  (∃ tokens, Token.scan lenient expression = .ok tokens ∧
      ∀ token ∈ tokens, token.isAngular = false) ∨
    ∀ tokens, Scalar.tokens expression bindings lenient = .ok tokens →
      ∀ token ∈ tokens, token.isAngular = false

theorem AngleFree.evaluated {expression : List Char} {bindings : Bindings} {lenient : Bool}
    (free : AngleFree expression bindings lenient) {tokens : List Token}
    (read : Scalar.tokens expression bindings lenient = .ok tokens) :
    ∀ token ∈ tokens, token.isAngular = false := by
  rcases free with ⟨raw, scanned, plain⟩ | plain
  · refine isAngular_of_tokens read ?_
    rw [isAngleless_eq_of_scan scanned, List.all_eq_true]
    exact fun token member => (Bool.not_eq_true' _).mpr (plain token member)
  · exact plain tokens read

/-- Two settings agree on an expression, apart from the reader: on how numbers are shown if it is an
equation, and on what angles are measured in if it has functions of angles. -/
structure Agree (expression : List Char) (bindings : Bindings) (s t : Settings) : Prop where
  rendering : ExpressionKind.of expression = .equation →
    s.decimalPlaces = t.decimalPlaces ∧ s.fractions = t.fractions
  angles : ExpressionKind.of expression = .scalar →
    s.degrees = t.degrees ∨ AngleFree expression bindings s.lenient

theorem mirrors_evaluate (relents : Relents whole s.lenient t.lenient) {expression : String}
    {bindings : Bindings} (agree : Agree expression.toList bindings s t) :
    Mirrors whole (evaluate expression bindings s).outcome
      (evaluate expression bindings t).outcome := by
  rw [outcome_evaluate, outcome_evaluate]
  refine (Mirrors.mapError ?_ _).map _
  refine mirrors_ofKind relents _ _ _ agree.rendering fun scalar => ?_
  exact (agree.angles scalar).imp_right fun free tokens read => free.evaluated read

/-- **What settings influence.** Under two settings that agree on an expression and on the reader,
its evaluation has the same outcome, whatever else they hold: the value and the steps, or the
refusal. What has a value for a strict reader has the same value and steps for a lenient one, and
without the setting for diagnostic lines there are none. -/
theorem settings_influence {expression : String} {bindings : Bindings}
    (agree : Agree expression.toList bindings s t) :
    (s.lenient = t.lenient →
      (evaluate expression bindings s).outcome = (evaluate expression bindings t).outcome) ∧
    (s.lenient = false → t.lenient = true → ∀ result,
      (evaluate expression bindings s).outcome = .ok result →
        (evaluate expression bindings t).outcome = .ok result) ∧
    (s.debug = false → (evaluate expression bindings s).lines = []) := by
  refine ⟨fun same => ?_, fun strict lenient result valued => ?_, fun quiet => ?_⟩
  · exact (mirrors_evaluate (.inl same) agree).eq
  · have relents : Relents False s.lenient t.lenient := .inr ⟨strict, lenient, id⟩
    exact (mirrors_evaluate relents agree).value result valued
  · exact silent_evaluate quiet expression bindings

/-- Any settings agree with the defaults on a sum without functions of angles. -/
theorem agree_sum (t : Settings) :
    Agree "x + 1".toList [("x", .integer 2)] Settings.defaults t := by
  have plain : ((Token.scan false "x + 1".toList).toOption.any fun tokens =>
      tokens.all fun token => !token.isAngular) = true := by decide +kernel
  refine ⟨fun equation => absurd equation (by decide), fun _ => .inr (.inl ?_)⟩
  cases scanned : Token.scan false "x + 1".toList with
  | error cause =>
      rw [scanned] at plain
      cases plain
  | ok tokens =>
      rw [scanned] at plain
      exact ⟨tokens, scanned, fun token member =>
        (Bool.not_eq_true' _).mp (List.all_eq_true.mp plain token member)⟩

/-- Degrees, diagnostic lines, steps that are not shown and a setting that nothing reads leave the
outcome of the sum, and so does a lenient reader. -/
theorem settings_influence_sum :
    ∃ result, (evaluate "x + 1" [("x", .integer 2)] Settings.defaults).outcome = .ok result ∧
      (evaluate "x + 1" [("x", .integer 2)] (Settings.complete [("degree_mode", .bool true),
        ("debug", .bool true), ("show_steps", .bool false), ("theme", .text "dark")])).outcome =
          .ok result ∧
      (evaluate "x + 1" [("x", .integer 2)] (Settings.complete
        [("lenient_tokenizer", .bool true)])).outcome = .ok result ∧
      (evaluate "x + 1" [("x", .integer 2)] Settings.defaults).lines = [] := by
  have valued : (evaluate "x + 1" [("x", .integer 2)] Settings.defaults).outcome.isOk = true := by
    decide +kernel
  cases ended : (evaluate "x + 1" [("x", .integer 2)] Settings.defaults).outcome with
  | error failure =>
      rw [ended] at valued
      cases valued
  | ok result =>
      refine ⟨result, rfl, ?_, ?_, (settings_influence (agree_sum [])).2.2 (by decide)⟩
      · rw [← ended]
        exact ((settings_influence (agree_sum _)).1 (by decide)).symm
      · exact (settings_influence (agree_sum _)).2.1 (by decide) (by decide) result ended

end Evaluation

end Reckoner
