import Reckoner.Display
import Reckoner.Proofs.Decimal.Readable
import Reckoner.Proofs.EquationTerms
import Reckoner.Proofs.RowMatrix.Shaped
import Reckoner.Proofs.ScalarFailures

/-!
# No internal failure leaks

Whatever is evaluated or solved, with usable decimal places, either has a value or is refused for a
cause that has a code of its own. Every path has its own reason for that: matrices that are read
have rows of one length, the unknown of a simple equation is in one of its terms, the readers take
only what denotes a number, and results of doubles are always shown. One failure leaks all the same
(`Reckoner.Evaluation.no_internal_failure`): a name that is no text is to be refused with the text
that shows it, and fails where there is none.
-/

namespace Reckoner

open Outcome

/-! ## Matrices -/

namespace RowMatrix

open Text

theorem length_of_mapM_some {α β : Type} {f : α → Option β} {items : List α} {results : List β}
    (mapped : items.mapM f = some results) : results.length = items.length := by
  induction items generalizing results with
  | nil =>
      cases mapped
      rfl
  | cons x items ih =>
      rw [List.mapM_cons] at mapped
      obtain ⟨y, -, mapped⟩ := Option.bind_eq_some_iff.mp mapped
      obtain ⟨rest, ofRest, is⟩ := Option.bind_eq_some_iff.mp mapped
      cases is
      rw [List.length_cons, List.length_cons, ih ofRest]

theorem length_pieces_pos (separator : Char) (text : List Char) :
    0 < (pieces separator text).length := by
  cases text with
  | nil => exact Nat.one_pos
  | cons c rest =>
      rw [pieces]
      split
      · exact Nat.succ_pos _
      · unfold consFirst
        split <;> exact Nat.succ_pos _

/-- A matrix that is read has rows of one length. -/
theorem endsIn_readBody (body : List Char) :
    EndsIn MatrixOperation.Proper Cause.Described (readBody body) := by
  unfold readBody
  split
  · exact nofun
  · rename_i rows read
    split
    · rename_i rectangular
      have height : rows.length = (rows.length - 1) + 1 := by
        have length := length_of_mapM_some read
        have some := length_pieces_pos ';' body
        omega
      refine ⟨rows.length - 1, width rows, height, ?_⟩
      intro row member
      exact beq_iff_eq.mp (List.all_eq_true.mp rectangular row member)
    · exact nofun

/-- So many matrices have letters of their own. -/
def letters : Nat := 1000000

theorem endsIn_matrixStep (m : RowMatrix Float) {index : Nat} (few : index < letters) :
    EndsIn (fun _ => True) Cause.Described (matrixStep m index) := by
  have small : ¬ lastCode < 'A'.toNat + index := by
    have first : 'A'.toNat = 65 := rfl
    rw [letters] at few
    rw [lastCode, first]
    omega
  rw [matrixStep]
  simp only [if_neg small]
  trivial

theorem endsIn_evaluate {text : List Char} (few : (bodies text).length < letters) :
    EndsIn (fun _ => True) Cause.Described (evaluate text) := by
  have read : EndsIn (fun matrices => matrices.length = (bodies text).length ∧
      ∀ m ∈ matrices, MatrixOperation.Proper m) Cause.Described (readAll text) :=
    endsIn_mapM fun body _ => endsIn_readBody body
  apply read.bind
  rintro matrices ⟨length, proper⟩
  have shown : EndsIn (fun _ => True) Cause.Described
      (matrices.zipIdx.mapM fun place => matrixStep place.1 place.2) := by
    refine (endsIn_mapM fun place member => endsIn_matrixStep place.1 ?_).anyhow
    have below := List.snd_lt_of_mem_zipIdx member
    omega
  apply shown.bind
  intro steps _
  apply ((operationOf text).endsIn_perform proper).bind
  intro result _
  trivial

end RowMatrix

/-! ## Complex numbers -/

namespace ComplexNumber

theorem endsIn_onTwo {operation : ComplexOperation} {numbers : List ComplexNumber}
    {f : ComplexNumber → ComplexNumber → Except Failure ComplexNumber}
    (ends : ∀ a b, EndsIn (fun _ => True) Failure.Described (f a b)) :
    EndsIn (fun _ => True) Failure.Described (operation.onTwo f numbers) := by
  unfold ComplexOperation.onTwo
  split
  · exact ends _ _
  · exact nofun

theorem endsIn_onOne {operation : ComplexOperation} {numbers : List ComplexNumber}
    {f : ComplexNumber → Except Failure ComplexNumber}
    (ends : ∀ z, EndsIn (fun _ => True) Failure.Described (f z)) :
    EndsIn (fun _ => True) Failure.Described (operation.onOne f numbers) := by
  unfold ComplexOperation.onOne
  split
  · exact ends _
  · exact nofun

theorem endsIn_quotient (a b : ComplexNumber) :
    EndsIn (fun _ => True) Failure.Described (ComplexOperation.quotient a b) := by
  unfold ComplexOperation.quotient
  split
  · exact nofun
  · trivial

theorem endsIn_argument (z : ComplexNumber) :
    EndsIn (fun _ => True) Failure.Described z.argument := by
  unfold argument
  simp only
  split <;> trivial

theorem endsIn_modulus (z : ComplexNumber) :
    EndsIn (fun _ => True) Failure.Described z.modulus := by
  unfold modulus
  simp only
  split <;> trivial

theorem endsIn_perform (operation : ComplexOperation) (numbers : List ComplexNumber) :
    EndsIn (fun _ => True) Failure.Described (operation.perform numbers) := by
  unfold ComplexOperation.perform
  split
  · exact nofun
  · cases operation with
    | add | subtract | multiply => exact endsIn_onTwo fun a b => trivial
    | divide => exact endsIn_onTwo endsIn_quotient
    | conjugate | real | imaginary => exact endsIn_onOne fun z => trivial
    | argument => exact endsIn_onOne fun z => (endsIn_argument z).map fun _ _ => trivial
    | modulus => exact endsIn_onOne fun z => (endsIn_modulus z).map fun _ _ => trivial
    | unknown name => exact nofun

theorem endsIn_evaluate (text : List Char) :
    EndsIn (fun _ => True) Failure.Described (evaluate text) := by
  apply (endsIn_perform _ _).bind
  intro result _
  trivial

end ComplexNumber

/-! ## Shown numbers -/

/-- A number is shown, whatever it is, unless there are more places than a text can have. -/
theorem Rendering.endsIn_ofFloat (value : Float) {places : Nat} (few : places ≤ placesLimit)
    (fractions : Bool) :
    EndsIn (fun _ => True) (fun _ => False) (ofFloat value (.ok places) fractions) := by
  unfold ofFloat
  split
  · trivial
  split
  · trivial
  split
  · trivial
  · rw [ok_bind, decimal, if_neg (Nat.not_lt.mpr few)]
    trivial

namespace Display

variable {settings : Settings} {places : Nat}

theorem endsIn_plain (given : settings.decimalPlaces = .ok places)
    (few : places ≤ Rendering.placesLimit) (x : Float) :
    EndsIn (fun _ => True) (fun _ => False) (plain settings x) := by
  rw [plain, given]
  exact (Rendering.endsIn_ofFloat x few false).map fun _ _ => trivial

theorem endsIn_row (given : settings.decimalPlaces = .ok places)
    (few : places ≤ Rendering.placesLimit) (entries : List Float) :
    EndsIn (fun _ => True) (fun _ => False) (row settings entries) := by
  have texts : EndsIn _ (fun _ => False) (entries.mapM (plain settings)) :=
    endsIn_mapM fun x _ => endsIn_plain given few x
  exact texts.bind fun _ _ => trivial

/-- **Every value has a text.** -/
theorem endsIn_value (given : settings.decimalPlaces = .ok places)
    (few : places ≤ Rendering.placesLimit) (shown : Value) :
    EndsIn (fun _ => True) (fun _ => False) (value settings shown) := by
  cases shown with
  | number x =>
      rw [value, number, given]
      exact (Rendering.endsIn_ofFloat x few settings.fractions).bind fun _ _ => trivial
  | matrix rows =>
      have texts : EndsIn _ (fun _ => False) (rows.mapM (row settings)) :=
        endsIn_mapM fun entries _ => endsIn_row given few entries
      exact texts.map fun _ _ => trivial
  | complex z =>
      exact (endsIn_plain given few z.re).bind fun _ _ =>
        (endsIn_plain given few z.im.abs).bind fun _ _ => trivial
  | answer text => trivial

end Display

/-! ## Equations -/

namespace Equation

/-- The divisor of a multiple of the unknown is one that has been read. -/
def Multiple.IsRead (multiple : Multiple) : Prop :=
  ∀ digits, multiple.divisor = some digits → ∃ text, divisor? text = some digits

theorem exists_divisor? {text digits : List Char} (part : divisorPart? text = some (some digits)) :
    ∃ text, divisor? text = some digits := by
  unfold divisorPart? at part
  split at part
  · cases part
  · rename_i rest
    obtain ⟨other, is, same⟩ := Option.map_eq_some_iff.mp part
    cases same
    exact ⟨rest, is⟩
  · cases part

theorem isRead_of_multipleAfter? {negative : Bool} {unknown digits rest : List Char}
    {multiple : Multiple} (is : multipleAfter? negative unknown digits rest = some multiple) :
    multiple.IsRead := by
  obtain ⟨divisor, found, rfl⟩ := Option.map_eq_some_iff.mp is
  have part : ∃ text, divisorPart? text = some divisor := by
    rcases Option.or_eq_some_iff.mp found with found | ⟨-, found⟩
    · split at found
      · obtain ⟨text, -, found⟩ := Option.bind_eq_some_iff.mp found
        exact ⟨text, found⟩
      · cases found
    · obtain ⟨text, -, found⟩ := Option.bind_eq_some_iff.mp found
      exact ⟨text, found⟩
  obtain ⟨text, part⟩ := part
  rintro digits rfl
  exact exists_divisor? part

theorem isRead_of_unsignedMultiple? {negative : Bool} {unknown text : List Char}
    {multiple : Multiple} (is : unsignedMultiple? negative unknown text = some multiple) :
    multiple.IsRead := by
  obtain ⟨start, -, found⟩ := List.exists_of_findSome?_eq_some is
  exact isRead_of_multipleAfter? found

theorem isRead_of_multiple? {unknown term : List Char} {multiple : Multiple}
    (is : multiple? unknown term = some multiple) : multiple.IsRead := by
  rcases Option.or_eq_some_iff.mp is with is | ⟨-, is⟩
  · split at is
    · exact isRead_of_unsignedMultiple? is
    · exact isRead_of_unsignedMultiple? is
    · cases is
  · exact isRead_of_unsignedMultiple? is

theorem Multiple.endsIn_size (multiple : Multiple) :
    EndsIn (fun _ => True) Failure.Described multiple.size := by
  unfold size
  split
  · trivial
  · split
    · trivial
    · exact nofun

theorem endsIn_coefficient (term unknown : List Char) :
    EndsIn (fun _ => True) Failure.Described (coefficient term unknown) := by
  unfold coefficient
  split
  · rename_i multiple is
    apply multiple.endsIn_size.bind
    intro size _
    simp only
    split
    · trivial
    · rename_i digits divides
      obtain ⟨text, divisor⟩ := isRead_of_multiple? is digits divides
      obtain ⟨other, read⟩ := Decimal.exists_readFloat?_of_divisor? divisor
      rw [read]
      simp only
      split
      · exact nofun
      · trivial
  · exact nofun

/-- The coefficient of a left side has been read. -/
def LeftSide.IsComplete (side : LeftSide) : Prop :=
  ∃ coefficient, side.coefficient = some coefficient

theorem endsIn_addTerm (settings : Settings) (unknown : Char) (side : LeftSide)
    (term : List Char) :
    EndsIn (fun next : LeftSide => term.contains unknown = true ∨ side.IsComplete → next.IsComplete)
      Failure.Described (side.addTerm settings unknown term).outcome := by
  unfold LeftSide.addTerm
  by_cases has : term.contains unknown = true
  · rw [if_pos has]
    apply Report.endsIn_bind (endsIn_coefficient term [unknown])
    intro coefficient _ _
    exact ⟨coefficient, rfl⟩
  · rw [if_neg has]
    apply Report.endsIn_bind (Scalar.endsIn_evaluate term Bindings.not_meetUnshown_nil settings)
    intro result _ complete
    exact complete.resolve_left has

theorem endsIn_addTerms (settings : Settings) (unknown : Char) (terms : List (List Char))
    (side : LeftSide) :
    EndsIn (fun next : LeftSide =>
        (∃ term ∈ terms, term.contains unknown = true) ∨ side.IsComplete → next.IsComplete)
      Failure.Described (terms.foldlM (LeftSide.addTerm settings unknown) side).outcome := by
  induction terms generalizing side with
  | nil =>
      rintro (⟨term, member, -⟩ | complete)
      · cases member
      · exact complete
  | cons term terms ih =>
      rw [List.foldlM_cons]
      apply Report.endsIn_bind (endsIn_addTerm settings unknown side term)
      intro next first
      apply (ih next).mono _ fun _ => id
      intro last rest has
      rcases has with ⟨other, member, has⟩ | complete
      · rcases List.mem_cons.mp member with rfl | member
        · exact rest (.inr (first (.inl has)))
        · exact rest (.inl ⟨other, member, has⟩)
      · exact rest (.inr (first (.inr complete)))

theorem endsIn_linear (linear : Linear) {settings : Settings} {places : Nat}
    (given : settings.decimalPlaces = .ok places) (few : places ≤ Rendering.placesLimit) :
    EndsIn (fun _ => True) Failure.Described (linear.solve settings) := by
  unfold Linear.solve
  split
  · trivial
  · rw [given]
    obtain ⟨solution, is, -⟩ := (Rendering.endsIn_ofFloat (linear.difference / linear.coefficient)
      few settings.fractions).exists_ok
    rw [is]
    trivial

/-- An equation that is not solved is refused for a cause with a code of its own. -/
theorem endsIn_solve (equation : List Char) {settings : Settings} {places : Nat}
    (given : settings.decimalPlaces = .ok places) (few : places ≤ Rendering.placesLimit) :
    EndsIn (fun _ => True) Failure.Described (solve equation settings).outcome := by
  unfold solve
  simp only
  split
  · exact nofun
  rename_i left right _
  split
  · exact nofun
  split
  · exact nofun
  rename_i unknown found
  split
  · exact nofun
  rename_i simple
  rw [Bool.not_eq_true, Bool.not_eq_false'] at simple
  have present := exists_mem_terms (isWordLetter_of_unknown? found) (isSimple_iff.mp simple).1
  apply Report.endsIn_bind (endsIn_addTerms settings unknown (terms left) ⟨none, 0⟩)
  intro side complete
  apply Report.endsIn_bind (Scalar.endsIn_evaluate right Bindings.not_meetUnshown_nil settings)
  intro constant _
  obtain ⟨coefficient, is⟩ := complete (.inl present)
  rw [is]
  apply Report.endsIn_bind (endsIn_linear _ given few)
  intro answer _
  trivial

end Equation

/-! ## Evaluation -/

namespace Evaluation

variable {settings : Settings} {places : Nat}

theorem endsIn_ofKind (kind : ExpressionKind) {expression : List Char} {bindings : Bindings}
    (given : settings.decimalPlaces = .ok places) (few : places ≤ Rendering.placesLimit)
    (groups : (RowMatrix.bodies expression).length < RowMatrix.letters)
    (shown : kind = .scalar → ¬bindings.MeetUnshown) :
    EndsIn (fun _ => True) Failure.Described (ofKind kind expression bindings settings).outcome := by
  cases kind with
  | matrix =>
      unfold ofKind
      simp only
      split
      · exact nofun
      · apply Report.endsIn_bind (endsIn_orRefuse (RowMatrix.endsIn_evaluate groups))
        intro result _
        trivial
  | complex =>
      unfold ofKind
      simp only
      split
      · exact nofun
      · apply Report.endsIn_bind (ComplexNumber.endsIn_evaluate expression)
        intro result _
        trivial
  | equation =>
      apply Report.endsIn_bind (Equation.endsIn_solve expression given few)
      intro result _
      trivial
  | scalar =>
      apply Report.endsIn_bind (Scalar.endsIn_evaluate expression (shown rfl) settings)
      intro result _
      trivial

theorem endsIn_evaluate {expression : String} {bindings : Bindings}
    (given : settings.decimalPlaces = .ok places) (few : places ≤ Rendering.placesLimit)
    (groups : (RowMatrix.bodies expression.toList).length < RowMatrix.letters)
    (shown : ExpressionKind.of expression.toList = .scalar → ¬bindings.MeetUnshown) :
    EndsIn (fun _ => True) (Failure.IsReport expression)
      (evaluate expression bindings settings).outcome := by
  unfold evaluate
  rw [Report.outcome_bind, Report.outcome_say, ok_bind]
  apply Report.endsIn_bind (Report.endsIn_mapFailure (endsIn_ofKind _ given few groups shown)
    fun _ described => described.isReport expression)
  intro result _
  trivial

theorem endsIn_solve (equation : String) (given : settings.decimalPlaces = .ok places)
    (few : places ≤ Rendering.placesLimit) :
    EndsIn (fun _ => True) (Failure.IsReport equation) (solve equation settings).outcome :=
  Report.endsIn_mapFailure (Equation.endsIn_solve equation.toList given few)
    fun _ described => described.isReport equation

/-- A name that cannot be shown ends in the failure that no rule describes. -/
theorem evaluate_of_meetUnshown {expression : String} {bindings : Bindings}
    (scalar : ExpressionKind.of expression.toList = .scalar) (meet : bindings.MeetUnshown)
    (settings : Settings) : (evaluate expression bindings settings).outcome =
      .error (.refused .unexpected (some expression)) := by
  rw [outcome_evaluate, scalar, ofKind, Report.outcome_bind, Scalar.outcome_of_meetUnshown _ meet]
  rfl

theorem not_isReport_unexpected (input : String) :
    ¬(Failure.refused .unexpected (some input)).IsReport input := by
  rintro ⟨cause, is, -, other⟩
  cases is
  exact other rfl

/-- **No internal failure leaks, but for names that cannot be shown.** Up to 300 decimal places and
below a million matrices, an evaluation or a solution either has a value or reports a failure,
unless the check of the bindings of an arithmetic expression comes upon a name that no text shows:
then the evaluation fails as no rule describes. And the readers of numbers never take a text that
denotes none. -/
theorem no_internal_failure (given : settings.decimalPlaces = .ok places) (few : places ≤ 300) :
    (∀ (expression : String) (bindings : Bindings),
      (RowMatrix.bodies expression.toList).length < 1000000 → ∀ failure,
        (evaluate expression bindings settings).outcome = .error failure →
          (failure.IsReport expression ↔
            ¬(ExpressionKind.of expression.toList = .scalar ∧ bindings.MeetUnshown))) ∧
    (∀ (expression : String) (bindings : Bindings),
      ExpressionKind.of expression.toList = .scalar → bindings.MeetUnshown →
        (evaluate expression bindings settings).outcome =
          .error (.refused .unexpected (some expression))) ∧
    (∀ (equation : String) (failure : Failure),
      (solve equation settings).outcome = .error failure → failure.IsReport equation) ∧
    (∀ text digits rest, Token.takeNumber? text = some (digits, rest) →
      Decimal.readFloat? digits = some (Token.numberValue digits)) ∧
    (∀ text digits rest, ComplexNumber.takeDecimal? text = some (digits, rest) →
      Decimal.readFloat? digits = some (ComplexNumber.partValue digits)) := by
  have within : places ≤ Rendering.placesLimit := by
    rw [Rendering.placesLimit]
    omega
  refine ⟨?_, ?_, ?_, ?_, ?_⟩
  · intro expression bindings groups failure failed
    by_cases leaks : ExpressionKind.of expression.toList = .scalar ∧ bindings.MeetUnshown
    · rw [evaluate_of_meetUnshown leaks.1 leaks.2, Except.error.injEq] at failed
      rw [← failed]
      exact iff_of_false (not_isReport_unexpected expression) (not_not_intro leaks)
    · have ends := endsIn_evaluate given within groups fun scalar meet => leaks ⟨scalar, meet⟩
      rw [failed] at ends
      exact iff_of_true ends leaks
  · exact fun expression bindings scalar meet => evaluate_of_meetUnshown scalar meet settings
  · intro equation failure failed
    have ends := endsIn_solve equation given within
    rw [failed] at ends
    exact ends
  · intro text digits rest taken
    exact Decimal.readFloat?_of_takeNumber? taken
  · intro text digits rest taken
    exact Decimal.readFloat?_of_takeDecimal? taken

/-- With the default settings an expression of one character, and an equation without a sign of
equality, are reported for what they are. -/
theorem no_internal_failure_defaults :
    Settings.defaults.decimalPlaces = .ok 6 ∧ 6 ≤ 300 ∧
      (RowMatrix.bodies ")".toList).length < 1000000 ∧
      (∀ failure, (evaluate ")" [] Settings.defaults).outcome = .error failure →
        failure.IsReport ")") ∧
      (solve "x" Settings.defaults).outcome =
        .error (.refused (.notEquation "x") (some "x")) ∧
      (Failure.refused (.notEquation "x") (some "x")).IsReport "x" := by
  have given : Settings.defaults.decimalPlaces = .ok 6 := rfl
  have few : 6 ≤ 300 := by decide
  have groups : (RowMatrix.bodies ")".toList).length < 1000000 := by
    change (RowMatrix.bodies [')']).length < 1000000
    rw [RowMatrix.bodies, RowMatrix.parts, RowMatrix.parts]
    decide
  have refused : (solve "x" Settings.defaults).outcome =
      .error (.refused (.notEquation "x") (some "x")) := rfl
  refine ⟨given, few, groups, fun failure failed => ?_, refused,
    (no_internal_failure given few).2.2.1 "x" _ refused⟩
  exact ((no_internal_failure given few).1 ")" [] groups failure failed).mpr
    fun leaks => Bindings.not_meetUnshown_nil leaks.2

/-- Powers of ten from the limit of digits on cannot be shown. -/
theorem shown?_pow {power : ℕ} (long : Decimal.digitLimit ≤ power) :
    (BoundName.integer (Int.pow 10 power)).shown? = none := by
  have size : (Int.pow 10 power).natAbs = Nat.pow 10 power := Int.natAbs_pow 10 power
  have longer : ∀ limit ≤ power, Nat.pow 10 limit ≤ Nat.pow 10 power :=
    fun _ => Nat.pow_le_pow_right (by decide)
  rw [BoundName.shown?, size, if_neg (Nat.not_lt.mpr (longer _ long))]

/-- An integer of five thousand digits is no name, but cannot be shown in a refusal. -/
theorem evaluate_long_integer_name :
    (evaluate "1" [(.integer (Int.pow 10 5000), .double 1)] Settings.defaults).outcome =
        .error (.refused .unexpected (some "1")) ∧
      Cause.unexpected.code = "9999" ∧ ¬(Failure.refused .unexpected (some "1")).IsReport "1" :=
  ⟨evaluate_of_meetUnshown (by decide) (.here (shown?_pow (by decide))) _, rfl,
    not_isReport_unexpected "1"⟩

end Evaluation

end Reckoner
