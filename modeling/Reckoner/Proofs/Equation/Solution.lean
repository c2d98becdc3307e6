import Reckoner.Equation.Solver
import Reckoner.Proofs.Equation.Coefficient

/-!
# Solutions of linear equations

An equation of the documented shape, a sum of constant terms and one term of the unknown on the left
and a sum of constant terms on the right, is answered as its coefficient and its two constants say
(`Reckoner.Equation.solve_linear`).
-/

namespace Reckoner.Equation

open Text Outcome

/-! ## The unknown of an equation -/

section Words

variable {v : Char} {text : List Char}

theorem wordsAfter_others (others : ∀ c ∈ text, isWordLetter c = false) {word : List Char}
    (rest : List Char) :
    wordsAfter word (text ++ rest) =
      if text.isEmpty then wordsAfter word rest
      else if word.isEmpty then wordsAfter [] rest else word :: wordsAfter [] rest := by
  induction text generalizing word with
  | nil => rfl
  | cons c text ih =>
      obtain ⟨other, further⟩ := List.forall_mem_cons.mp others
      have skipped : wordsAfter [] (text ++ rest) = wordsAfter [] rest := by
        rw [ih further]
        cases text <;> rfl
      rw [List.cons_append, wordsAfter, if_neg (by rw [other]; exact Bool.false_ne_true), skipped]
      rfl

/-- The only letter of a text is its only word. -/
theorem wordsOf_letter (letter : isWordLetter v = true) {before behind : List Char}
    (ofBefore : ∀ c ∈ before, isWordLetter c = false)
    (ofBehind : ∀ c ∈ behind, isWordLetter c = false) :
    wordsOf (before ++ v :: behind) = [[v]] := by
  have skipped : wordsAfter [] (before ++ v :: behind) = wordsAfter [v] behind := by
    rw [wordsAfter_others ofBefore, wordsAfter, if_pos letter]
    cases before <;> rfl
  have last := @wordsAfter_others behind ofBehind [v] []
  rw [List.append_nil] at last
  rw [wordsOf, skipped, last]
  cases behind <;> rfl

/-- A letter between other characters is the unknown. -/
theorem unknown?_letter (letter : v.isAlpha = true) {before behind : List Char}
    (ofBefore : ∀ c ∈ before, isWordLetter c = false)
    (ofBehind : ∀ c ∈ behind, isWordLetter c = false) :
    unknown? (before ++ v :: behind) = some v := by
  have free : (!knownFunctions.contains (String.ofList (lower [v]))) = true :=
    forall_isAlpha (p := fun c => !knownFunctions.contains (String.ofList (lower [c])))
      (by decide) letter
  have isLetter := isWordLetter_of_isLetter (isLetter_of_isAlpha letter)
  rw [unknown?, wordsOf_letter isLetter ofBefore ofBehind, List.find?_singleton, if_pos free]
  rfl

end Words

/-! ## What an equation of this shape is answered -/

/-- What a text without bindings evaluates to. -/
def constantValue (settings : Settings) (text : List Char) : Except Failure Float :=
  (Scalar.evaluate text [] settings).outcome.map Prod.fst

/-- The answer to `a v + b = c`. -/
def answer (v : Char) (settings : Settings) (a b c : Float) : Except Failure String :=
  if a == 0 then .ok (if c - b == 0 then "Infinite solutions" else "No solution")
  else (Rendering.ofFloat ((c - b) / a) settings.decimalPlaces settings.fractions).map
    fun solution => String.ofList [v] ++ " = " ++ solution.text

theorem map_solve (v : Char) (settings : Settings) (a b c : Float) :
    (Linear.solve ⟨String.ofList [v], a, b, c⟩ settings).map Prod.fst = answer v settings a b c := by
  unfold Linear.solve answer Linear.difference
  cases a == 0 with
  | true => rfl
  | false =>
      simp only [Bool.false_eq_true, if_false]
      cases Rendering.ofFloat ((c - b) / a) settings.decimalPlaces settings.fractions <;> rfl

section Sides

variable {equation left right : List Char} {v : Char} (settings : Settings)
  (sides : sides? equation = some (left, right)) (found : unknown? equation = some v)
  (simple : isSimple left right [v] = true)

include sides found simple

/-- An equation is solved once its sides have been read. -/
theorem outcome_solve_steps :
    (solve equation settings).outcome =
      (readLeft settings v left).outcome >>= fun side =>
        constantValue settings right >>= fun constant =>
          match side.coefficient with
          | none => refuse .unexpected
          | some coefficient =>
              (Linear.solve ⟨String.ofList [v], coefficient, side.constant, constant⟩ settings).map
                fun (answer, steps) => (answer, openingSteps (String.ofList equation)
                  (String.ofList [v]) (String.ofList left) (String.ofList right) ++ steps) := by
  have nonempty : (left.isEmpty || right.isEmpty) = false := by
    obtain ⟨among, someRight, _⟩ := isSimple_iff.mp simple
    obtain ⟨front, back, rfl, -, -⟩ := isAmongNumbers_iff.mp among
    rw [Bool.or_eq_false_iff, List.isEmpty_eq_false_iff, List.isEmpty_eq_false_iff]
    exact ⟨List.append_ne_nil_of_right_ne_nil front (List.cons_ne_nil v back), someRight⟩
  unfold solve constantValue
  simp only [sides, nonempty, found, simple, Bool.not_true, Bool.false_eq_true, if_false,
    Report.outcome_bind]
  refine congrArg (_ >>= ·) (funext fun side => ?_)
  cases (Scalar.evaluate right [] settings).outcome with
  | error failure => rfl
  | ok result =>
      cases is : side.coefficient with
      | none => rfl
      | some a =>
          simp only [ok_bind, Report.outcome_bind]
          change (Linear.solve ⟨String.ofList [v], a, side.constant, result.1⟩ settings >>=
            fun solved => .ok (solved.1, _)) =
              (Linear.solve ⟨String.ofList [v], a, side.constant, result.1⟩ settings).map _
          cases Linear.solve ⟨String.ofList [v], a, side.constant, result.1⟩ settings <;> rfl

/-- An equation is answered once its sides have been read. -/
theorem outcome_solve :
    (solve equation settings).outcome.map Prod.fst =
      (readLeft settings v left).outcome >>= fun side =>
        constantValue settings right >>= fun constant =>
          match side.coefficient with
          | none => refuse .unexpected
          | some coefficient => answer v settings coefficient side.constant constant := by
  rw [outcome_solve_steps settings sides found simple]
  cases (readLeft settings v left).outcome with
  | error failure => rfl
  | ok side =>
      cases constantValue settings right with
      | error failure => rfl
      | ok constant =>
          rw [ok_bind, ok_bind, ok_bind, ok_bind]
          cases side.coefficient with
          | none => rfl
          | some a =>
              dsimp only
              rw [← map_solve]
              cases Linear.solve ⟨String.ofList [v], a, side.constant, constant⟩ settings <;> rfl

end Sides

/-! ## The left side -/

theorem outcome_foldlM {α β : Type} (step : β → α → Report β) (start : β) (items : List α) :
    (items.foldlM step start).outcome =
      items.foldlM (fun result item => (step result item).outcome) start := by
  induction items generalizing start with
  | nil => rfl
  | cons item items ih =>
      rw [List.foldlM_cons, List.foldlM_cons, Report.outcome_bind]
      exact congrArg ((step start item).outcome >>= ·) (funext ih)

section Around

variable {v : Char} (settings : Settings)

/-- A term without the unknown adds what it evaluates to. -/
theorem addTerm_of_not_mem {term : List Char} (outside : v ∉ term) (side : LeftSide) :
    (LeftSide.addTerm settings v side term).outcome =
      (constantValue settings term).map fun value =>
        { side with constant := side.constant + value } := by
  unfold LeftSide.addTerm constantValue
  rw [if_neg (List.contains_iff_mem.not.mpr outside), Report.outcome_bind]
  cases (Scalar.evaluate term [] settings).outcome <;> rfl

/-- A term with the unknown sets the coefficient. -/
theorem addTerm_of_mem {term : List Char} (inside : v ∈ term) (side : LeftSide) :
    (LeftSide.addTerm settings v side term).outcome =
      (Equation.coefficient term [v]).map fun coefficient =>
        { side with coefficient := some coefficient } := by
  unfold LeftSide.addTerm
  rw [if_pos (List.contains_iff_mem.mpr inside), Report.outcome_bind]
  change Equation.coefficient term [v] >>= _ = _
  cases Equation.coefficient term [v] <;> rfl

/-- The terms without the unknown are added from left to right. -/
theorem addTerms_of_not_mem {terms : List (List Char)} (outside : ∀ term ∈ terms, v ∉ term)
    (side : LeftSide) :
    terms.foldlM (fun side term => (LeftSide.addTerm settings v side term).outcome) side =
      (terms.mapM (constantValue settings)).map fun values =>
        { side with constant := values.foldl (· + ·) side.constant } := by
  induction terms generalizing side with
  | nil => rfl
  | cons term terms ih =>
      obtain ⟨ofFirst, ofRest⟩ := List.forall_mem_cons.mp outside
      rw [List.foldlM_cons, List.mapM_cons, addTerm_of_not_mem settings ofFirst]
      cases constantValue settings term with
      | error failure => rfl
      | ok value =>
          change List.foldlM _ _ _ = _
          rw [ih ofRest]
          cases terms.mapM (constantValue settings) <;> rfl

/-- **A left side with one term of the unknown** is read term by term: this term gives the
coefficient, and the other ones are added. -/
theorem outcome_readLeft_around {left term : List Char} {before after : List (List Char)}
    (is : terms left = before ++ term :: after) (inside : v ∈ term)
    (outside : ∀ other ∈ before ++ after, v ∉ other) :
    (readLeft settings v left).outcome =
      before.mapM (constantValue settings) >>= fun first =>
        Equation.coefficient term [v] >>= fun a =>
          (after.mapM (constantValue settings)).map fun second =>
            ⟨some a, (first ++ second).foldl (· + ·) 0⟩ := by
  obtain ⟨ofBefore, ofAfter⟩ := List.forall_mem_append.mp outside
  rw [readLeft, outcome_foldlM, is, List.foldlM_append, addTerms_of_not_mem settings ofBefore]
  cases before.mapM (constantValue settings) with
  | error failure => rfl
  | ok first =>
      change List.foldlM _ _ _ = _
      rw [ok_bind, List.foldlM_cons, addTerm_of_mem settings inside]
      cases Equation.coefficient term [v] with
      | error failure => rfl
      | ok a =>
          change List.foldlM _ _ _ = _
          rw [ok_bind, addTerms_of_not_mem settings ofAfter]
          simp only [List.foldl_append]

end Around

theorem not_mem_chain {v : Char} (letter : isWordLetter v = true) (chain : Chain) :
    v ∉ chain.text := by
  intro member
  have plain := isPlain_spread (v := v) (spread_spell [v] chain.lexemes)
    (unknown_not_mem_chain chain)
  rw [spell_congr (unknown_not_mem_chain chain) [v] []] at plain
  have stops := isWordLetter_of_isPlain (plain v member)
  rw [letter] at stops
  cases stops

/-- **The left side is read term by term.** -/
theorem outcome_readLeft {v : Char} (letter : v.isAlpha = true) (settings : Settings) {left : Side}
    {before after : List Chain} {term : UnknownTerm}
    (is : left.terms = before.map .constant ++ .multiple term :: after.map .constant)
    {text : List Char} (spread : Spread [v] left.lexemes text) :
    (readLeft settings v text).outcome =
      (before.mapM fun chain => constantValue settings chain.text) >>= fun first =>
        if term.divisor.any (fun literal => literal.value == 0) then refuse .divisionByZero
        else (after.mapM fun chain => constantValue settings chain.text).map fun second =>
          ⟨some term.value, (first ++ second).foldl (· + ·) 0⟩ := by
  have isLetter := isWordLetter_of_isLetter (isLetter_of_isAlpha letter)
  have texts (chains : List Chain) :
      (chains.map Term.constant).map (fun term => spell [v] term.lexemes) =
        chains.map Chain.text := by
    rw [List.map_map]
    exact List.map_congr_left fun chain _ => spell_congr (unknown_not_mem_chain chain) [v] []
  have whole : terms text =
      before.map Chain.text ++ spell [v] term.lexemes :: after.map Chain.text := by
    rw [terms_of_spread isLetter spread, is, List.map_append, List.map_cons, texts, texts,
      Term.lexemes]
  have inside : v ∈ spell [v] term.lexemes := by
    rw [lexemes_eq_front, spell_append]
    exact List.mem_append_right _ List.mem_cons_self
  have outside : ∀ other ∈ before.map Chain.text ++ after.map Chain.text, v ∉ other := by
    rw [← List.map_append, List.forall_mem_map]
    exact fun chain _ => not_mem_chain isLetter chain
  rw [outcome_readLeft_around settings whole inside outside, coefficient_term term letter,
    List.mapM_map, List.mapM_map]
  refine congrArg (_ >>= ·) (funext fun first => ?_)
  cases term.divisor.any fun literal => literal.value == 0 <;> rfl

/-! ## Constants -/

section Constants

variable {side : Side} {text : List Char} (settings : Settings)

theorem constantValue_side {name : List Char} (named : Lexeme.unknown ∉ side.lexemes)
    (spread : Spread name side.lexemes text) :
    constantValue settings text =
      ((side.arithmetic.tree (Expression.literal 0)).value settings.degrees
        Expression.unbound).mapError Expression.reported :=
  outcome_evaluate_constant named spread settings

/-- A sum of constant terms has a value unless something in it is divided by a zero. -/
theorem hinges_constantValue {name : List Char} (named : Lexeme.unknown ∉ side.lexemes)
    (spread : Spread name side.lexemes text) :
    Hinges (Failure.of .divisionByZero) (constantValue settings text) side.Divisible := by
  have known : (Expression.literal 0).value settings.degrees Expression.unbound = .ok 0 :=
    Expression.value_literal (by decide)
  rw [constantValue_side settings named spread]
  refine ⟨fun divisible => ?_, fun fails => ?_⟩
  · obtain ⟨c, is⟩ := (valued_side known side).mpr divisible
    exact ⟨c, by rw [is]; rfl⟩
  · have refused := (value_cases known side.arithmetic).resolve_left fun valued =>
      fails ((valued_side known side).mp valued)
    rw [refused]
    rfl

theorem hinges_chain (chain : Chain) :
    Hinges (Failure.of .divisionByZero) (constantValue settings chain.text)
      (Term.constant chain).Divisible := by
  have alone : Side.lexemes ⟨.constant chain, [], nofun⟩ = chain.lexemes := List.append_nil _
  have named := unknown_not_mem_chain chain
  have spread : Spread [] (Side.lexemes ⟨.constant chain, [], nofun⟩) chain.text := by
    rw [alone]
    exact spread_spell [] chain.lexemes
  rw [← alone] at named
  exact (hinges_constantValue settings named spread).congr List.forall_mem_singleton

end Constants

/-! ## Solutions -/

section Solve

variable {v : Char} (letter : v.isAlpha = true) {left right : Side} {before after chains : List Chain}
  {term : UnknownTerm} (isLeft : left.terms = before.map .constant ++ .multiple term ::
    after.map .constant) (isRight : right.terms = chains.map .constant) {first second : List Char}
  (ofFirst : Spread [v] left.lexemes first) (ofSecond : Spread [v] right.lexemes second)
  (settings : Settings)

include isRight in
theorem unknown_not_mem_right : Lexeme.unknown ∉ right.lexemes := by
  rw [Side.lexemes, isRight]
  exact unknown_not_mem_chains chains

include isLeft in
theorem divisible_left :
    left.Divisible ↔ (∀ chain ∈ before, (Term.constant chain).Divisible) ∧
      (Term.multiple term).Divisible ∧ ∀ chain ∈ after, (Term.constant chain).Divisible := by
  rw [Side.Divisible, isLeft, List.forall_mem_append, List.forall_mem_cons, List.forall_mem_map,
    List.forall_mem_map]

include letter isLeft ofFirst

theorem hinges_readLeft :
    Hinges (Failure.of .divisionByZero) (readLeft settings v first).outcome left.Divisible := by
  rw [outcome_readLeft letter settings isLeft ofFirst]
  refine Hinges.congr ?_ (divisible_left isLeft).symm
  refine (hinges_mapM (hinges_chain settings) before).bind fun values _ => ?_
  have ofTerm := divisible_multiple term
  cases zero : term.divisor.any fun literal => literal.value == 0 with
  | true =>
      rw [zero] at ofTerm
      exact ⟨fun both => absurd (ofTerm.mp both.1) nofun, fun _ => rfl⟩
  | false =>
      rw [zero] at ofTerm
      exact ((hinges_mapM (hinges_chain settings) after).map _).congr
        (and_iff_right (ofTerm.mpr rfl)).symm

omit letter in
/-- The unknown stands between numbers. -/
theorem exists_around :
    ∃ front back, first = front ++ v :: back ∧ (∀ c ∈ front, isPlain c = true) ∧
      ∀ c ∈ back, isPlain c = true := by
  rw [lexemes_eq_around isLeft] at ofFirst
  obtain ⟨front, rest, rfl, ofFront, ofRest⟩ := exists_spread_append ofFirst
  obtain ⟨blanks, back, rfl, areBlank, ofBack⟩ := exists_spread_cons ofRest
  refine ⟨front ++ blanks, back, (List.append_assoc _ _ _).symm, ?_, ?_⟩
  · refine List.forall_mem_append.mpr ⟨isPlain_spread ofFront ?_, fun c member =>
      isPlain_of_isBlank (areBlank c member)⟩
    rw [List.mem_append]
    exact not_or.mpr ⟨unknown_not_mem_chains before, unknown_not_mem_front term⟩
  · apply isPlain_spread ofBack
    rw [List.mem_append]
    exact not_or.mpr ⟨unknown_not_mem_parts _, unknown_not_mem_chains after⟩

include isRight ofSecond

/-- An equation of this shape is answered once its sides have been read. -/
theorem outcome_solve_shape :
    (solve (first ++ '=' :: second) settings).outcome.map Prod.fst =
      (readLeft settings v (strip first)).outcome >>= fun side =>
        constantValue settings (strip second) >>= fun constant =>
          match side.coefficient with
          | none => refuse .unexpected
          | some coefficient => answer v settings coefficient side.constant constant := by
  have isLetter := isWordLetter_of_isLetter (isLetter_of_isAlpha letter)
  have named := unknown_not_mem_right isRight
  have plainSecond := isPlain_spread ofSecond named
  have plainStripped := isPlain_spread (spread_strip isLetter ofSecond) named
  obtain ⟨front, back, spelled, plainFront, plainBack⟩ := exists_around isLeft ofFirst
  obtain ⟨start, rest, stripped, plainStart, plainRest⟩ :=
    exists_around isLeft (spread_strip isLetter ofFirst)
  have absentFirst : '=' ∉ first := by
    rw [spelled]
    intro member
    rcases List.mem_append.mp member with member | member
    · exact ne_equals_of_isPlain (plainFront _ member) rfl
    · rcases List.mem_cons.mp member with rfl | member
      · cases letter
      · exact ne_equals_of_isPlain (plainBack _ member) rfl
  have absentSecond : '=' ∉ second :=
    fun member => ne_equals_of_isPlain (plainSecond _ member) rfl
  have someRight : strip second ≠ [] := by
    apply spread_ne_nil (spread_strip isLetter ofSecond)
    rw [Side.lexemes, Side.terms, List.flatMap_cons]
    obtain ⟨last, is, _⟩ := endsOperand_term right.first
    refine List.append_ne_nil_of_left_ne_nil (fun none => ?_) _
    rw [none] at is
    cases is
  apply outcome_solve
  · rw [sides?, pieces_append absentFirst, pieces_of_not_mem absentSecond]
  · rw [spelled, List.append_assoc, List.cons_append]
    refine unknown?_letter letter (fun c member => isWordLetter_of_isPlain (plainFront c member)) ?_
    intro c member
    rcases List.mem_append.mp member with member | member
    · exact isWordLetter_of_isPlain (plainBack c member)
    · rcases List.mem_cons.mp member with rfl | member
      · decide
      · exact isWordLetter_of_isPlain (plainSecond c member)
  · have among : isAmongNumbers [v] (strip first) = true := by
      refine isAmongNumbers_iff.mpr ⟨start, rest, stripped, ?_, ?_⟩
      · exact List.all_eq_true.mpr fun c member => isNumeric_of_isPlain (plainStart c member)
      · exact List.all_eq_true.mpr fun c member => isNumeric_of_isPlain (plainRest c member)
    have numeric : (strip second).all isNumeric = true :=
      List.all_eq_true.mpr fun c member => isNumeric_of_isPlain (plainStripped c member)
    exact isSimple_iff.mpr ⟨among, someRight, numeric⟩

/-- **An equation of the documented shape.** On the left there is a sum of constant terms and one
term of the unknown, in any order, on the right a sum of constant terms, with blanks anywhere between
the words. If nothing is divided by a zero, the answer is the one to `a v + b = c`, where `a` is the
coefficient of the unknown, `b` the sum of what the constant terms of the left side evaluate to, and
`c` what the right side evaluates to. Else the equation is refused for the division. -/
theorem solve_linear :
    (left.Divisible ∧ right.Divisible → ∃ values c,
        (before ++ after).mapM (fun chain => constantValue settings chain.text) = .ok values ∧
        constantValue settings second = .ok c ∧
        (solve (first ++ '=' :: second) settings).outcome.map Prod.fst =
          answer v settings term.value (values.foldl (· + ·) 0) c) ∧
      (¬(left.Divisible ∧ right.Divisible) →
        (solve (first ++ '=' :: second) settings).outcome.map Prod.fst =
          refuse .divisionByZero) := by
  have isLetter := isWordLetter_of_isLetter (isLetter_of_isAlpha letter)
  have named := unknown_not_mem_right isRight
  have sameRight : constantValue settings (strip second) = constantValue settings second :=
    (constantValue_side settings named (spread_strip isLetter ofSecond)).trans
      (constantValue_side settings named ofSecond).symm
  have read := hinges_readLeft letter isLeft (spread_strip isLetter ofFirst) settings
  have constant := hinges_constantValue settings named ofSecond
  rw [outcome_solve_shape letter isLeft isRight ofFirst ofSecond, sameRight]
  constructor
  · rintro ⟨divisible, ofRight⟩
    obtain ⟨c, isC⟩ := constant.value ofRight
    obtain ⟨ofBefore, ofTerm, ofAfter⟩ := (divisible_left isLeft).mp divisible
    obtain ⟨values, isValues⟩ := (hinges_mapM (hinges_chain settings) before).value ofBefore
    obtain ⟨others, isOthers⟩ := (hinges_mapM (hinges_chain settings) after).value ofAfter
    refine ⟨values ++ others, c, ?_, isC, ?_⟩
    · rw [List.mapM_append, isValues, isOthers]
      rfl
    · rw [outcome_readLeft letter settings isLeft (spread_strip isLetter ofFirst), isValues,
        isOthers, (divisible_multiple term).mp ofTerm, isC]
      rfl
  · intro fails
    by_cases divisible : left.Divisible
    · obtain ⟨side, isSide⟩ := read.value divisible
      rw [isSide, constant.failure fun ofRight => fails ⟨divisible, ofRight⟩]
      rfl
    · rw [read.failure divisible]
      rfl

end Solve

/-- The decimal of one digit. -/
def Literal.digit (c : Char) (isDigit : c.isDigit = true) : Literal :=
  ⟨[c], .whole nofun (by rw [List.all_cons, isDigit]; rfl)⟩

/-- A constant term behind the unknown. -/
theorem solve_linear_two_x_minus_three :
    (solve "2x - 3 = 7".toList []).outcome.map Prod.fst = .ok "x = 5" := by
  have ofFirst : Spread ['x'] [.literal (.digit '2' rfl), .unknown, .sign .minus,
      .literal (.digit '3' rfl)] "2x - 3 ".toList :=
    .word _ (.word _ (.blank rfl (.word _ (.blank rfl (.word _ (.blank rfl .nil))))))
  have ofSecond : Spread ['x'] [.literal (.digit '7' rfl)] " 7".toList :=
    .blank rfl (.word _ .nil)
  have ofThree : Spread ['x'] [.sign .minus, .literal (.digit '3' rfl)] "-3".toList :=
    .word _ (.word _ .nil)
  obtain ⟨values, c, isValues, isC, solved⟩ := (@solve_linear 'x' rfl
    ⟨.multiple ⟨none, some ⟨.digit '2' rfl, false⟩, none, nofun⟩,
      [.constant ⟨⟨[.minus], .digit '3' rfl⟩, []⟩], List.forall_mem_singleton.mpr nofun⟩
    ⟨.constant ⟨⟨[], .digit '7' rfl⟩, []⟩, [], nofun⟩ [] [⟨⟨[.minus], .digit '3' rfl⟩, []⟩]
    [⟨⟨[], .digit '7' rfl⟩, []⟩] _ rfl rfl _ _ ofFirst ofSecond []).1
      ⟨List.forall_mem_cons.mpr ⟨nofun, List.forall_mem_singleton.mpr nofun⟩,
        List.forall_mem_singleton.mpr nofun⟩
  have three : constantValue [] "-3".toList = .ok (-Token.numberValue ['3']) :=
    @constantValue_side ⟨.constant ⟨⟨[.minus], .digit '3' rfl⟩, []⟩, [], nofun⟩ _ [] _
      (unknown_not_mem_chains [_]) ofThree
  have seven : constantValue [] " 7".toList = .ok (Token.numberValue ['7']) :=
    @constantValue_side ⟨.constant ⟨⟨[], .digit '7' rfl⟩, []⟩, [], nofun⟩ _ [] _
      (unknown_not_mem_chains [_]) ofSecond
  cases seven.symm.trans isC
  change (constantValue [] "-3".toList >>= fun value => .ok [value]) = _ at isValues
  rw [three] at isValues
  cases isValues
  have shown : (answer 'x' [] (Token.numberValue ['2']) (0 + -Token.numberValue ['3'])
      (Token.numberValue ['7'])).toOption = some "x = 5" := by decide +kernel
  have whole : (solve "2x - 3 = 7".toList []).outcome.map Prod.fst =
    answer 'x' [] (Token.numberValue ['2']) (0 + -Token.numberValue ['3'])
      (Token.numberValue ['7']) := solved
  rw [← whole] at shown
  cases outcome : (solve "2x - 3 = 7".toList []).outcome.map Prod.fst with
  | error failure =>
      rw [outcome] at shown
      cases shown
  | ok text =>
      rw [outcome] at shown
      cases shown
      rfl

end Reckoner.Equation
