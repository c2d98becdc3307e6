import Reckoner.Proofs.Equation.Rational
import Reckoner.Proofs.Equation.SingleUnknown
import Reckoner.Proofs.Equation.WellSpelled

/-!
# Equations that are answered

An equation that is answered has the documented shape, if it is spelled without blanks inside of
numbers, with ASCII digits, and without a product sign in front of the unknown that has no number in
front of it.
-/

namespace Reckoner.Equation

open Text Outcome

/-! ## The terms of the left side -/

section Terms

variable {v : Char} {left : List Char}

/-- All characters but the unknown are plain. -/
theorem isPlain_of_isAmongNumbers (among : isAmongNumbers [v] left = true)
    (ascii : HasPlainDigits left) {c : Char} (member : c ∈ left) : c = v ∨ isPlain c = true := by
  have digit := ascii c member
  obtain ⟨front, back, rfl, ofFront, ofBack⟩ := isAmongNumbers_iff.mp among
  rw [List.singleton_append, List.mem_append, List.mem_cons] at member
  rcases member with member | is | member
  · exact .inr (isPlain_of_isNumeric (List.all_eq_true.mp ofFront c member) digit)
  · exact .inl is
  · exact .inr (isPlain_of_isNumeric (List.all_eq_true.mp ofBack c member) digit)

/-- Texts of constant terms are those of a list of constant terms. -/
theorem exists_chains_of_texts {texts : List (List Char)} {p : Chain → Prop}
    (each : ∀ text ∈ texts, ∃ chain : Chain, chain.text = text ∧ p chain) :
    ∃ chains : List Chain, chains.map Chain.text = texts ∧ ∀ chain ∈ chains, p chain := by
  induction texts with
  | nil => exact ⟨[], rfl, fun chain member => absurd member List.not_mem_nil⟩
  | cons text texts ih =>
      obtain ⟨⟨chain, rfl, holds⟩, others⟩ := List.forall_mem_cons.mp each
      obtain ⟨chains, rfl, further⟩ := ih others
      exact ⟨chain :: chains, rfl, List.forall_mem_cons.mpr ⟨holds, further⟩⟩

/-- A term without signs starts with a number or with the unknown. -/
theorem exists_operand_of_unsigned {term : Term} (unsigned : term.signs = []) :
    ∃ word rest, term.lexemes = word :: rest ∧ word.operates = false := by
  cases term with
  | constant chain =>
      have bare : chain.first.signs = [] := unsigned
      rw [Term.lexemes, Chain.lexemes, Factor.lexemes, bare]
      exact ⟨_, _, rfl, rfl⟩
  | multiple term =>
      have bare : term.sign.toList = [] := unsigned
      rw [Term.lexemes, UnknownTerm.lexemes, bare]
      cases term.coefficient with
      | none => exact ⟨_, _, rfl, rfl⟩
      | some coefficient => exact ⟨_, _, rfl, rfl⟩

/-- A term whose text starts with a sign has signs. -/
theorem signs_ne_nil (letter : isWordLetter v = true) {term : Term} {c : Char} {rest : List Char}
    (spelled : spell [v] term.lexemes = c :: rest) (sign : isSign c = true) : term.signs ≠ [] := by
  intro unsigned
  obtain ⟨word, others, is, operand⟩ := exists_operand_of_unsigned unsigned
  have stops : ∀ d ∈ word.text [v], isSign d = false := by
    cases word with
    | sign _ | joint _ => cases operand
    | literal literal => exact isSign_literal literal
    | unknown => exact List.forall_mem_singleton.mpr (isSign_letter letter)
  obtain ⟨d, tail, head⟩ := List.exists_cons_of_ne_nil (lexeme_ne_nil (List.cons_ne_nil v []) word)
  rw [is, spell_cons, head] at spelled
  obtain ⟨rfl, _⟩ := List.cons.inj spelled
  rw [stops d (by rw [head]; exact List.mem_cons_self)] at sign
  cases sign

/-- A text whose terms are those of a side is a text of the side. -/
theorem exists_side_of_terms (letter : isWordLetter v = true) (unbroken : Unbroken left)
    {before after : List Chain} {term : UnknownTerm}
    (is : terms left = before.map Chain.text ++ spell [v] term.lexemes :: after.map Chain.text) :
    ∃ side : Side, side.terms = before.map .constant ++ .multiple term :: after.map .constant ∧
      Spread [v] side.lexemes left := by
  have texts (chains : List Chain) : chains.map Chain.text =
      (chains.map Term.constant).map fun term => spell [v] term.lexemes := by
    rw [List.map_map]
    exact List.map_congr_left fun chain _ => spell_congr (unknown_not_mem_chain chain) [] [v]
  have whole : terms left = (before.map Term.constant ++ Term.multiple term ::
      after.map Term.constant).map fun term => spell [v] term.lexemes := by
    rw [is, texts, texts, List.map_append, List.map_cons]
    rfl
  obtain ⟨first, rest, parts⟩ := List.exists_cons_of_ne_nil (List.append_ne_nil_of_right_ne_nil
    (before.map Term.constant) (List.cons_ne_nil (Term.multiple term) (after.map Term.constant)))
  rw [parts] at whole ⊢
  have signed : ∀ other ∈ rest, other.signs ≠ [] := by
    intro other member
    obtain ⟨c, tail, spelled, sign⟩ := isSign_of_terms whole _ (List.mem_map_of_mem member)
    exact signs_ne_nil letter spelled sign
  refine ⟨⟨first, rest, signed⟩, rfl, spread_of_filter unbroken ?_⟩
  rw [← flatten_terms, whole, Side.lexemes, spell, List.flatMap_assoc]
  rfl

end Terms

/-! ## Answers -/

section Answers

variable {equation : List Char} {settings : Settings} {text : String}

/-- What has been read of an equation that is answered. -/
theorem exists_of_solve
    (solved : (solve equation settings).outcome.map Prod.fst = .ok text) :
    ∃ left right v, sides? equation = some (left, right) ∧ unknown? equation = some v ∧
      isSimple left right [v] = true ∧ ∃ side a c,
        (readLeft settings v left).outcome = .ok side ∧ side.coefficient = some a ∧
          constantValue settings right = .ok c ∧
            answer v settings a side.constant c = .ok text := by
  have whole := solved
  unfold solve at solved
  dsimp only at solved
  split at solved
  · cases solved
  rename_i left right sides
  split at solved
  · cases solved
  split at solved
  · cases solved
  rename_i v found
  split at solved
  · cases solved
  rename_i simple
  rw [Bool.not_eq_true, Bool.not_eq_false'] at simple
  rw [outcome_solve settings sides found simple] at whole
  obtain ⟨side, read, whole⟩ := bind_eq_ok.mp whole
  obtain ⟨c, constant, whole⟩ := bind_eq_ok.mp whole
  refine ⟨left, right, v, sides, found, simple, side, ?_⟩
  cases is : side.coefficient with
  | none =>
      rw [is] at whole
      cases whole
  | some a =>
      rw [is] at whole
      exact ⟨a, c, read, rfl, constant, whole⟩

/-- A sign of the product in front of the unknown in its term stands behind a number of the term. -/
theorem multiplied_of_terms {v : Char} {left term : List Char} {before after : List (List Char)}
    (multiplied : Multiplied v (left.filter fun c => !isBlank c))
    (is : terms left = before ++ term :: after) : Multiplied v term := by
  rintro front behind rfl
  have spelled := flatten_terms left
  rw [is, List.flatten_append, List.flatten_cons, List.append_assoc, ← List.append_assoc] at spelled
  obtain ⟨last, isLast, part⟩ := multiplied _ _ spelled.symm
  refine ⟨last, ?_, part⟩
  cases front with
  | nil =>
      cases before with
      | nil => exact isLast
      | cons first before =>
          have member : '*' :: v :: behind ∈ before ++ ('*' :: v :: behind) :: after :=
            List.mem_append_right _ List.mem_cons_self
          obtain ⟨c, rest, same, sign⟩ := isSign_of_terms is _ member
          obtain ⟨rfl, _⟩ := List.cons.inj same
          cases sign
  | cons c front =>
      rwa [List.getLast?_append_of_ne_nil _ (List.cons_ne_nil c front)] at isLast

/-- **What has been read of the left side.** Its terms are those of a side, nothing in it is divided
by a zero, and the coefficient and the constant are those of its terms. -/
theorem exists_side_of_readLeft {v : Char} {left : List Char} (letter : isWordLetter v = true)
    (among : isAmongNumbers [v] left = true) (ascii : HasPlainDigits left)
    (unbroken : Unbroken left) (multiplied : Multiplied v (left.filter fun c => !isBlank c))
    (strict : settings.lenient = false) {side : LeftSide}
    (read : (readLeft settings v left).outcome = .ok side) :
    ∃ (whole : Side) (before after : List Chain) (term : UnknownTerm) (values : List Float),
      whole.terms = before.map .constant ++ .multiple term :: after.map .constant ∧
        Spread [v] whole.lexemes left ∧ whole.Divisible ∧
          ((before ++ after).mapM fun chain => constantValue settings chain.text) = .ok values ∧
            side = ⟨some term.value, values.foldl (· + ·) 0⟩ := by
  obtain ⟨first, part, others, is, once, outside⟩ := exists_terms_around letter among
  have inside : v ∈ part := List.count_pos_iff.mp (once ▸ Nat.one_pos)
  rw [outcome_readLeft_around settings is inside outside] at read
  obtain ⟨values, ofFirst, read⟩ := bind_eq_ok.mp read
  obtain ⟨a, ofCoefficient, read⟩ := bind_eq_ok.mp read
  obtain ⟨more, ofOthers, rfl⟩ := map_eq_ok.mp read
  have valued : (first ++ others).mapM (constantValue settings) = .ok (values ++ more) := by
    rw [List.mapM_append, ofFirst, ofOthers]
    rfl
  have ofConstant : ∀ other ∈ first ++ others, ∃ chain : Chain, chain.text = other ∧
      (Term.constant chain).Divisible := by
    intro other member
    have ofTerms : other ∈ terms left := by
      rw [is, List.mem_append, List.mem_cons]
      exact (List.mem_append.mp member).imp_right .inr
    obtain ⟨value, evaluated⟩ := exists_of_mapM valued other member
    have plain : ∀ c ∈ other, isPlain c = true := by
      intro c inOther
      obtain ⟨inLeft, _⟩ := mem_of_mem_terms ofTerms c inOther
      refine (isPlain_of_isAmongNumbers among ascii inLeft).resolve_left ?_
      rintro rfl
      exact outside other member inOther
    obtain ⟨chain, rfl⟩ := exists_chain_of_evaluate ofTerms plain strict evaluated
    exact ⟨chain, rfl, (hinges_chain settings chain).holds evaluated⟩
  have ofPart : part ∈ terms left := by
    rw [is]
    exact List.mem_append_right _ List.mem_cons_self
  obtain ⟨term, rfl, divisible, rfl⟩ := exists_unknownTerm_of_coefficient
    (fun c inPart => ascii c (mem_of_mem_terms ofPart c inPart).1)
    (multiplied_of_terms multiplied is) ofCoefficient
  obtain ⟨constantFirst, constantOthers⟩ := List.forall_mem_append.mp ofConstant
  obtain ⟨before, rfl, ofBefore⟩ := exists_chains_of_texts constantFirst
  obtain ⟨after, rfl, ofAfter⟩ := exists_chains_of_texts constantOthers
  obtain ⟨whole, isWhole, spread⟩ := exists_side_of_terms letter unbroken is
  rw [← List.map_append, List.mapM_map] at valued
  exact ⟨whole, before, after, term, values ++ more, isWhole, spread,
    (divisible_left isWhole).mpr ⟨ofBefore, divisible, ofAfter⟩, valued, rfl⟩

/-! ## The shape of an equation that is answered -/

/-- A linear equation of the documented shape: a sum of constant terms and one term of the unknown on
the left, and a sum of constant terms on the right. -/
structure LinearEquation where
  left : Side
  right : Side
  before : List Chain
  term : UnknownTerm
  after : List Chain
  constants : List Chain
  isLeft : left.terms = before.map .constant ++ .multiple term :: after.map .constant
  isRight : right.terms = constants.map .constant

namespace LinearEquation

/-- The exact coefficient of the unknown. -/
def coefficient (shape : LinearEquation) : ℚ :=
  shape.term.rational

/-- The exact constant of the left side. -/
def constant (shape : LinearEquation) : ℚ :=
  ((shape.before ++ shape.after).map Chain.rational).sum

/-- The exact constant of the right side. -/
def target (shape : LinearEquation) : ℚ :=
  (shape.constants.map Chain.rational).sum

/-- The shape accounts for the answer to an equation. Its words are those of the two sides, the left
side has a value for every finite number in the place of the unknown, over the rational numbers it is
a linear function and the right side is a constant, and the answer is the one to this function and
this constant with the doubles of the same terms. -/
structure Explains (shape : LinearEquation) (settings : Settings) (v : Char) (left right : List Char)
    (text : String) : Prop where
  spelledLeft : Spread [v] shape.left.lexemes left
  spelledRight : Spread [v] shape.right.lexemes right
  accepted : ∀ (value : BoundValue) (x : Float), value.toDouble = .ok x → x.isFinite = true →
    Bindings.fault? (String.ofList [v]) value = none → isConstantLetter v = false →
      ∃ y, (Scalar.evaluate left [(String.ofList [v], value)] settings).outcome.map Prod.fst = .ok y
  linear : ∀ q, shape.left.arithmetic.rational? q = some (shape.coefficient * q + shape.constant)
  constant : ∀ q, shape.right.arithmetic.rational? q = some shape.target
  answered : ∃ values c,
    ((shape.before ++ shape.after).mapM fun chain => constantValue settings chain.text) = .ok values ∧
      constantValue settings right = .ok c ∧
        answer v settings shape.term.value (values.foldl (· + ·) 0) c = .ok text

end LinearEquation

/-- The sides of an equation are spelled with ASCII digits, without blanks inside of numbers, and
without a product sign in front of the unknown that has no number in front of it. -/
structure WellSpelled (v : Char) (left right : List Char) : Prop where
  digits : HasPlainDigits (left ++ right)
  unbrokenLeft : Unbroken left
  unbrokenRight : Unbroken right
  multiplied : Multiplied v (left.filter fun c => !isBlank c)

theorem wellSpelled_of_explains {shape : LinearEquation} {v : Char} {left right : List Char}
    (letter : isWordLetter v = true) (explains : shape.Explains settings v left right text) :
    WellSpelled v left right := by
  have ofLeft := explains.spelledLeft
  have ofRight := explains.spelledRight
  exact ⟨List.forall_mem_append.mpr
      ⟨hasPlainDigits_of_spread letter ofLeft, hasPlainDigits_of_spread letter ofRight⟩,
    unbroken_of_spread letter ofLeft (chain_side _),
    unbroken_of_spread letter ofRight (chain_side _),
    multiplied_of_spread letter shape.isLeft ofLeft⟩

/-- **Nothing is guessed.** An equation that is answered, with a strict reader, has two sides and an
unknown; and it has a shape that accounts for the answer exactly if its sides are well spelled. -/
theorem wellSpelled_iff_of_solve (strict : settings.lenient = false)
    (solved : (solve equation settings).outcome.map Prod.fst = .ok text) :
    ∃ left right v, sides? equation = some (left, right) ∧ unknown? equation = some v ∧
      (WellSpelled v left right ↔
        ∃ shape : LinearEquation, shape.Explains settings v left right text) := by
  obtain ⟨left, right, v, sides, found, simple, side, a, c, read, isA, isC, answered⟩ :=
    exists_of_solve solved
  have letter := isWordLetter_of_unknown? found
  refine ⟨left, right, v, sides, found, fun spelled => ?_, fun ⟨shape, explains⟩ =>
    wellSpelled_of_explains letter explains⟩
  rw [isSimple, Bool.and_eq_true, Bool.and_eq_true] at simple
  obtain ⟨⟨among, _⟩, numeric⟩ := simple
  obtain ⟨ofLeft, ofRight⟩ := List.forall_mem_append.mp spelled.digits
  obtain ⟨whole, before, after, term, values, isWhole, spread, divisible, isValues, rfl⟩ :=
    exists_side_of_readLeft letter among ofLeft spelled.unbrokenLeft
      spelled.multiplied strict read
  have plain : ∀ c ∈ right, isPlain c = true := fun c member =>
    isPlain_of_isNumeric (List.all_eq_true.mp numeric c member) (ofRight c member)
  obtain ⟨constants, other, isOther, spreadRight⟩ :=
    exists_chains_of_evaluate plain spelled.unbrokenRight strict isC [v]
  have named := unknown_not_mem_right isOther
  have divisibleRight := (hinges_constantValue settings named spreadRight).holds isC
  cases isA
  refine ⟨⟨whole, other, before, term, after, constants, isWhole, isOther⟩, spread, spreadRight, ?_,
    rational?_linear isWhole divisible, rational?_constant isOther divisibleRight,
    values, c, isValues, isC, answered⟩
  intro value x double finite sound free
  have known : (Expression.literal x).value settings.degrees Expression.unbound = .ok x :=
    Expression.value_literal finite
  obtain ⟨y, valued⟩ := (valued_side known whole).mpr divisible
  refine ⟨y, ?_⟩
  rw [outcome_evaluate_bound double finite sound free spread settings, valued]
  rfl

/-- A coefficient in front of the unknown, and a constant term behind it. -/
theorem explains_two_x_minus_three :
    (solve "2x - 3 = 7".toList []).outcome.map Prod.fst = .ok "x = 5" ∧
      ∃ left right v, sides? "2x - 3 = 7".toList = some (left, right) ∧
        unknown? "2x - 3 = 7".toList = some v ∧
          ∃ shape : LinearEquation, shape.Explains [] v left right "x = 5" := by
  have solved : (solve "2x - 3 = 7".toList []).outcome.map Prod.fst = .ok "x = 5" :=
    eq_ok_of_toOption (by decide +kernel)
  obtain ⟨left, right, v, sides, found, explained⟩ := wellSpelled_iff_of_solve rfl solved
  have isSides : sides? "2x - 3 = 7".toList = some ("2x - 3".toList, "7".toList) := by decide
  have isUnknown : unknown? "2x - 3 = 7".toList = some 'x' := by decide
  cases isSides.symm.trans sides
  cases isUnknown.symm.trans found
  have ofLeft : Spread ['x'] [.literal (.digit '2' rfl), .unknown, .sign .minus,
      .literal (.digit '3' rfl)] "2x - 3".toList :=
    .word _ (.word _ (.blank rfl (.word _ (.blank rfl (.word _ .nil)))))
  have ofRight : Spread ['x'] [.literal (.digit '7' rfl)] "7".toList := .word _ .nil
  have spelled : WellSpelled 'x' "2x - 3".toList "7".toList := by
    refine ⟨List.forall_mem_append.mpr
      ⟨hasPlainDigits_of_spread rfl ofLeft, hasPlainDigits_of_spread rfl ofRight⟩, ?_, ?_, ?_⟩
    · exact unbroken_of_spread rfl ofLeft (chain_side
        ⟨.multiple ⟨none, some ⟨.digit '2' rfl, false⟩, none, nofun⟩,
          [.constant ⟨⟨[.minus], .digit '3' rfl⟩, []⟩], List.forall_mem_singleton.mpr nofun⟩)
    · exact unbroken_of_spread rfl ofRight
        (chain_side ⟨.constant ⟨⟨[], .digit '7' rfl⟩, []⟩, [], nofun⟩)
    · intro front behind is
      have sign : '*' ∈ "2x - 3".toList.filter fun c => !isBlank c := by
        rw [is]
        exact List.mem_append_right front List.mem_cons_self
      exact absurd sign (by decide)
  exact ⟨solved, _, _, _, sides, found, explained.mp spelled⟩

/-- The blanks of the left side are left out before it is cut into terms, so that `1 2` counts as
twelve there, and the equation is answered with a number that does not give the side a value. -/
theorem solve_one_two_plus_x :
    (solve "1 2 + x = 15".toList []).outcome.map Prod.fst = .ok "x = 3" ∧
      Bindings.check [("x", .integer 3)] = .ok () ∧
        (Scalar.evaluate "1 2 + x".toList [("x", .integer 3)] []).outcome.isOk = false :=
  ⟨eq_ok_of_toOption (by decide +kernel), rfl, by decide +kernel⟩

end Answers

end Reckoner.Equation
