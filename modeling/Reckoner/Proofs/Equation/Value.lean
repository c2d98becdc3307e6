import Reckoner.Proofs.Equation.Side

/-!
# Values of sides

All that can fail in the arithmetic of a side is a division. A side has a value exactly if nothing in
it is divided by a zero (`Reckoner.Equation.valued_side`).
-/

namespace Reckoner.Equation

/-! ## Divisors -/

/-- The part of a product does not divide by a zero. -/
def Allowed (part : Joint × Factor) : Prop :=
  part.1 = .per → (part.2.literal.value == 0) = false

/-- What the first factor of a term is multiplied with or divided by. The unknown is no part. -/
def Term.parts : Term → List (Joint × Factor)
  | constant chain => chain.rest
  | multiple term => term.divisors

/-- Nothing in the term is divided by a zero. -/
def Term.Divisible (term : Term) : Prop :=
  ∀ part ∈ term.parts, Allowed part

/-- Nothing in the side is divided by a zero. -/
def Side.Divisible (side : Side) : Prop :=
  ∀ term ∈ side.terms, term.Divisible

/-! ## Values -/

section Valued

variable (degrees : Bool) (environment : String → Option Float) (put : Expression)

/-- The arithmetic has a value, with a tree in the place of the unknown. -/
def Arithmetic.Valued (arithmetic : Arithmetic) : Prop :=
  ∃ a, (arithmetic.tree put).value degrees environment = .ok a

variable {degrees environment put} {arithmetic left right : Arithmetic}

theorem valued_negation :
    (Arithmetic.negation arithmetic).Valued degrees environment put ↔
      arithmetic.Valued degrees environment put := by
  unfold Arithmetic.Valued
  rw [Arithmetic.tree]
  simp only [Expression.value_negation_eq_ok]
  constructor
  · rintro ⟨_, a, is, _⟩
    exact ⟨a, is⟩
  · rintro ⟨a, is⟩
    exact ⟨-a, a, is, rfl⟩

theorem valued_signed (signs : List Sign) :
    (arithmetic.signed signs).Valued degrees environment put ↔
      arithmetic.Valued degrees environment put := by
  induction signs with
  | nil => rfl
  | cons sign signs ih =>
      cases sign with
      | plus => exact ih
      | minus => exact valued_negation.trans ih

/-- Signs keep whether a value is zero. -/
theorem value_signed {a : Float} (is : (arithmetic.tree put).value degrees environment = .ok a)
    (signs : List Sign) :
    ∃ b, ((arithmetic.signed signs).tree put).value degrees environment = .ok b ∧
      (b == 0) = (a == 0) := by
  induction signs with
  | nil => exact ⟨a, is, rfl⟩
  | cons sign signs ih =>
      obtain ⟨b, isB, zero⟩ := ih
      cases sign with
      | plus => exact ⟨b, isB, zero⟩
      | minus =>
          refine ⟨-b, Expression.value_negation_eq_ok.mpr ⟨b, isB, rfl⟩, ?_⟩
          rw [Decimal.beq_zero_neg, zero]

theorem valued_sum (sign : Sign) :
    (Arithmetic.sum sign left right).Valued degrees environment put ↔
      left.Valued degrees environment put ∧ right.Valued degrees environment put := by
  unfold Arithmetic.Valued
  rw [Arithmetic.tree]
  simp only [Expression.value_operation_eq_ok]
  constructor
  · rintro ⟨_, a, isA, b, isB, _⟩
    exact ⟨⟨a, isA⟩, b, isB⟩
  · rintro ⟨⟨a, isA⟩, b, isB⟩
    cases sign with
    | plus => exact ⟨a + b, a, isA, b, isB, rfl⟩
    | minus => exact ⟨a - b, a, isA, b, isB, rfl⟩

/-- A product or a quotient has a value if its operands have one and the divisor is not zero. -/
theorem valued_product {joint : Joint} {b : Float}
    (is : (right.tree put).value degrees environment = .ok b) :
    (Arithmetic.product joint left right).Valued degrees environment put ↔
      left.Valued degrees environment put ∧ (joint = .per → (b == 0) = false) := by
  unfold Arithmetic.Valued
  rw [Arithmetic.tree]
  simp only [Expression.value_operation_eq_ok, is, Except.ok.injEq, exists_eq_left']
  cases joint with
  | times =>
      constructor
      · rintro ⟨_, a, isA, _⟩
        exact ⟨⟨a, isA⟩, nofun⟩
      · rintro ⟨⟨a, isA⟩, _⟩
        exact ⟨a * b, a, isA, rfl⟩
  | per =>
      change (∃ c a, _ ∧ (if b == 0 then refuse .divisionByZero else .ok (a / b)) = _) ↔ _
      cases zero : b == 0 with
      | true =>
          constructor
          · rintro ⟨_, a, _, refused⟩
            cases refused
          · rintro ⟨_, nonzero⟩
            cases nonzero rfl
      | false =>
          constructor
          · rintro ⟨_, a, isA, _⟩
            exact ⟨⟨a, isA⟩, fun _ => rfl⟩
          · rintro ⟨⟨a, isA⟩, _⟩
            exact ⟨a / b, a, isA, rfl⟩

theorem valued_part (part : Joint × Factor) :
    (Arithmetic.product part.1 left part.2.arithmetic).Valued degrees environment put ↔
      left.Valued degrees environment put ∧ Allowed part := by
  obtain ⟨b, is, zero⟩ := @value_signed degrees environment put (.literal part.2.literal) _ rfl
    part.2.signs
  rw [Allowed, ← zero]
  exact valued_product is

theorem valued_join (rest : List (Joint × Factor)) :
    (arithmetic.join rest).Valued degrees environment put ↔
      arithmetic.Valued degrees environment put ∧ ∀ part ∈ rest, Allowed part := by
  induction rest generalizing arithmetic with
  | nil => exact (and_iff_left nofun).symm
  | cons part rest ih =>
      rw [List.forall_mem_cons, ← and_assoc, ← valued_part]
      exact ih

variable {x : Float} (known : put.value degrees environment = .ok x)

include known

theorem valued_start (term : UnknownTerm) (signs : List Sign) :
    (term.start signs).Valued degrees environment put := by
  rw [UnknownTerm.start]
  cases term.coefficient with
  | none => exact (valued_signed signs).mpr ⟨x, known⟩
  | some coefficient =>
      exact (@valued_product degrees environment put _ .unknown .times x known).mpr
        ⟨(valued_signed signs).mpr ⟨_, rfl⟩, fun is => by cases is⟩

theorem valued_term (term : Term) (signs : List Sign) :
    (term.withSigns signs).Valued degrees environment put ↔ term.Divisible := by
  cases term with
  | constant chain =>
      have first : ((Arithmetic.literal chain.first.literal).signed signs).Valued degrees
          environment put := (valued_signed signs).mpr ⟨_, rfl⟩
      exact (valued_join chain.rest).trans (and_iff_right first)
  | multiple term =>
      exact (valued_join term.divisors).trans (and_iff_right (valued_start known term signs))

theorem valued_add {rest : List Term} (signed : ∀ term ∈ rest, term.signs ≠ []) :
    (arithmetic.add rest).Valued degrees environment put ↔
      arithmetic.Valued degrees environment put ∧ ∀ term ∈ rest, term.Divisible := by
  induction rest generalizing arithmetic with
  | nil => exact (and_iff_left nofun).symm
  | cons term rest ih =>
      have ofRest : ∀ other ∈ rest, other.signs ≠ [] :=
        fun other member => signed other (List.mem_cons_of_mem _ member)
      obtain ⟨sign, signs, is⟩ := List.exists_cons_of_ne_nil (signed term List.mem_cons_self)
      rw [Arithmetic.add, is, List.forall_mem_cons, ← and_assoc, ← valued_term known term signs,
        ← valued_sum sign]
      exact ih ofRest

/-- **A side has a value exactly if nothing in it is divided by a zero.** -/
theorem valued_side (side : Side) :
    side.arithmetic.Valued degrees environment put ↔ side.Divisible := by
  rw [Side.arithmetic, valued_add known side.signed, Side.Divisible, Side.terms,
    List.forall_mem_cons]
  exact and_congr_left' (valued_term known side.first side.first.signs)

end Valued

/-- Arithmetic without a value is refused for a division by a zero. -/
theorem value_cases {degrees : Bool} {environment : String → Option Float} {put : Expression}
    {x : Float} (known : put.value degrees environment = .ok x) (arithmetic : Arithmetic) :
    arithmetic.Valued degrees environment put ∨
      (arithmetic.tree put).value degrees environment = refuse .divisionByZero := by
  induction arithmetic with
  | literal decimal => exact .inl ⟨_, rfl⟩
  | unknown => exact .inl ⟨x, known⟩
  | negation operand ih =>
      rcases ih with valued | refused
      · exact .inl (valued_negation.mpr valued)
      · right
        rw [Arithmetic.tree, Expression.value, refused]
        rfl
  | sum sign left right ofLeft ofRight =>
      rcases ofLeft with valuedLeft | refused
      · rcases ofRight with valuedRight | refused
        · exact .inl ((valued_sum sign).mpr ⟨valuedLeft, valuedRight⟩)
        · obtain ⟨a, is⟩ := valuedLeft
          right
          rw [Arithmetic.tree, Expression.value, is, refused]
          rfl
      · right
        rw [Arithmetic.tree, Expression.value, refused]
        rfl
  | product joint left right ofLeft ofRight =>
      rcases ofLeft with ⟨a, isLeft⟩ | refused
      · rcases ofRight with ⟨b, isRight⟩ | refused
        · by_cases nonzero : joint = .per → (b == 0) = false
          · exact .inl ((valued_product isRight).mpr ⟨⟨a, isLeft⟩, nonzero⟩)
          · rw [Classical.not_imp, Bool.not_eq_false] at nonzero
            obtain ⟨rfl, zero⟩ := nonzero
            right
            rw [Arithmetic.tree, Expression.value, isLeft, isRight]
            exact if_pos zero
        · right
          rw [Arithmetic.tree, Expression.value, isLeft, refused]
          rfl
      · right
        rw [Arithmetic.tree, Expression.value, refused]
        rfl

/-- The trees of arithmetic are well-formed. -/
theorem wellFormed_tree {put : Expression} (wellFormed : put.WellFormed) (arithmetic : Arithmetic) :
    (arithmetic.tree put).WellFormed := by
  induction arithmetic with
  | literal decimal => exact .number _
  | unknown => exact wellFormed
  | negation operand ih => exact .negation ih
  | sum sign left right ofLeft ofRight =>
      exact .operation (by cases sign <;> rfl) ofLeft ofRight
  | product joint left right ofLeft ofRight =>
      exact .operation (by cases joint <;> rfl) ofLeft ofRight

end Reckoner.Equation
