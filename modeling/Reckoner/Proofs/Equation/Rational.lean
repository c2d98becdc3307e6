import Mathlib.Algebra.BigOperators.Group.List.Basic
import Mathlib.Algebra.Order.Field.Rat
import Mathlib.Tactic.Ring
import Reckoner.Proofs.Equation.Value

/-!
# Exact values of sides

Over the rational numbers a side is a linear function of the unknown: the term of the unknown
contributes its coefficient, and the other terms a constant (`Reckoner.Equation.rational?_linear`). A
decimal that is no zero among the doubles is none among the rational numbers.
-/

namespace Reckoner.Equation

open Decimal

/-! ## Decimals -/

/-- The rational number that a decimal denotes. -/
def Literal.rational (literal : Literal) : ℚ :=
  digitsValue (mantissa literal.text) / 10 ^ places literal.text

/-- A decimal whose double is not zero is not zero. -/
theorem rational_ne_zero {literal : Literal} (nonzero : (literal.value == 0) = false) :
    literal.rational ≠ 0 := by
  intro zero
  have digits : digitsValue (mantissa literal.text) = 0 := by
    rcases div_eq_zero_iff.mp zero with digits | power
    · exact_mod_cast digits
    · exact absurd power (pow_ne_zero _ (by norm_num))
  have value : literal.value = 0 := by
    rw [Literal.value, Token.numberValue, readFloat?_of_isDecimal literal.isDecimal, digits]
    rfl
  rw [value] at nonzero
  exact absurd nonzero (by decide)

/-! ## Arithmetic -/

/-- The exact value of arithmetic, with a rational number for the unknown. Nothing is divided by
zero. -/
def Arithmetic.rational? (q : ℚ) : Arithmetic → Option ℚ
  | literal decimal => some decimal.rational
  | unknown => some q
  | negation operand => (operand.rational? q).map (-·)
  | sum .plus left right => do
      let a ← left.rational? q
      let b ← right.rational? q
      return a + b
  | sum .minus left right => do
      let a ← left.rational? q
      let b ← right.rational? q
      return a - b
  | product .times left right => do
      let a ← left.rational? q
      let b ← right.rational? q
      return a * b
  | product .per left right => do
      let a ← left.rational? q
      let b ← right.rational? q
      if b = 0 then none else return a / b

/-- What signs multiply an operand with. -/
def signFactor : List Sign → ℚ
  | [] => 1
  | .plus :: signs => signFactor signs
  | .minus :: signs => -signFactor signs

def Factor.rational (factor : Factor) : ℚ :=
  signFactor factor.signs * factor.literal.rational

/-- What a further factor multiplies a term with. -/
def partFactor : Joint × Factor → ℚ
  | (.times, factor) => factor.rational
  | (.per, factor) => factor.rational⁻¹

/-- What further factors multiply a term with. -/
def partsFactor (parts : List (Joint × Factor)) : ℚ :=
  (parts.map partFactor).prod

/-- The exact value of a constant term. -/
def Chain.rational (chain : Chain) : ℚ :=
  chain.first.rational * partsFactor chain.rest

/-- The exact coefficient of the unknown. -/
def UnknownTerm.rational (term : UnknownTerm) : ℚ :=
  signFactor term.sign.toList * term.coefficient.elim 1 (fun coefficient =>
    coefficient.literal.rational) * partsFactor term.divisors

/-- The exact value of a term. -/
def Term.rational (q : ℚ) : Term → ℚ
  | constant chain => chain.rational
  | multiple term => term.rational * q

variable {q a : ℚ} {arithmetic : Arithmetic}

theorem signFactor_ne_zero (signs : List Sign) : signFactor signs ≠ 0 := by
  induction signs with
  | nil => exact one_ne_zero
  | cons sign signs ih =>
      cases sign with
      | plus => exact ih
      | minus => exact neg_ne_zero.mpr ih

theorem rational?_signed (is : arithmetic.rational? q = some a) (signs : List Sign) :
    (arithmetic.signed signs).rational? q = some (signFactor signs * a) := by
  induction signs with
  | nil => rw [Arithmetic.signed, signFactor, one_mul, is]
  | cons sign signs ih =>
      cases sign with
      | plus => exact ih
      | minus => rw [Arithmetic.signed, Arithmetic.rational?, ih, Option.map_some, signFactor, neg_mul]

theorem rational?_factor (factor : Factor) : factor.arithmetic.rational? q = some factor.rational :=
  rational?_signed rfl factor.signs

theorem rational?_part {part : Joint × Factor} (is : arithmetic.rational? q = some a)
    (allowed : Allowed part) :
    (Arithmetic.product part.1 arithmetic part.2.arithmetic).rational? q =
      some (a * partFactor part) := by
  obtain ⟨joint, factor⟩ := part
  cases joint with
  | times =>
      rw [Arithmetic.rational?, is, rational?_factor]
      rfl
  | per =>
      have nonzero : factor.rational ≠ 0 :=
        mul_ne_zero (signFactor_ne_zero _) (rational_ne_zero (allowed rfl))
      rw [Arithmetic.rational?, is, rational?_factor]
      change (if factor.rational = 0 then none else some (a / factor.rational)) = _
      rw [if_neg nonzero, div_eq_mul_inv]
      rfl

theorem rational?_join (is : arithmetic.rational? q = some a) {parts : List (Joint × Factor)}
    (allowed : ∀ part ∈ parts, Allowed part) :
    (arithmetic.join parts).rational? q = some (a * partsFactor parts) := by
  induction parts generalizing arithmetic a with
  | nil =>
      rw [partsFactor, List.map_nil, List.prod_nil, mul_one]
      exact is
  | cons part parts ih =>
      obtain ⟨ofPart, ofParts⟩ := List.forall_mem_cons.mp allowed
      have further := ih (rational?_part is ofPart) ofParts
      rw [partsFactor, List.map_cons, List.prod_cons, ← mul_assoc]
      exact further

/-- A term with other signs in front. -/
theorem rational?_withSigns {term : Term} (divisible : term.Divisible) :
    ∃ b, (∀ signs, (term.withSigns signs).rational? q = some (signFactor signs * b)) ∧
      term.rational q = signFactor term.signs * b := by
  cases term with
  | constant chain =>
      refine ⟨chain.first.literal.rational * partsFactor chain.rest, fun signs => ?_, ?_⟩
      · rw [← mul_assoc]
        exact rational?_join (rational?_signed rfl signs) divisible
      · exact mul_assoc _ _ _
  | multiple term =>
      have start (signs : List Sign) : (term.start signs).rational? q = some (signFactor signs *
          (term.coefficient.elim 1 (fun coefficient => coefficient.literal.rational) * q)) := by
        unfold UnknownTerm.start
        cases term.coefficient with
        | none =>
            rw [Option.elim_none, one_mul]
            exact rational?_signed rfl signs
        | some coefficient =>
            have first : ((Arithmetic.literal coefficient.literal).signed signs).rational? q = _ :=
              rational?_signed rfl signs
            change (Arithmetic.product _ _ _).rational? q = _
            rw [Arithmetic.rational?, first, Option.elim_some, ← mul_assoc]
            rfl
      refine ⟨term.coefficient.elim 1 (fun coefficient => coefficient.literal.rational) * q *
        partsFactor term.divisors, fun signs => ?_, ?_⟩
      · rw [← mul_assoc]
        exact rational?_join (start signs) divisible
      · change term.rational * q = signFactor term.sign.toList * _
        rw [UnknownTerm.rational]
        ring

theorem rational?_add {terms : List Term} (is : arithmetic.rational? q = some a)
    (signed : ∀ term ∈ terms, term.signs ≠ []) (divisible : ∀ term ∈ terms, term.Divisible) :
    (arithmetic.add terms).rational? q = some (a + (terms.map (Term.rational q)).sum) := by
  induction terms generalizing arithmetic a with
  | nil =>
      rw [List.map_nil, List.sum_nil, add_zero]
      exact is
  | cons term terms ih =>
      obtain ⟨ofTerm, ofTerms⟩ := List.forall_mem_cons.mp divisible
      obtain ⟨sign, signs, isSigns⟩ :=
        List.exists_cons_of_ne_nil (signed term List.mem_cons_self)
      obtain ⟨b, withSigns, same⟩ := @rational?_withSigns q term ofTerm
      have sum : (Arithmetic.sum sign arithmetic (term.withSigns signs)).rational? q =
          some (a + term.rational q) := by
        rw [same, isSigns]
        cases sign with
        | plus =>
            rw [Arithmetic.rational?, is, withSigns]
            rfl
        | minus =>
            rw [Arithmetic.rational?, is, withSigns, signFactor, neg_mul, ← sub_eq_add_neg]
            rfl
      rw [Arithmetic.add, isSigns, List.map_cons, List.sum_cons, ← add_assoc]
      exact ih sum (fun other member => signed other (List.mem_cons_of_mem _ member)) ofTerms

/-- **The exact value of a side is the sum of those of its terms.** -/
theorem rational?_side {side : Side} (divisible : side.Divisible) (q : ℚ) :
    side.arithmetic.rational? q = some (side.terms.map (Term.rational q)).sum := by
  obtain ⟨ofFirst, ofRest⟩ := List.forall_mem_cons.mp divisible
  obtain ⟨b, withSigns, same⟩ := @rational?_withSigns q side.first ofFirst
  have first : side.first.arithmetic.rational? q = some (side.first.rational q) := by
    rw [same]
    exact withSigns side.first.signs
  rw [Side.terms, List.map_cons, List.sum_cons]
  exact rational?_add first side.signed ofRest

theorem sum_constant (q : ℚ) (chains : List Chain) :
    ((chains.map Term.constant).map (Term.rational q)).sum = (chains.map Chain.rational).sum := by
  rw [List.map_map]
  rfl

/-- **A side with the unknown is a linear function of it.** -/
theorem rational?_linear {side : Side} {before after : List Chain} {term : UnknownTerm}
    (is : side.terms = before.map .constant ++ .multiple term :: after.map .constant)
    (divisible : side.Divisible) (q : ℚ) :
    side.arithmetic.rational? q =
      some (term.rational * q + ((before ++ after).map Chain.rational).sum) := by
  rw [rational?_side divisible, is, List.map_append, List.map_cons, List.sum_append, List.sum_cons,
    sum_constant, sum_constant, List.map_append, List.sum_append]
  refine congrArg some ?_
  rw [Term.rational]
  ring

/-- **A side without the unknown is a constant.** -/
theorem rational?_constant {side : Side} {chains : List Chain}
    (is : side.terms = chains.map .constant) (divisible : side.Divisible) (q : ℚ) :
    side.arithmetic.rational? q = some (chains.map Chain.rational).sum := by
  rw [rational?_side divisible, is, sum_constant]

end Reckoner.Equation
