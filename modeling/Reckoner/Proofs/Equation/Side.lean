import Reckoner.Proofs.Decimal.Double
import Reckoner.Proofs.Decimal.Readable
import Reckoner.Proofs.Instantiation

/-!
# Sides of linear equations

A side of a linear equation is a sum of terms. A constant term is a chain of decimals with signs of
products and quotients between them; the term of the unknown has at most one decimal before the
unknown and one divisor behind it. A side is read as tokens, which are a writing of its tree
(`Reckoner.Equation.Side.written`), and it has an exact value for every value of the unknown.
-/

namespace Reckoner.Equation

open Token Decimal

open Expression (Written atomic)

/-! ## Parts of a side -/

inductive Sign
  | plus
  | minus

/-- The sign of a product or of a quotient. -/
inductive Joint
  | times
  | per

/-- An unsigned decimal in ASCII. -/
structure Literal where
  text : List Char
  isDecimal : IsDecimal Char.isDigit text

/-- A decimal with signs in front of it. -/
structure Factor where
  signs : List Sign
  literal : Literal

/-- A constant term: factors with signs of products and quotients between them. -/
structure Chain where
  first : Factor
  rest : List (Joint × Factor)

/-- A decimal in front of the unknown, with or without the sign of the product. -/
structure Coefficient where
  literal : Literal
  times : Bool

/-- The term of the unknown. Its divisor has a digit behind its point. -/
structure UnknownTerm where
  sign : Option Sign
  coefficient : Option Coefficient
  divisor : Option Literal
  closed : ∀ literal ∈ divisor, ∃ last ∈ literal.text.getLast?, last.isDigit = true

inductive Term
  | constant (chain : Chain)
  | multiple (term : UnknownTerm)

namespace Sign

def char : Sign → Char
  | plus => '+'
  | minus => '-'

def op : Sign → Operator
  | plus => .add
  | minus => .subtract

end Sign

namespace Joint

def char : Joint → Char
  | times => '*'
  | per => '/'

def op : Joint → Operator
  | times => .multiply
  | per => .divide

end Joint

/-- The double that a decimal denotes. -/
def Literal.value (literal : Literal) : Float :=
  numberValue literal.text

/-- The signs that a term starts with. -/
def Term.signs : Term → List Sign
  | constant chain => chain.first.signs
  | multiple term => term.sign.toList

/-- A sum of terms, each but the first with a sign. -/
structure Side where
  first : Term
  rest : List Term
  signed : ∀ term ∈ rest, term.signs ≠ []

/-- The terms of a side, in order. -/
def Side.terms (side : Side) : List Term :=
  side.first :: side.rest

/-! ## Arithmetic -/

/-- Sums and products of decimals and of the unknown. -/
inductive Arithmetic
  | literal (decimal : Literal)
  | unknown
  | negation (operand : Arithmetic)
  | sum (sign : Sign) (left right : Arithmetic)
  | product (joint : Joint) (left right : Arithmetic)

namespace Arithmetic

/-- The arithmetic as an expression of doubles, with a tree in the place of the unknown. -/
def tree (put : Expression) : Arithmetic → Expression
  | literal decimal => .number decimal.value
  | unknown => put
  | negation operand => .negation (operand.tree put)
  | sum sign left right => .operation sign.op (left.tree put) (right.tree put)
  | product joint left right => .operation joint.op (left.tree put) (right.tree put)

/-- The arithmetic with signs in front of it. -/
def signed (arithmetic : Arithmetic) : List Sign → Arithmetic
  | [] => arithmetic
  | .plus :: signs => arithmetic.signed signs
  | .minus :: signs => .negation (arithmetic.signed signs)

end Arithmetic

def Factor.arithmetic (factor : Factor) : Arithmetic :=
  (Arithmetic.literal factor.literal).signed factor.signs

/-- Further factors of a product. -/
def Arithmetic.join (arithmetic : Arithmetic) (rest : List (Joint × Factor)) : Arithmetic :=
  rest.foldl (fun left part => .product part.1 left part.2.arithmetic) arithmetic

namespace UnknownTerm

/-- The unknown with its coefficient, with signs in front. -/
def start (term : UnknownTerm) (signs : List Sign) : Arithmetic :=
  match term.coefficient with
  | none => Arithmetic.unknown.signed signs
  | some coefficient =>
      .product .times ((Arithmetic.literal coefficient.literal).signed signs) .unknown

/-- What the unknown is divided by. -/
def divisors (term : UnknownTerm) : List (Joint × Factor) :=
  term.divisor.toList.map fun literal => (.per, ⟨[], literal⟩)

end UnknownTerm

namespace Term

/-- The arithmetic of a term with other signs in front. -/
def withSigns (term : Term) (signs : List Sign) : Arithmetic :=
  match term with
  | constant chain => ((Arithmetic.literal chain.first.literal).signed signs).join chain.rest
  | multiple term => (term.start signs).join term.divisors

def arithmetic (term : Term) : Arithmetic :=
  term.withSigns term.signs

end Term

/-- Further terms of a sum. The first sign of each is the sign of the sum. -/
def Arithmetic.add (arithmetic : Arithmetic) : List Term → Arithmetic
  | [] => arithmetic
  | term :: rest =>
      match term.signs with
      | [] => arithmetic.add rest
      | sign :: signs => (Arithmetic.sum sign arithmetic (term.withSigns signs)).add rest

def Side.arithmetic (side : Side) : Arithmetic :=
  side.first.arithmetic.add side.rest

/-! ## Tokens -/

def signTokens (signs : List Sign) : List Token :=
  signs.map fun sign => operator sign.op

def Factor.tokens (factor : Factor) : List Token :=
  signTokens factor.signs ++ [number factor.literal.value]

/-- The tokens of further factors. -/
def partTokens (rest : List (Joint × Factor)) : List Token :=
  rest.flatMap fun part => operator part.1.op :: part.2.tokens

namespace Term

/-- The tokens of a term without its first signs, with all signs of products and other tokens in the
place of the unknown. -/
def bareTokens (hole : List Token) : Term → List Token
  | constant chain => number chain.first.literal.value :: partTokens chain.rest
  | multiple term =>
      (match term.coefficient with
        | none => hole
        | some coefficient => number coefficient.literal.value :: operator .multiply :: hole) ++
        partTokens term.divisors

def tokens (hole : List Token) (term : Term) : List Token :=
  signTokens term.signs ++ term.bareTokens hole

end Term

def Side.tokens (hole : List Token) (side : Side) : List Token :=
  side.terms.flatMap (Term.tokens hole)

/-! ## The tokens are a writing of the tree -/

section Written

variable {bare : String → Prop} {put : Expression} {hole : List Token}

/-- The tokens are a writing of the arithmetic, whatever comes next, which holds together at least as
tightly as a level says. -/
def Writes (bare : String → Prop) (put : Expression) (level : Nat) (arithmetic : Arithmetic)
    (tokens : List Token) : Prop :=
  ∀ next, ∃ tight, level ≤ tight ∧ Written bare next tight (arithmetic.tree put) tokens

theorem Writes.mono {level loose : Nat} {arithmetic : Arithmetic} {tokens : List Token}
    (writes : Writes bare put level arithmetic tokens) (le : loose ≤ level) :
    Writes bare put loose arithmetic tokens := by
  intro next
  obtain ⟨tight, above, written⟩ := writes next
  exact ⟨tight, Nat.le_trans le above, written⟩

theorem writes_literal (literal : Literal) :
    Writes bare put Operator.negate.halves (.literal literal) [number literal.value] :=
  fun _ => ⟨atomic, by decide, .number _⟩

theorem Writes.signed {arithmetic : Arithmetic} {tokens : List Token}
    (writes : Writes bare put Operator.negate.halves arithmetic tokens) (signs : List Sign) :
    Writes bare put Operator.negate.halves (arithmetic.signed signs)
      (signTokens signs ++ tokens) := by
  induction signs with
  | nil => exact writes
  | cons sign signs ih =>
      intro next
      obtain ⟨tight, above, written⟩ := ih next
      cases sign with
      | plus => exact ⟨tight, above, .plus written⟩
      | minus => exact ⟨_, Nat.le_refl _, .negation written above⟩

theorem writes_factor (factor : Factor) :
    Writes bare put Operator.negate.halves factor.arithmetic factor.tokens :=
  (writes_literal factor.literal).signed factor.signs

theorem Writes.product {joint : Joint} {left right : Arithmetic} {first second : List Token}
    (ofLeft : Writes bare put joint.op.halves left first)
    (ofRight : Writes bare put Operator.negate.halves right second) :
    Writes bare put joint.op.halves (.product joint left right)
      (first ++ operator joint.op :: second) := by
  intro next
  obtain ⟨leftTight, leftAbove, writtenLeft⟩ := ofLeft (some (operator joint.op))
  obtain ⟨rightTight, rightAbove, writtenRight⟩ := ofRight next
  have binary : joint.op.isBinary = true := by cases joint <;> rfl
  have tighter : joint.op.halves < Operator.negate.halves := by cases joint <;> decide
  exact ⟨_, Nat.le_refl _, .operation binary writtenLeft writtenRight leftAbove
    (.inl (Nat.lt_of_lt_of_le tighter rightAbove))⟩

theorem Writes.join {arithmetic : Arithmetic} {tokens : List Token}
    (writes : Writes bare put Operator.multiply.halves arithmetic tokens)
    (rest : List (Joint × Factor)) :
    Writes bare put Operator.multiply.halves (arithmetic.join rest)
      (tokens ++ partTokens rest) := by
  induction rest generalizing arithmetic tokens with
  | nil =>
      rw [partTokens, List.flatMap_nil, List.append_nil]
      exact writes
  | cons part rest ih =>
      have same : part.1.op.halves = Operator.multiply.halves := by cases part.1 <;> rfl
      rw [← same] at writes
      have product := writes.product (writes_factor part.2)
      rw [same] at product
      have further := ih product
      rwa [List.append_assoc] at further

variable (ofHole : ∀ next, Written bare next atomic put hole)

include ofHole

theorem writes_unknown : Writes bare put Operator.negate.halves .unknown hole :=
  fun next => ⟨atomic, by decide, ofHole next⟩

theorem writes_term (term : Term) (signs : List Sign) :
    Writes bare put Operator.multiply.halves (term.withSigns signs)
      (signTokens signs ++ term.bareTokens hole) := by
  have looser : Operator.multiply.halves ≤ Operator.negate.halves := by decide
  cases term with
  | constant chain =>
      have first := ((@writes_literal bare put chain.first.literal).signed signs).mono looser
      have whole := first.join chain.rest
      rwa [List.append_assoc] at whole
  | multiple term =>
      rw [Term.withSigns, Term.bareTokens, ← List.append_assoc]
      apply Writes.join
      rw [UnknownTerm.start]
      cases term.coefficient with
      | none => exact ((writes_unknown ofHole).signed signs).mono looser
      | some coefficient =>
          have first := ((@writes_literal bare put coefficient.literal).signed signs).mono looser
          have product := @Writes.product bare put .times _ _ _ _ first (writes_unknown ofHole)
          rwa [List.append_assoc] at product

theorem Writes.add {arithmetic : Arithmetic} {tokens : List Token}
    (writes : Writes bare put Operator.add.halves arithmetic tokens) {rest : List Term}
    (signed : ∀ term ∈ rest, term.signs ≠ []) :
    Writes bare put Operator.add.halves (arithmetic.add rest)
      (tokens ++ rest.flatMap (Term.tokens hole)) := by
  induction rest generalizing arithmetic tokens with
  | nil =>
      rw [List.flatMap_nil, List.append_nil]
      exact writes
  | cons term rest ih =>
      have ofRest : ∀ other ∈ rest, other.signs ≠ [] :=
        fun other member => signed other (List.mem_cons_of_mem _ member)
      obtain ⟨sign, signs, is⟩ := List.exists_cons_of_ne_nil (signed term List.mem_cons_self)
      have sum : Writes bare put Operator.add.halves
          (.sum sign arithmetic (term.withSigns signs)) (tokens ++ term.tokens hole) := by
        intro next
        obtain ⟨leftTight, leftAbove, writtenLeft⟩ := writes (some (operator sign.op))
        obtain ⟨rightTight, rightAbove, writtenRight⟩ := writes_term ofHole term signs next
        have binary : sign.op.isBinary = true := by cases sign <;> rfl
        have same : sign.op.halves = Operator.add.halves := by cases sign <;> rfl
        have tighter : Operator.add.halves < Operator.multiply.halves := by decide
        rw [Term.tokens, is]
        refine ⟨_, Nat.le_of_eq same.symm, .operation binary writtenLeft writtenRight ?_ (.inl ?_)⟩
        · rw [same]
          exact leftAbove
        · rw [same]
          exact Nat.lt_of_lt_of_le tighter rightAbove
      have further := ih sum ofRest
      rw [Arithmetic.add, is, List.flatMap_cons, ← List.append_assoc]
      exact further

/-- **The tokens of a side are a writing of its tree.** -/
theorem Side.written (side : Side) :
    ∃ level, Written bare none level (side.arithmetic.tree put) (side.tokens hole) := by
  have looser : Operator.add.halves ≤ Operator.multiply.halves := by decide
  have first := (@writes_term bare put hole ofHole side.first side.first.signs).mono looser
  obtain ⟨level, _, written⟩ := first.add ofHole side.signed none
  exact ⟨level, written⟩

end Written

end Reckoner.Equation
