/-!
# The nearest fraction with a small denominator

Of all fractions whose denominator does not exceed a bound, the nearest to a given one is a
convergent of its continued fraction or lies between two of them.
-/

namespace Reckoner.Decimal

/-- Two neighbouring convergents `p₀ / q₀` and `p₁ / q₁`. -/
structure Convergents where
  p₀ : Int
  q₀ : Int
  p₁ : Int
  q₁ : Int

/-- The last two convergents whose denominators do not exceed the bound, for the continued fraction
of `n / d` after the convergents found so far. -/
def convergents (bound : Int) (n : Int) (d : Nat) (c : Convergents) : Convergents :=
  if zero : d = 0 then c
  else
    have : (n.fmod d).toNat < d := by
      have := Int.fmod_lt_of_pos n (show (0 : Int) < d by omega)
      have := Int.fmod_nonneg_of_pos n (show (0 : Int) < d by omega)
      omega
    let a := n.fdiv d
    let q := c.q₀ + a * c.q₁
    if bound < q then c
    else convergents bound d (n.fmod d).toNat ⟨c.p₁, c.q₁, c.p₀ + a * c.p₁, q⟩
termination_by d

/-- The fraction nearest to `r` with a denominator of at most `bound`; of two equally near ones the
convergent. -/
def limitDenominator (bound : Nat) (r : Rat) : Rat :=
  if r.den ≤ bound then r
  else
    let c := convergents bound r.num r.den ⟨0, 1, 1, 0⟩
    let k := ((bound : Int) - c.q₀).fdiv c.q₁
    let between := mkRat (c.p₀ + k * c.p₁) (c.q₀ + k * c.q₁).toNat
    let convergent := mkRat c.p₁ c.q₁.toNat
    if (convergent - r).abs ≤ (between - r).abs then convergent else between

end Reckoner.Decimal
