import Reckoner.Numeric.Counting

/-!
# The gamma function

At the first natural numbers the gamma function is a factorial. Elsewhere it is a quotient of two
polynomials times a power, with a correction for the rounding of the base of that power; negative
arguments are reflected.
-/

namespace Reckoner.Numeric

/-- The double nearest to the circle constant. -/
def circle : Float := 3.141592653589793

/-- The coefficients of the numerator and the denominator, the lowest power first. -/
def gammaCoefficients : List (Float × Float) :=
  [(23531376880.410759688572007674451636754734846804940, 0),
    (42919803642.649098768957899047001988850926355848959, 39916800),
    (35711959237.355668049440185451547166705960488635843, 120543840),
    (17921034426.037209699919755754458931112671403265390, 150917976),
    (6039542586.3520280050642916443072979210699388420708, 105258076),
    (1439720407.3117216736632230727949123939715485786372, 45995730),
    (248874557.86205415651146038641322942321632125127801, 13339535),
    (31426415.585400194380614231628318205362874684987640, 2637558),
    (2876370.6289353724412254090516208496135991145378768, 357423),
    (186056.26539522349504029498971604569928220784236328, 32670),
    (8071.6720023658162106380029022722506138218516325024, 1925),
    (210.82427775157934587250973392071336271166969580291, 66),
    (2.5066282746310002701649081771338373386264310793408, 1)]

/-- The offset of the base of the power, plus a half. -/
def gammaOffset : Float := 6.024680040776729583740234375

/-- The offset of the base of the power. -/
def gammaBaseOffset : Float := 5.524680040776729583740234375

/-- The quotient of the two polynomials, from the highest power down for a small argument and in
its reciprocal for a large one. -/
def gammaQuotient (x : Float) : Float :=
  let (numerator, denominator) :=
    if x < 5 then
      gammaCoefficients.reverse.foldl (fun (n, d) (a, b) => (n * x + a, d * x + b)) (0, 0)
    else gammaCoefficients.foldl (fun (n, d) (a, b) => (n / x + a, d / x + b)) (0, 0)
  numerator / denominator

/-- The sine of the circle constant times a positive argument, from the nearest quarter of a
turn. -/
def sineOfTurns (x : Float) : Float :=
  let y := x - 2 * (x / 2).floor
  let quarter := (2 * y).round
  if quarter == 0 then Float.sin (circle * y)
  else if quarter == 1 then Float.cos (circle * (y - 0.5))
  else if quarter == 2 then Float.sin (circle * (1 - y))
  else if quarter == 3 then -Float.cos (circle * (y - 1.5))
  else Float.sin (circle * (y - 2))

/-- A value past the largest double is no value. -/
def finite (x : Float) : Except Failure Float :=
  if x.isInf then .error .overflow else .ok x

/-- The gamma function at an argument that is no integer, of a size from `1e-20` to 200. -/
def gammaBetween (x : Float) : Float :=
  let size := x.abs
  let base := size + gammaBaseOffset
  let lost :=
    if gammaBaseOffset < size then (base - size) - gammaBaseOffset
    else (base - gammaBaseOffset) - size
  let correction := lost * gammaOffset / base
  if x < 0 then
    let r := -circle / sineOfTurns size / size * Float.exp base / gammaQuotient size
    let r := r - correction * r
    if size < 140 then r / Float.pow base (size - 0.5)
    else
      let root := Float.pow base (size / 2 - 0.25)
      r / root / root
  else
    let r := gammaQuotient size / Float.exp base
    let r := r + correction * r
    if size < 140 then r * Float.pow base (size - 0.5)
    else
      let root := Float.pow base (size / 2 - 0.25)
      r * root * root

/-- The gamma function. Zero and the negative integers are outside of its domain. -/
def gamma (x : Float) : Except Failure Float :=
  if x.isNaN then .ok x
  else if x.isInf then (if 0 < x then .ok x else .error .wrongValue)
  else if Decimal.isWhole x && x ≤ 0 then .error .wrongValue
  else if Decimal.isWhole x && x ≤ 23 then
    ofCount (factorial ((Decimal.toInteger x).toNat - 1))
  else if x.abs < 1e-20 then finite (1 / x)
  else if 200 < x.abs then
    if x < 0 then .ok (0 / -sineOfTurns x.abs) else .error .overflow
  else finite (gammaBetween x)

end Reckoner.Numeric
