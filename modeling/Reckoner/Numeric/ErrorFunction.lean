/-!
# The error function

The error function and its complement are computed from rational approximations, one for each of
four ranges of the argument's size. Polynomials are summed in pairs of terms from the lowest
upwards; the order is fixed because the last digit of the result depends on it.
-/

namespace Reckoner.Numeric

/-- The sums `a₀ + s * a₁`, `a₂ + s * a₃`, … of neighbouring coefficients; an odd last one stands
alone. -/
def pairSums (s : Float) : List Float → List Float
  | low :: high :: rest => (low + s * high) :: pairSums s rest
  | rest => rest

/-- The polynomial of degree at most nine with the given coefficients, the lowest first. -/
def polynomial (coefficients : List Float) (s : Float) : Float :=
  let s2 := s * s
  let s4 := s2 * s2
  let powers := [s2, s4, s4 * s2, s4 * s4]
  match pairSums s coefficients with
  | [] => 0
  | first :: rest => (rest.zip powers).foldl (fun sum (pair, power) => sum + power * pair) first

/-- The slope of the error function at zero, less one. -/
def slopeExcess : Float := 1.28379167095512586316e-01

/-- The value of the error function near one, to single precision. -/
def valueNearOne : Float := 8.45062911510467529297e-01

/-- For a size below 27/32: how far the error function is from the argument, relative to it. -/
def erfRatio (x : Float) : Float :=
  let z := x * x
  polynomial [1.28379167095512558561e-01, -3.25042107247001499370e-01,
    -2.84817495755985104766e-02, -5.77027029648944159157e-03, -2.37630166566501626084e-05] z /
  polynomial [1, 3.97917223959155352819e-01, 6.50222499887672944485e-02,
    5.08130628187576562776e-03, 1.32494738004321644526e-04, -3.96022827877536812320e-06] z

/-- For a size from 27/32 to 5/4: the error function of the size, less its value near one. -/
def erfAboveOne (size : Float) : Float :=
  let s := size - 1
  polynomial [-2.36211856075265944077e-03, 4.14856118683748331666e-01,
    -3.72207876035701323847e-01, 3.18346619901161753674e-01, -1.10894694282396677476e-01,
    3.54783043256182359371e-02, -2.16637559486879084300e-03] s /
  polynomial [1, 1.06420880400844228286e-01, 5.40397917702171048937e-01,
    7.18286544141962662868e-02, 1.26171219808761642112e-01, 1.36370839120290507362e-02,
    1.19844998467991074170e-02] s

/-- For a size from 5/4 to `cut`: the correction in the exponent of the complement. -/
def middleCorrection (s : Float) : Float :=
  polynomial [-9.86494403484714822705e-03, -6.93858572707181764372e-01,
    -1.05586262253232909814e+01, -6.23753324503260060396e+01, -1.62396669462573470355e+02,
    -1.84605092906711035994e+02, -8.12874355063065934246e+01, -9.81432934416914548592e+00] s /
  polynomial [1, 1.96512716674392571292e+01, 1.37657754143519042600e+02,
    4.34565877475229228821e+02, 6.45387271733267880336e+02, 4.29008140027567833386e+02,
    1.08635005541779435134e+02, 6.57024977031928170135e+00, -6.04244152148580987438e-02] s

/-- For a larger size: the correction in the exponent of the complement. -/
def outerCorrection (s : Float) : Float :=
  polynomial [-9.86494292470009928597e-03, -7.99283237680523006574e-01,
    -1.77579549177547519889e+01, -1.60636384855821916062e+02, -6.37566443368389627722e+02,
    -1.02509513161107724954e+03, -4.83519191608651397019e+02] s /
  polynomial [1, 3.03380607434824582924e+01, 3.25792512996573918826e+02,
    1.53672958608443695994e+03, 3.19985821950859553908e+03, 2.55305040643316442583e+03,
    4.74528541206955367215e+02, -2.24409524465858183362e+01] s

/-- The double without the lower half of its bits, so that its square is exact. -/
def coarse (x : Float) : Float :=
  Float.ofBits (x.toBits &&& 0xFFFFFFFF00000000)

/-- The complement of the error function at a size of at least 5/4, times the size. The two
corrections meet at `cut`. -/
def scaledComplement (cut size : Float) : Float :=
  let s := 1 / (size * size)
  let correction := if size < cut then middleCorrection s else outerCorrection s
  let z := coarse size
  Float.exp (-z * z - 0.5625) * Float.exp ((z - size) * (z + size) + correction)

/-- The error function. -/
def erf (x : Float) : Float :=
  let size := x.abs
  if x.isNaN then x
  else if size < 0.84375 then
    if size < Float.ofBits 0x0080000000000000 then 0.0625 * (16 * x + (16 * slopeExcess) * x)
    else if size < Float.ofBits 0x3E30000000000000 then x + slopeExcess * x
    else x + x * erfRatio x
  else
    let value :=
      if size < 1.25 then valueNearOne + erfAboveOne size
      else if 6 ≤ size then 1
      else 1 - scaledComplement (Float.ofBits 0x4006DB6E00000000) size / size
    if x < 0 then -value else value

/-- The complement of the error function. -/
def erfc (x : Float) : Float :=
  let size := x.abs
  if x.isNaN then x
  else if size < 0.84375 then
    if size < Float.ofBits 0x3C70000000000000 then 1 - x
    else if x < 0.25 then 1 - (x + x * erfRatio x)
    else 0.5 - (x * erfRatio x + (x - 0.5))
  else if size < 1.25 then
    if x < 0 then 1 + (valueNearOne + erfAboveOne size)
    else (1 - valueNearOne) - erfAboveOne size
  else if 28 ≤ size then (if x < 0 then 2 else 0)
  else if x ≤ -6 then 2
  else
    let value := scaledComplement (Float.ofBits 0x4006DB6D00000000) size / size
    if x < 0 then 2 - value else value

end Reckoner.Numeric
