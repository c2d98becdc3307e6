/-!
# The hypotenuse

The length of the hypotenuse is the root of the sum of two squares with one correction step. Sides
of extreme size are scaled first, and a side that is negligible beside the other is just added.
-/

namespace Reckoner.Numeric

/-- The hypotenuse of two sides, the longer one first, whose squares neither vanish nor
overflow. -/
def correctedRoot (long short : Float) : Float :=
  let h := Float.sqrt (long * long + short * short)
  let (t₁, t₂) :=
    if h ≤ 2 * short then
      let delta := h - short
      (long * (2 * delta - long), (delta - 2 * (long - short)) * delta)
    else
      let delta := h - long
      (2 * delta * (long - 2 * short), (4 * delta - short) * short + delta * delta)
  h - (t₁ + t₂) / (2 * h)

/-- Two to the power −600. -/
def scaleDown : Float := Float.ofBits 0x1A70000000000000

/-- Two to the power −54, the ratio from which on a side is negligible. -/
def negligible : Float := Float.ofBits 0x3C90000000000000

/-- The length of the hypotenuse over two sides. An infinite side outweighs the non-number. -/
def hypotenuse (x y : Float) : Float :=
  if x.isInf || y.isInf then Float.ofBits 0x7FF0000000000000
  else if x.isNaN || y.isNaN then x + y
  else
    let a := x.abs
    let b := y.abs
    let long := if a < b then b else a
    let short := if a < b then a else b
    if Float.ofBits 0x5FE0000000000000 < long then
      if short ≤ long * negligible then long + short
      else correctedRoot (long * scaleDown) (short * scaleDown) / scaleDown
    else if short < Float.ofBits 0x2340000000000000 then
      if short / negligible ≤ long then long + short
      else correctedRoot (long / scaleDown) (short / scaleDown) * scaleDown
    else if short ≤ long * negligible then long + short
    else correctedRoot long short

end Reckoner.Numeric
