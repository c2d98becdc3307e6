/-!
# The exact value of a double

A finite double is a sign and a mantissa times a power of two. All decimal texts are computed from
this exact value.
-/

namespace Reckoner.Decimal

/-- The absolute value of a finite double, `mantissa * 2 ^ exponent`. -/
structure Binary where
  mantissa : Nat
  exponent : Int
  /-- The double below is nearer than the double above. -/
  narrowBelow : Bool

/-- The absolute value of a finite double. Infinities and the non-number have none; callers set
them apart first. -/
def Binary.ofFloat (x : Float) : Binary :=
  let bits := x.toBits
  let scale := ((bits >>> 52) &&& 0x7FF).toNat
  let fraction := (bits &&& 0xFFFFFFFFFFFFF).toNat
  if scale == 0 then ⟨fraction, -1074, false⟩
  else ⟨0x10000000000000 + fraction, (scale : Int) - 1075, fraction == 0 && 1 < scale⟩

/-- The numerator of the value as a fraction. -/
def Binary.numerator (b : Binary) : Nat :=
  b.mantissa * Nat.pow 2 b.exponent.toNat

/-- The denominator of the value as a fraction, a power of two. -/
def Binary.denominator (b : Binary) : Nat :=
  Nat.pow 2 (-b.exponent).toNat

/-- The sign bit is set; it is for minus zero. -/
def signBit (x : Float) : Bool :=
  x.toBits >>> 63 != 0

/-- The exact value of a finite double. -/
def exact (x : Float) : Rat :=
  let b := Binary.ofFloat x
  let size := mkRat b.numerator b.denominator
  if signBit x then -size else size

/-- The double is finite and has no fractional part. -/
def isWhole (x : Float) : Bool :=
  let b := Binary.ofFloat x
  x.isFinite && b.numerator % b.denominator == 0

/-- The integer that a double without fractional part denotes; other finite doubles lose their
fraction. -/
def toInteger (x : Float) : Int :=
  let b := Binary.ofFloat x
  let size : Int := (b.numerator / b.denominator : Nat)
  if signBit x then -size else size

/-- The double nearest to an integer, ties to even, unless it is past the largest double. An integer
of more than 1024 binary digits is. -/
def ofInteger? (n : Int) : Option Float :=
  if 1024 ≤ n.natAbs.log2 then none
  else
    let size := Float.ofScientific n.natAbs false 0
    if size.isFinite then some (if n < 0 then -size else size) else none

end Reckoner.Decimal
