import Reckoner.Numeric.ErrorFunction
import Reckoner.Numeric.Gamma
import Reckoner.Text.Case

/-!
# Named functions and constants

The functions and constants that an expression can name, in any case of their letters. Every
function takes a fixed number of arguments. Angles are in radians unless degrees are asked for.
-/

namespace Reckoner

/-- The constants by name. -/
def constants : Entries Float :=
  [("pi", 3.141592653589793),
    ("π", 3.141592653589793),
    ("e", 2.718281828459045),
    ("phi", 1.618033988749895),
    ("gamma", 0.5772156649015329)]

/-- A name in lower case. -/
def lowerName (name : String) : String :=
  String.ofList (Text.lower name.toList)

/-- The name of a constant in any case. -/
def isConstant (name : String) : Bool :=
  (constants.get? (lowerName name)).isSome

/-- The functions that an expression can call. -/
inductive NamedFunction where
  | sin
  | cos
  | tan
  | asin
  | acos
  | atan
  | sinh
  | cosh
  | tanh
  | asinh
  | acosh
  | atanh
  | log
  | log10
  | log2
  | ln
  | sqrt
  | cbrt
  | abs
  | exp
  | factorial
  | permutation
  | combination
  | gamma
  | erf
  | erfc
  | beta
deriving DecidableEq

namespace NamedFunction

/-- The functions by name. -/
def table : Entries NamedFunction :=
  [("sin", sin), ("cos", cos), ("tan", tan), ("asin", asin), ("acos", acos), ("atan", atan),
    ("sinh", sinh), ("cosh", cosh), ("tanh", tanh), ("asinh", asinh), ("acosh", acosh),
    ("atanh", atanh), ("log", log), ("log10", log10), ("log2", log2), ("ln", ln), ("sqrt", sqrt),
    ("cbrt", cbrt), ("abs", abs), ("exp", exp), ("factorial", factorial),
    ("permutation", permutation), ("combination", combination), ("gamma", gamma), ("erf", erf),
    ("erfc", erfc), ("beta", beta)]

/-- The function with a name in any case. -/
def ofName? (name : String) : Option NamedFunction :=
  table.get? (lowerName name)

/-- The number of arguments of a function. -/
def arity : NamedFunction → Nat
  | permutation | combination | beta => 2
  | _ => 1

/-- The argument is an angle. -/
def takesAngle : NamedFunction → Bool
  | sin | cos | tan => true
  | _ => false

/-- The value is an angle. -/
def givesAngle : NamedFunction → Bool
  | asin | acos | atan => true
  | _ => false

/-- The value of a function at a finite argument is finite; where the function gives none, the
argument is outside of its domain. -/
def withinDomain (f : Float → Float) (x : Float) : Except Failure Float :=
  let y := f x
  if (y.isNaN && !x.isNaN) || (y.isInf && x.isFinite) then .error .wrongValue else .ok y

/-- The value of a function whose values at finite arguments can be past the largest double. -/
def withinRange (f : Float → Float) (x : Float) : Except Failure Float :=
  let y := f x
  if y.isInf && x.isFinite then .error .overflow else .ok y

/-- The logarithm for a base has only positive arguments. -/
def logarithm (f : Float → Float) (x : Float) : Except Failure Float :=
  if x ≤ 0 then .error .wrongValue else .ok (f x)

/-- The cube root as a power. -/
def cubeRootPower (x : Float) : Float :=
  let size := Float.pow x.abs (1 / 3)
  if Decimal.signBit x then -size else size

/-- The integer nearest to a finite double, an even one from a tie. -/
def nearestInteger (x : Float) : Int :=
  let b := Decimal.Binary.ofFloat x
  let nearest : Int := Decimal.roundDiv b.numerator b.denominator
  if Decimal.signBit x then -nearest else nearest

/-- The cube root: exact where the nearest integer is a root, a power otherwise. -/
def cubeRoot (x : Float) : Except Failure Float :=
  let root := cubeRootPower x
  let nearest := nearestInteger root
  if root.isFinite && (Int.pow nearest 3 : Rat) == Decimal.exact x then
    match Decimal.ofInteger? nearest with
    | some root => .ok root
    | none => .error .overflow
  else .ok root

/-- The beta function, a quotient of gamma functions. -/
def betaOf (x y : Float) : Except Failure Float := do
  let a ← Numeric.gamma x
  let b ← Numeric.gamma y
  let c ← Numeric.gamma (x + y)
  if c == 0 then .error .zeroDivisor else .ok (a * b / c)

/-- The value of a function with one argument. -/
def unaryValue : NamedFunction → Float → Except Failure Float
  | sin => withinDomain Float.sin
  | cos => withinDomain Float.cos
  | tan => withinDomain Float.tan
  | asin => withinDomain Float.asin
  | acos => withinDomain Float.acos
  | atan => withinDomain Float.atan
  | sinh => withinRange Float.sinh
  | cosh => withinRange Float.cosh
  | tanh => withinDomain Float.tanh
  | asinh => withinDomain Float.asinh
  | acosh => withinDomain Float.acosh
  | atanh => withinDomain Float.atanh
  | log | log10 => logarithm Float.log10
  | log2 => logarithm Float.log2
  | ln => logarithm Float.log
  | sqrt => withinDomain Float.sqrt
  | cbrt => cubeRoot
  | abs => fun x => .ok x.abs
  | exp => withinRange Float.exp
  | factorial => Numeric.factorialOf
  | gamma => Numeric.gamma
  | erf => fun x => .ok (Numeric.erf x)
  | erfc => fun x => .ok (Numeric.erfc x)
  | permutation | combination | beta => fun _ => .error .wrongType

/-- The value of a function with two arguments. -/
def binaryValue : NamedFunction → Float → Float → Except Failure Float
  | permutation => Numeric.permutationOf
  | combination => Numeric.combinationOf
  | beta => betaOf
  | _ => fun _ _ => .error .wrongType

/-- The value of a function at arguments of the right number. -/
def value (f : NamedFunction) : List Float → Except Failure Float
  | [x] => f.unaryValue x
  | [x, y] => f.binaryValue x y
  | _ => .error .wrongType

/-- An angle in degrees, in radians. -/
def radians (x : Float) : Float := x * (3.141592653589793 / 180)

/-- An angle in radians, in degrees. -/
def inDegrees (x : Float) : Float := x * (180 / 3.141592653589793)

/-- Applies a function that goes by `name` to arguments. A value outside of the domain is an error
of its own, which shows the arguments as the function saw them. -/
def apply (f : NamedFunction) (name : String) (arguments : List Float) (degrees : Bool) :
    Except Failure Float :=
  if arguments.length ≠ f.arity then
    refuse (.argumentCount name f.arity arguments.length)
  else
    let arguments := if degrees && f.takesAngle then arguments.map radians else arguments
    match f.value arguments with
    | .ok y => .ok (if degrees && f.givesAngle then inDegrees y else y)
    | .error .wrongValue => refuse (.outsideDomain name arguments)
    | .error failure => .error failure

/-- Applies the function with a name in any case. -/
def applyNamed (name : String) (arguments : List Float) (degrees : Bool) : Except Failure Float :=
  match ofName? name with
  | some f => f.apply (lowerName name) arguments degrees
  | none => refuse (.unsupportedFunction (lowerName name))

end NamedFunction

end Reckoner
