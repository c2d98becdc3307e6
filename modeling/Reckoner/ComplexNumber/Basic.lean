import Reckoner.Numeric.Hypotenuse
import Reckoner.NamedFunction

/-!
# Complex numbers

A complex number is a pair of doubles. Quotients are computed by dividing through the larger part
of the divisor first, so that no intermediate square can overflow.
-/

namespace Reckoner

/-- A complex number. -/
structure ComplexNumber where
  re : Float
  im : Float

namespace ComplexNumber

/-- The sum. -/
def add (a b : ComplexNumber) : ComplexNumber := ⟨a.re + b.re, a.im + b.im⟩

/-- The difference. -/
def subtract (a b : ComplexNumber) : ComplexNumber := ⟨a.re - b.re, a.im - b.im⟩

/-- The product. -/
def multiply (a b : ComplexNumber) : ComplexNumber :=
  ⟨a.re * b.re - a.im * b.im, a.re * b.im + a.im * b.re⟩

/-- The quotient by a number that is not zero. -/
def divide (a b : ComplexNumber) : ComplexNumber :=
  if b.im.abs ≤ b.re.abs then
    let ratio := b.im / b.re
    let divisor := b.re + b.im * ratio
    ⟨(a.re + a.im * ratio) / divisor, (a.im - a.re * ratio) / divisor⟩
  else if b.re.abs ≤ b.im.abs then
    let ratio := b.re / b.im
    let divisor := b.re * ratio + b.im
    ⟨(a.re * ratio + a.im) / divisor, (a.im * ratio - a.re) / divisor⟩
  else ⟨Float.ofBits 0x7FF8000000000000, Float.ofBits 0x7FF8000000000000⟩

/-- The number is zero. -/
def isZero (z : ComplexNumber) : Bool := z.re == 0 && z.im == 0

/-- The number mirrored at the real axis. -/
def conjugate (z : ComplexNumber) : ComplexNumber := ⟨z.re, -z.im⟩

/-- The distance from zero, which may be past the largest double. -/
def modulus (z : ComplexNumber) : Except Failure Float :=
  let size := Numeric.hypotenuse z.re z.im
  if size.isInf && z.re.isFinite && z.im.isFinite then .error .overflow else .ok size

/-- The angle with the positive real axis. An angle that vanishes against the smallest double is no
result. -/
def argument (z : ComplexNumber) : Except Failure Float :=
  let angle := Float.atan2 z.im z.re
  if angle == 0 && z.im != 0 && z.re.isFinite then .error .overflow else .ok angle

/-- The text of a number: real part, sign, imaginary part and its mark. -/
def write (z : ComplexNumber) : String :=
  traceNumber z.re ++ (if z.im < 0 then " - " else " + ") ++ traceNumber z.im.abs ++ "i"

end ComplexNumber

/-- An operation on complex numbers. -/
inductive ComplexOperation where
  | add
  | subtract
  | multiply
  | divide
  | conjugate
  | real
  | imaginary
  | argument
  | modulus
  /-- An operation that no rule knows. -/
  | unknown (name : String)
deriving DecidableEq

namespace ComplexOperation

/-- The name of an operation. -/
def name : ComplexOperation → String
  | add => "+"
  | subtract => "-"
  | multiply => "*"
  | divide => "/"
  | conjugate => "conj"
  | real => "real"
  | imaginary => "imag"
  | argument => "arg"
  | modulus => "abs"
  | unknown name => name

/-- The operation with a name. -/
def ofName (name : String) : ComplexOperation :=
  match name with
  | "+" => add
  | "-" => subtract
  | "*" => multiply
  | "/" => divide
  | "conj" => conjugate
  | "real" => real
  | "imag" => imaginary
  | "arg" => argument
  | "abs" => modulus
  | name => unknown name

/-- Applies a function of two numbers. -/
def onTwo (operation : ComplexOperation)
    (f : ComplexNumber → ComplexNumber → Except Failure ComplexNumber) :
    List ComplexNumber → Except Failure ComplexNumber
  | [a, b] => f a b
  | _ => refuse (.needsTwoNumbers operation.name)

/-- Applies a function of one number. -/
def onOne (operation : ComplexOperation) (f : ComplexNumber → Except Failure ComplexNumber) :
    List ComplexNumber → Except Failure ComplexNumber
  | [z] => f z
  | _ => refuse (.needsOneNumber operation.name)

/-- The quotient, which has no value for a zero divisor. -/
def quotient (a b : ComplexNumber) : Except Failure ComplexNumber :=
  if b.isZero then refuse .divisionByZero else .ok (a.divide b)

/-- The real number as a complex one. -/
def ofReal (value : Float) : ComplexNumber := ⟨value, 0⟩

/-- Performs an operation. -/
def perform (operation : ComplexOperation) (numbers : List ComplexNumber) :
    Except Failure ComplexNumber :=
  if numbers.isEmpty then refuse .noComplexNumber
  else
    match operation with
    | add => operation.onTwo (fun a b => .ok (a.add b)) numbers
    | subtract => operation.onTwo (fun a b => .ok (a.subtract b)) numbers
    | multiply => operation.onTwo (fun a b => .ok (a.multiply b)) numbers
    | divide => operation.onTwo quotient numbers
    | conjugate => operation.onOne (fun z => .ok z.conjugate) numbers
    | real => operation.onOne (fun z => .ok (ofReal z.re)) numbers
    | imaginary => operation.onOne (fun z => .ok (ofReal z.im)) numbers
    | argument => operation.onOne (fun z => z.argument.map ofReal) numbers
    | modulus => operation.onOne (fun z => z.modulus.map ofReal) numbers
    | unknown name => refuse (.unsupportedOperation name)

end ComplexOperation

end Reckoner
