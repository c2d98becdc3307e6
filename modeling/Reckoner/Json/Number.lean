import Reckoner.Decimal.Reader
import Reckoner.Failure
import Reckoner.Json.Basic

/-!
# Numbers that JSON values stand for

Where a number is needed, a truth value counts as zero or one and a text is read. All other values
have the wrong type, and texts that are no numbers the wrong value.
-/

namespace Reckoner.Json

/-- The integer that a value stands for. Texts are read, fractions are cut off. -/
def toInteger : Json → Except Failure Int
  | .integer value => .ok value
  | .bool value => .ok (if value then 1 else 0)
  | .double value =>
      if value.isNaN then .error .wrongValue
      else if value.isInf then .error .overflow
      else .ok (Decimal.toInteger value)
  | .text value =>
      match Decimal.readInteger? value.toList with
      | some value => .ok value
      | none => .error .wrongValue
  | _ => .error .wrongType

/-- The double that a value stands for. Texts are read; an integer past the largest double has
none. -/
def toDouble : Json → Except Failure Float
  | .bool b => .ok (if b then 1 else 0)
  | .integer n =>
      match Decimal.ofInteger? n with
      | some x => .ok x
      | none => .error .overflow
  | .double x => .ok x
  | .text s =>
      match Decimal.readFloat? s.toList with
      | some x => .ok x
      | none => .error .wrongValue
  | _ => .error .wrongType

end Reckoner.Json
