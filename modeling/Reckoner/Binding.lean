import Reckoner.Decimal.Reader
import Reckoner.Json.Basic
import Reckoner.NamedFunction
import Reckoner.Text.Letter

/-!
# Variable bindings

A variable has a name of letters that no constant and no function has, and is bound to a number.
Callers may hand over anything; the bindings are checked before they are used.
-/

namespace Reckoner

/-- What a variable is bound to. -/
inductive BoundValue where
  | integer (value : Int)
  | double (value : Float)
  /-- Something else than a number. -/
  | other

/-- What a variable is named by. -/
inductive BoundName where
  | text (name : String)
  | integer (value : Int)
  /-- Something else, with the text that shows it, if there is one. -/
  | other (shown : Option String)
deriving DecidableEq

instance : Coe String BoundName := ⟨.text⟩

/-- Bindings by name, in order. -/
abbrev Bindings := Entries BoundValue BoundName

/-- Bindings by names that are texts, in order. -/
abbrev Variables := Entries BoundValue

namespace BoundValue

/-- The bound value that a JSON value is. -/
def ofJson : Json → BoundValue
  | .integer value => integer value
  | .double value => double value
  | _ => other

/-- The double that stands for a bound value. An integer past the largest double has none. -/
def toDouble : BoundValue → Except Failure Float
  | integer value =>
      match Decimal.ofInteger? value with
      | some value => .ok value
      | none => .error .overflow
  | double value => .ok value
  | other => .error .wrongType

end BoundValue

/-- The text that shows a name. An integer of too many digits has none. -/
def BoundName.shown? : BoundName → Option String
  | text name => some (Text.quoted name.toList)
  | integer value =>
      if value.natAbs < Nat.pow 10 Decimal.digitLimit then some (toString value) else none
  | other shown => shown

namespace Bindings

/-- The cause that speaks against a binding by a text, if there is one. -/
def fault? (name : String) (value : BoundValue) : Option Cause :=
  if name.isEmpty || !name.toList.all Text.isLetter then
    some (.invalidName (Text.quoted name.toList))
  else if isConstant name || (NamedFunction.ofName? name).isSome then some (.reservedName name)
  else
    match value with
    | .other => some (.notNumber name)
    | _ => none

/-- Checks a binding. A name that is no text is refused, if there is a text that shows it. -/
def checkOne (name : BoundName) (value : BoundValue) : Except Failure Unit :=
  match name with
  | .text name =>
      match fault? name value with
      | some cause => refuse cause
      | none => .ok ()
  | name =>
      match name.shown? with
      | some shown => refuse (.invalidName shown)
      | none => .error .wrongValue

/-- Checks the bindings in order. -/
def check : Bindings → Except Failure Unit
  | [] => .ok ()
  | (name, value) :: rest => do
      checkOne name value
      check rest

/-- The bindings by texts. When bindings have been checked, these are all. -/
def texts (bindings : Bindings) : Variables :=
  bindings.filterMap fun (name, value) =>
    match name with
    | .text name => some (name, value)
    | _ => none

end Bindings

end Reckoner
