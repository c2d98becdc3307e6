import Reckoner.Decimal.Reader
import Reckoner.Json.Reader
import Reckoner.Text.Blank
import Reckoner.Text.Pieces
import Reckoner.Text.Quoted

/-!
# Assignments on the command line

Variables are bound and settings are stored by texts of the form `NAME=VALUE`. The value of a
variable is a decimal. The value of a setting is JSON, or else the text itself.
-/

namespace Reckoner.CommandLine

open Reckoner.Text

/-- Why the value of an option is not accepted. -/
inductive ValueFault where
  /-- The reason is given. -/
  | because (reason : String)
  /-- The value is not one of the type that the option takes. -/
  | notOfType

/-- The name in front of the first sign of equality, and the text behind it. -/
def assignment? (text : String) : Option (String × List Char) :=
  (cutAt? '=' text.toList).map fun (name, value) => (String.ofList (strip name), value)

/-- The variable and the number that a text binds. -/
def readBinding (text : String) : Except ValueFault (String × Float) :=
  match assignment? text with
  | none => .error (.because ("expected NAME=VALUE, got " ++ quoted text.toList))
  | some (name, value) =>
      match Decimal.readFloat? value with
      | some x => .ok (name, x)
      | none => .error (.because ("value of " ++ quoted name.toList ++ " is not a number"))

/-- The setting and the value that a text stores. -/
def readSetting (text : String) : Except ValueFault (String × Json) :=
  match assignment? text with
  | none => .error (.because ("expected KEY=VALUE, got " ++ quoted text.toList))
  | some (name, value) =>
      match Json.read (String.ofList value) with
      | .ok json => .ok (name, json)
      | .error .malformed => .ok (name, .text (String.ofList value))
      | .error .tooManyDigits => .error .notOfType

end Reckoner.CommandLine
