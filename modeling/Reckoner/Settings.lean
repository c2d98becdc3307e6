import Reckoner.Json.Number
import Reckoner.Json.Reader
import Reckoner.Json.Writer

/-!
# Settings

Settings are JSON values under names. A caller may give some of them; the others have defaults.
Flags count by truth, and the number of decimal places is read from a value of any type when a
number has to be rounded, so that an unusable value matters only then.

The settings file holds a JSON object. Without a file, or with a file that holds no JSON object,
the defaults count.
-/

namespace Reckoner

/-- Settings by name. -/
abbrev Settings := Entries Json

/-- What may stand in the place of the settings file. -/
inductive SettingsFile where
  | absent
  | directory
  | text (content : String)

namespace Settings

/-- The settings that count unless something else is given. -/
def defaults : Settings :=
  [("decimal_places", .integer 6),
    ("fractions", .bool false),
    ("degree_mode", .bool false),
    ("lenient_tokenizer", .bool false),
    ("debug", .bool false),
    ("show_steps", .bool true),
    ("copy_result", .bool false),
    ("graph_domain", .array [.integer (-10), .integer 10]),
    ("graph_samples", .integer 201)]

/-- The defaults with the given settings written over them. -/
def complete (given : Settings) : Settings :=
  Entries.overlay defaults given

/-- The value of a setting; zero for an unknown name. -/
def value (settings : Settings) (name : String) : Json :=
  (settings.get? name).getD (.integer 0)

/-- A setting counts as on. -/
def isOn (settings : Settings) (name : String) : Bool :=
  (settings.value name).isTrue

/-- Results are written as fractions. -/
def fractions (settings : Settings) : Bool := settings.isOn "fractions"

/-- Angles are in degrees. -/
def degrees (settings : Settings) : Bool := settings.isOn "degree_mode"

/-- Characters that no token has are skipped. -/
def lenient (settings : Settings) : Bool := settings.isOn "lenient_tokenizer"

/-- Evaluation writes diagnostic lines. -/
def debug (settings : Settings) : Bool := settings.isOn "debug"

/-- The steps of a calculation are shown. -/
def showSteps (settings : Settings) : Bool := settings.isOn "show_steps"

/-- Results are copied to the clipboard. -/
def copyResult (settings : Settings) : Bool := settings.isOn "copy_result"

/-- The number of decimal places that results are rounded to. -/
def decimalPlaces (settings : Settings) : Except Failure Nat :=
  (settings.value "decimal_places").toInteger.map Int.toNat

/-- The settings that a file gives. An integer past the limit on digits is no malformed file but a
failure. -/
def load : SettingsFile → Except Failure Settings
  | .absent => .ok defaults
  | .directory => .error .directory
  | .text content =>
      match Json.read content with
      | .ok (.object members) => .ok (complete members)
      | .ok _ => .ok defaults
      | .error .malformed => .ok defaults
      | .error .tooManyDigits => .error .wrongValue

/-- The text of the settings file. -/
def fileText (settings : Settings) : String :=
  (Json.object settings).indented

/-- Writes settings to the file: what was saved, and the file afterwards. A directory in its place
saves nothing. -/
def save (settings : Settings) : SettingsFile → Settings × SettingsFile
  | .directory => ([], .directory)
  | _ => (settings, .text settings.fileText)

/-- The given settings completed by defaults, or those of the file if none are given. -/
def resolve (file : SettingsFile) : Option Settings → Except Failure Settings
  | none => load file
  | some given => .ok (complete given)

end Settings

end Reckoner
