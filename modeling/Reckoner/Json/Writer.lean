import Reckoner.Decimal.Shortest
import Reckoner.Json.Basic
import Reckoner.Text.Pieces
import Reckoner.Text.Quoted

/-!
# Writing JSON

There are two forms. The compact form stands on one line and shows characters beyond ASCII as they
are. The indented form is that of the settings file: one member a line, four blanks a level, and
every character beyond printable ASCII escaped in 16-bit units.
-/

namespace Reckoner.Json

open Reckoner.Text

/-- The escape of a 16-bit unit. -/
def escapeUnit (unit : Nat) : List Char :=
  '\\' :: 'u' :: hexDigits 4 unit

/-- The escape of a code point: one unit, or two from the surrogate ranges. -/
def escapeCode (code : Nat) : List Char :=
  if code < 0x10000 then escapeUnit code
  else
    let offset := code - 0x10000
    escapeUnit (0xD800 + offset / 0x400) ++ escapeUnit (0xDC00 + offset % 0x400)

/-- The form of a character within a string, where `plain` tells which characters beyond the
mandatory escapes may stand as they are. -/
def writeChar (plain : Char → Bool) (c : Char) : List Char :=
  if c == '"' || c == '\\' then ['\\', c]
  else if c == '\n' then ['\\', 'n']
  else if c == '\r' then ['\\', 'r']
  else if c == '\t' then ['\\', 't']
  else if c == '\x0c' then ['\\', 'f']
  else if c == '\x08' then ['\\', 'b']
  else if plain c then [c]
  else escapeCode c.toNat

/-- A string between double quotes. -/
def writeText (plain : Char → Bool) (s : String) : String :=
  String.ofList ('"' :: s.toList.flatMap (writeChar plain) ++ ['"'])

/-- In the compact form only the controls below the space are escaped. -/
def plainCompact (c : Char) : Bool := 32 ≤ c.toNat

/-- In the indented form all but printable ASCII is escaped. -/
def plainIndented (c : Char) : Bool := 32 ≤ c.toNat && c.toNat < 127

/-- A double by its shortest text; infinities and the non-number by words of their own. -/
def writeDouble (x : Float) : String :=
  if x.isNaN then "NaN"
  else if x.isInf then (if x < 0 then "-Infinity" else "Infinity")
  else Decimal.shortest x

/-- The text of a value without parts. -/
def writeLeaf (plain : Char → Bool) : Json → String
  | null => "null"
  | bool value => if value then "true" else "false"
  | integer value => toString value
  | double value => writeDouble value
  | text value => writeText plain value
  | array _ => "[]"
  | object _ => "\x7b\x7d"

mutual

/-- The compact form of a value. -/
def compact : Json → String
  | array items => "[" ++ join ", " (compactItems items) ++ "]"
  | object members => "\x7b" ++ join ", " (compactMembers members) ++ "\x7d"
  | leaf => writeLeaf plainCompact leaf

/-- The compact forms of the items of an array. -/
def compactItems : List Json → List String
  | [] => []
  | item :: rest => compact item :: compactItems rest

/-- The compact forms of the members of an object. -/
def compactMembers : List (String × Json) → List String
  | [] => []
  | (key, value) :: rest =>
      (writeText plainCompact key ++ ": " ++ compact value) :: compactMembers rest

end

/-- A line break and the blanks of a level. -/
def newLine (level : Nat) : String :=
  String.ofList ('\n' :: List.replicate (4 * level) ' ')

/-- Parts between brackets, each on a line of its own one level in; nothing between the brackets
without parts. -/
def block (level : Nat) (opening closing : String) (parts : List String) : String :=
  if parts.isEmpty then opening ++ closing
  else
    opening ++ newLine (level + 1) ++ join ("," ++ newLine (level + 1)) parts ++
      newLine level ++ closing

mutual

/-- The indented form of a value that starts at a level. -/
def indentedAt (level : Nat) : Json → String
  | array items => block level "[" "]" (indentedItems (level + 1) items)
  | object members => block level "\x7b" "\x7d" (indentedMembers (level + 1) members)
  | leaf => writeLeaf plainIndented leaf

/-- The indented forms of the items of an array. -/
def indentedItems (level : Nat) : List Json → List String
  | [] => []
  | item :: rest => indentedAt level item :: indentedItems level rest

/-- The indented forms of the members of an object. -/
def indentedMembers (level : Nat) : List (String × Json) → List String
  | [] => []
  | (key, value) :: rest =>
      (writeText plainIndented key ++ ": " ++ indentedAt level value) :: indentedMembers level rest

end

/-- The indented form of a value. -/
def indented (value : Json) : String :=
  indentedAt 0 value

end Reckoner.Json
