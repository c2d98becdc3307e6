import Reckoner.Decimal.Reader
import Reckoner.Json.Basic

/-!
# Reading JSON

The reader is strict, except that it accepts the words for the infinities and the non-number that
the writer uses. A number without point and exponent is an integer of any size up to the limit on
digits, which is a fault of its own; all other faults are alike. Of members with the same key the
last one counts.
-/

namespace Reckoner.Json

/-- Why a text is not accepted. -/
inductive ReadFault where
  /-- The text is not JSON. -/
  | malformed
  /-- An integer has more digits than the limit. -/
  | tooManyDigits

/-- White space between the parts of a value. -/
def isSpace (c : Char) : Bool :=
  c == ' ' || c == '\t' || c == '\n' || c == '\r'

/-- The text from the first part on. -/
def skipSpace (chars : List Char) : List Char :=
  chars.dropWhile isSpace

/-- The value of a hexadecimal digit. -/
def hexValue? (c : Char) : Option Nat :=
  if c.isDigit then some (c.toNat - '0'.toNat)
  else if 'a' ≤ c && c ≤ 'f' then some (c.toNat - 'a'.toNat + 10)
  else if 'A' ≤ c && c ≤ 'F' then some (c.toNat - 'A'.toNat + 10)
  else none

/-- The 16-bit unit that four hexadecimal digits give. -/
def unit? (a b c d : Char) : Option Nat := do
  let a ← hexValue? a
  let b ← hexValue? b
  let c ← hexValue? c
  let d ← hexValue? d
  return ((a * 16 + b) * 16 + c) * 16 + d

/-- The unit is the first one of a surrogate pair. -/
def isHighSurrogate (unit : Nat) : Bool :=
  0xD800 ≤ unit && unit ≤ 0xDBFF

/-- The unit is the second one of a surrogate pair. -/
def isLowSurrogate (unit : Nat) : Bool :=
  0xDC00 ≤ unit && unit ≤ 0xDFFF

/-- The character of a surrogate pair, if the units are one. -/
def pairChar? (high low : Nat) : Option Char :=
  if isHighSurrogate high && isLowSurrogate low then
    some (Char.ofNat (0x10000 + (high - 0xD800) * 0x400 + (low - 0xDC00)))
  else none

/-- The character of a unit on its own; that of a surrogate is the replacement character. -/
def unitChar (unit : Nat) : Char :=
  if isHighSurrogate unit || isLowSurrogate unit then '\ufffd' else Char.ofNat unit

/-- The character that a letter after a backslash stands for. -/
def unescape? : Char → Option Char
  | '"' => some '"'
  | '\\' => some '\\'
  | '/' => some '/'
  | 'b' => some '\x08'
  | 'f' => some '\x0c'
  | 'n' => some '\n'
  | 'r' => some '\r'
  | 't' => some '\t'
  | _ => none

/-- The character of an escaped unit that still waits for the second one of its pair. -/
def waiting (pending : Option Nat) : List Char :=
  pending.toList.map unitChar

/-- Puts characters in front of what has been read of a string. -/
def prepend (cs : List Char) (result : Option (List Char × List Char)) :
    Option (List Char × List Char) :=
  result.map fun (more, after) => (cs ++ more, after)

/-- The rest of a string after its opening quote, and what follows the closing one. An escaped unit
waits until it is known whether it makes a pair with the next one. -/
def readText? (pending : Option Nat) : List Char → Option (List Char × List Char)
  | [] => none
  | '"' :: rest => some (waiting pending, rest)
  | '\\' :: 'u' :: a :: b :: c :: d :: rest =>
      match unit? a b c d with
      | none => none
      | some unit =>
          match pending.bind fun high => pairChar? high unit with
          | some c => prepend [c] (readText? none rest)
          | none => prepend (waiting pending) (readText? (some unit) rest)
  | '\\' :: letter :: rest =>
      match unescape? letter with
      | some c => prepend (waiting pending ++ [c]) (readText? none rest)
      | none => none
  | c :: rest =>
      if c.toNat < 32 || c == '\\' then none
      else prepend (waiting pending ++ [c]) (readText? none rest)

/-- The part of a number after its whole digits: a point with digits, if there are any. -/
def takeFraction : List Char → List Char × List Char
  | '.' :: d :: rest =>
      if d.isDigit then ('.' :: d :: rest.takeWhile Char.isDigit, rest.dropWhile Char.isDigit)
      else ([], '.' :: d :: rest)
  | rest => ([], rest)

/-- The exponent of a number, if it has digits. -/
def takeExponent : List Char → List Char × List Char
  | mark :: rest =>
      let (sign, digits) := match rest with
        | '+' :: digits => (['+'], digits)
        | '-' :: digits => (['-'], digits)
        | digits => ([], digits)
      match digits with
      | d :: _ =>
          if (mark == 'e' || mark == 'E') && d.isDigit then
            (mark :: sign ++ digits.takeWhile Char.isDigit, digits.dropWhile Char.isDigit)
          else ([], mark :: rest)
      | [] => ([], mark :: rest)
  | [] => ([], [])

/-- The whole digits of a number. A zero stands alone. -/
def takeWhole : List Char → List Char × List Char
  | '0' :: rest => (['0'], rest)
  | size => (size.takeWhile Char.isDigit, size.dropWhile Char.isDigit)

/-- A number after its sign. Without a point and an exponent it is an integer. -/
def readSize (negative : Bool) (size : List Char) : Except ReadFault (Json × List Char) :=
  let (whole, rest) := takeWhole size
  if whole.isEmpty then .error .malformed
  else
    let (fraction, rest) := takeFraction rest
    let (exponent, rest) := takeExponent rest
    if fraction.isEmpty && exponent.isEmpty then
      if Decimal.digitLimit < whole.length then .error .tooManyDigits
      else
        let value : Int := Decimal.digitsValue whole
        .ok (integer (if negative then -value else value), rest)
    else
      match Decimal.readUnsigned? (whole ++ fraction ++ exponent) with
      | some value => .ok (double (if negative then -value else value), rest)
      | none => .error .malformed

/-- A number, with or without a minus. -/
def readNumber : List Char → Except ReadFault (Json × List Char)
  | '-' :: size => readSize true size
  | size => readSize false size

/-- A word, if the text starts with it. -/
def readWord? : List Char → Option (Json × List Char)
  | 'n' :: 'u' :: 'l' :: 'l' :: rest => some (null, rest)
  | 't' :: 'r' :: 'u' :: 'e' :: rest => some (bool true, rest)
  | 'f' :: 'a' :: 'l' :: 's' :: 'e' :: rest => some (bool false, rest)
  | 'N' :: 'a' :: 'N' :: rest => some (double (Float.ofBits 0x7FF8000000000000), rest)
  | 'I' :: 'n' :: 'f' :: 'i' :: 'n' :: 'i' :: 't' :: 'y' :: rest =>
      some (double (Float.ofBits 0x7FF0000000000000), rest)
  | '-' :: 'I' :: 'n' :: 'f' :: 'i' :: 'n' :: 'i' :: 't' :: 'y' :: rest =>
      some (double (Float.ofBits 0xFFF0000000000000), rest)
  | _ => none

/-- A key with the colon after it, and what follows. -/
def readKey (chars : List Char) : Except ReadFault (String × List Char) :=
  match chars with
  | '"' :: rest =>
      match readText? none rest with
      | some (key, after) =>
          match skipSpace after with
          | ':' :: after => .ok (String.ofList key, skipSpace after)
          | _ => .error .malformed
      | none => .error .malformed
  | _ => .error .malformed

mutual

/-- A value at the start of a text, and what follows it. The fuel bounds the parts read. -/
def readValue : Nat → List Char → Except ReadFault (Json × List Char)
  | 0, _ => .error .malformed
  | fuel + 1, '[' :: rest =>
      match skipSpace rest with
      | ']' :: after => .ok (array [], after)
      | rest => do
          let (items, after) ← readItems fuel rest
          return (array items, after)
  | fuel + 1, '\x7b' :: rest =>
      match skipSpace rest with
      | '\x7d' :: after => .ok (object [], after)
      | rest => do
          let (members, after) ← readMembers fuel rest
          return (object (Entries.ofPairs members), after)
  | _ + 1, '"' :: rest =>
      match readText? none rest with
      | some (value, after) => .ok (text (String.ofList value), after)
      | none => .error .malformed
  | _ + 1, rest =>
      match readWord? rest with
      | some result => .ok result
      | none => readNumber rest

/-- The items of an array up to its closing bracket, at least one. -/
def readItems : Nat → List Char → Except ReadFault (List Json × List Char)
  | 0, _ => .error .malformed
  | fuel + 1, rest => do
      let (item, after) ← readValue fuel rest
      match skipSpace after with
      | ']' :: after => return ([item], after)
      | ',' :: after =>
          let (items, after) ← readItems fuel (skipSpace after)
          return (item :: items, after)
      | _ => .error .malformed

/-- The members of an object up to its closing brace, at least one. -/
def readMembers : Nat → List Char → Except ReadFault (List (String × Json) × List Char)
  | 0, _ => .error .malformed
  | fuel + 1, rest => do
      let (key, rest) ← readKey rest
      let (value, after) ← readValue fuel rest
      match skipSpace after with
      | '\x7d' :: after => return ([(key, value)], after)
      | ',' :: after =>
          let (members, after) ← readMembers fuel (skipSpace after)
          return ((key, value) :: members, after)
      | _ => .error .malformed

end

/-- The value that a whole text denotes. -/
def read (source : String) : Except ReadFault Json :=
  let chars := source.toList
  match readValue (chars.length + 1) (skipSpace chars) with
  | .error fault => .error fault
  | .ok (value, rest) => if (skipSpace rest).isEmpty then .ok value else .error .malformed

end Reckoner.Json
