import Reckoner.Binding
import Reckoner.Text.Blank
import Reckoner.Text.Digit

/-!
# Substitution

Constants and bound variables are written into the text of an expression, as numbers between
parentheses. A name is replaced where it stands on its own, with no letter before or after it.
Constants go by any case of their letters. The mark of an exponent is never taken for a constant,
and a constant that is a function as well is left alone where it is called.
-/

namespace Reckoner.Substitution

open Reckoner.Text

/-- A name as the characters that each of its places accepts. -/
abbrev Spelling := List (List Char)

/-- The spelling of a name that goes by its own letters only. -/
def exactly (name : List Char) : Spelling :=
  name.map fun c => [c]

/-- The characters that stand for a letter in any case. The letter i has four forms, and the small
pi has a variant. -/
def anyCase (c : Char) : List Char :=
  if c == 'i' then ['i', 'I', '\u0130', '\u0131']
  else if c == '\u03c0' then ['\u03c0', '\u03a0', '\u03d6']
  else [c, c.toUpper]

/-- The part of the text that a spelling accepts at its start, and what follows. -/
def matchSpelling? : Spelling → List Char → Option (List Char × List Char)
  | [], text => some ([], text)
  | _ :: _, [] => none
  | place :: places, c :: text =>
      if place.contains c then
        (matchSpelling? places text).map fun (name, rest) => (c :: name, rest)
      else none

/-- The text starts with a letter of a word. -/
def startsWithLetter : List Char → Bool
  | [] => false
  | c :: _ => isWordLetter c

/-- The text is the arguments of a call. -/
def startsCall (text : List Char) : Bool :=
  match stripStart text with
  | '(' :: _ => true
  | _ => false

/-- The text starts with the digits of an exponent, with or without a sign. -/
def startsExponent : List Char → Bool
  | '+' :: c :: _ => isDecimalDigit c
  | '-' :: c :: _ => isDecimalDigit c
  | c :: _ => isDecimalDigit c
  | [] => false

/-- A name between two characters of the text is the mark of an exponent. -/
def isExponentMark (before : Option Char) (name rest : List Char) : Bool :=
  (name == ['e'] || name == ['E']) && startsExponent rest &&
    match before with
    | some c => c.isDigit || c == '.'
    | none => false

/-- How a name is looked for in a text. -/
structure Pattern where
  spelling : Spelling
  /-- The name is left alone where it is called. -/
  skipsCalls : Bool

/-- The name at the start of a text that stands on its own, and what follows it. -/
def Pattern.find? (pattern : Pattern) (before : Option Char) (text : List Char) :
    Option (List Char × List Char) :=
  if before.any isWordLetter then none
  else
    match matchSpelling? pattern.spelling text with
    | some (name, rest) =>
        if startsWithLetter rest || (pattern.skipsCalls && startsCall rest) then none
        else some (name, rest)
    | none => none

/-- Writes a text in place of a name, from left to right. The next `skip` characters belong to a
name that has been dealt with. -/
def replaceFrom (pattern : Pattern) (insert : List Char) :
    Nat → Option Char → List Char → List Char
  | _, _, [] => []
  | skip + 1, _, c :: text => replaceFrom pattern insert skip (some c) text
  | 0, before, c :: text =>
      match pattern.find? before (c :: text) with
      | some (name, rest) =>
          (if isExponentMark before name rest then name else insert) ++
            replaceFrom pattern insert (name.length - 1) (some c) text
      | none => c :: replaceFrom pattern insert 0 (some c) text

/-- Writes a text in place of a name wherever it stands on its own. -/
def replace (pattern : Pattern) (insert text : List Char) : List Char :=
  replaceFrom pattern insert 0 none text

/-- A number between parentheses. -/
def enclosed (value : Float) : List Char :=
  '(' :: (Decimal.shortest value).toList ++ [')']

/-- How a constant is looked for. -/
def constantPattern (name : String) : Pattern :=
  ⟨name.toList.map anyCase, (NamedFunction.ofName? name).isSome⟩

/-- The constants as they are looked for, each with what is written in its place. -/
def constantRules : List (Pattern × List Char) :=
  constants.map fun (name, value) => (constantPattern name, enclosed value)

/-- Writes the constants into a text, one after the other. -/
def writeConstants (text : List Char) : List Char :=
  constantRules.foldl (fun text (pattern, insert) => replace pattern insert text) text

/-- Writes one variable into a text. A value without a double does no harm where the variable does
not occur. -/
def writeVariable (text : List Char) (name : String) (value : BoundValue) :
    Except Failure (List Char) :=
  let pattern : Pattern := ⟨exactly name.toList, false⟩
  match value.toDouble with
  | .ok x => .ok (replace pattern (enclosed x) text)
  | .error failure =>
      if replace pattern ['(', ')'] text == text then .ok text else .error failure

/-- Writes variables into a text, in order. -/
def writeVariables : List Char → Variables → Except Failure (List Char)
  | text, [] => .ok text
  | text, (name, value) :: rest => do
      let text ← writeVariable text name value
      writeVariables text rest

/-- Writes the constants and the checked bindings into a text. -/
def substitute (text : List Char) (bindings : Bindings) : Except Failure (List Char) := do
  bindings.check
  writeVariables (writeConstants text) bindings.texts

end Reckoner.Substitution
