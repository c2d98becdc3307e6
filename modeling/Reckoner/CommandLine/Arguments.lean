import Reckoner.CommandLine.Assignment

/-!
# Arguments of the command line

The command line is a list of texts. An option starts with a minus and is followed by the values it
takes; a single other text is the expression. A text with a blank in it and a negative number are
no options, although they start with a minus, and nothing is after a double minus. A long option
may be cut short where it stays unambiguous, and its value may be written behind a sign of
equality.
-/

namespace Reckoner.CommandLine

open Reckoner.Text

/-- The options. -/
inductive OptionName where
  | help
  | var
  | paste
  | copy
  | graph
  | range
  | samples
  | set
deriving DecidableEq

namespace OptionName

/-- The long name of an option. -/
def long : OptionName → String
  | help => "--help"
  | var => "--var"
  | paste => "--paste"
  | copy => "--copy"
  | graph => "--graph"
  | range => "--range"
  | samples => "--samples"
  | set => "--set"

/-- An option as messages show it. -/
def shown : OptionName → String
  | help => "-h/--help"
  | option => option.long

/-- All names of options, in the order of their declaration. -/
def names : List (String × OptionName) :=
  [("-h", help), ("--help", help), ("--var", var), ("--paste", paste), ("--copy", copy),
    ("--graph", graph), ("--range", range), ("--samples", samples), ("--set", set)]

/-- The number of values that an option takes. -/
def arity : OptionName → Nat
  | var | samples | set => 1
  | range => 2
  | help | paste | copy | graph => 0

end OptionName

/-- What is wrong with a command line. -/
inductive UsageError where
  | ambiguous (option : String) (candidates : List String)
  | missingValue (option : OptionName)
  | superfluousValue (option : OptionName) (value : String)
  | invalidValue (option : OptionName) (typeName value : String)
  | rejectedValue (option : OptionName) (reason : String)
  | unrecognized (arguments : List String)

namespace UsageError

/-- A message about an option. -/
def about (option : OptionName) (text : String) : String :=
  "argument " ++ option.shown ++ ": " ++ text

/-- The message of a usage error. -/
def message : UsageError → String
  | ambiguous option candidates =>
      "ambiguous option: " ++ option ++ " could match " ++ join ", " candidates
  | missingValue option =>
      about option <|
        if option.arity = 1 then "expected one argument"
        else "expected " ++ toString option.arity ++ " arguments"
  | superfluousValue option value =>
      about option ("ignored explicit argument " ++ quoted value.toList)
  | invalidValue option typeName value =>
      about option ("invalid " ++ typeName ++ " value: " ++ quoted value.toList)
  | rejectedValue option reason => about option reason
  | unrecognized arguments => "unrecognized arguments: " ++ join " " arguments

end UsageError

/-- What a text of the command line is, before it is known which texts are values of options. -/
inductive Piece where
  | plain (text : String)
  | option (name : OptionName) (value : Option String)
  | unknownOption (text : String)
  /-- The double minus after which there are no options. -/
  | separator

namespace Piece

/-- The text of a piece that no option takes. -/
def text : Piece → String
  | plain text => text
  | option name _ => name.long
  | unknownOption text => text
  | separator => "--"

/-- The piece is an option, known or not. -/
def isOption : Piece → Bool
  | option .. | unknownOption _ => true
  | _ => false

/-- What is left of a text after the one-letter option that it starts with: more such options, or a
value that the option does not take. -/
def flagRest? : List Char → Option String
  | '-' :: rest => some (String.ofList ('-' :: rest))
  | _ => none

/-- The options that a text can stand for: by its part before a sign of equality if it starts with
two minus signs, else by its first letter. -/
def candidates (text : List Char) : List (String × OptionName × Option String) :=
  match text with
  | '-' :: '-' :: _ =>
      let (head, value) := match cutAt? '=' text with
        | some (head, value) => (head, some (String.ofList value))
        | none => (text, none)
      OptionName.names.filterMap fun (written, name) =>
        if (after? head written.toList).isSome then some (written, name, value) else none
  | _ =>
      OptionName.names.filterMap fun (written, name) =>
        if written.toList = text.take 2 then some (written, name, flagRest? (text.drop 2))
        else none

/-- The text is a negative number. -/
def isNegativeNumber (text : List Char) : Bool :=
  match text with
  | '-' :: digits =>
      let digits := if digits.getLast? = some '\n' then digits.dropLast else digits
      match digits.dropWhile isDecimalDigit with
      | [] => !digits.isEmpty
      | '.' :: fraction => !fraction.isEmpty && fraction.all isDecimalDigit
      | _ => false
  | _ => false

/-- The option with a name, and the value behind a sign of equality. -/
def withValue? (text : List Char) : Option Piece := do
  let (head, value) ← cutAt? '=' text
  let (_, name) ← OptionName.names.find? fun (written, _) => written.toList = head
  return option name (some (String.ofList value))

/-- The option that a text starting with a minus is, if it is one. -/
def ofDashed (text : List Char) : Except UsageError Piece :=
  let source := String.ofList text
  match OptionName.names.find? fun (written, _) => written.toList = text with
  | some (_, name) => .ok (option name none)
  | none =>
      if text.length = 1 then .ok (plain source)
      else
        match withValue? text with
        | some piece => .ok piece
        | none =>
            match candidates text with
            | [(_, name, value)] => .ok (option name value)
            | [] =>
                if isNegativeNumber text || text.contains ' ' then .ok (plain source)
                else .ok (unknownOption source)
            | several => .error (.ambiguous source (several.map Prod.fst))

/-- The pieces of a command line. -/
def ofArguments : List String → Except UsageError (List Piece)
  | [] => .ok []
  | argument :: rest =>
      if argument = "--" then .ok (separator :: rest.map plain)
      else do
        let piece ← match argument.toList with
          | '-' :: text => ofDashed ('-' :: text)
          | _ => .ok (plain argument)
        let pieces ← ofArguments rest
        return piece :: pieces

end Piece

/-- What a command line asks for. -/
structure Arguments where
  expression : Option String := none
  assignments : List (String × Float) := []
  paste : Bool := false
  copy : Bool := false
  graph : Bool := false
  range : Option (Float × Float) := none
  samples : Option Int := none
  newSettings : List (String × Json) := []
  help : Bool := false

/-- A command line in the middle of being read: what it asks for so far, whether a text has been
taken as the expression, and the texts that nothing takes. -/
structure Progress where
  arguments : Arguments
  taken : Bool
  extras : List String

namespace Progress

/-- The value of an option, or what is wrong with it. -/
def accept {α : Type} (option : OptionName) (typeName value : String) :
    Except ValueFault α → Except UsageError α
  | .ok result => .ok result
  | .error (.because reason) => .error (.rejectedValue option reason)
  | .error .notOfType => .error (.invalidValue option typeName value)

/-- The value of an option as a decimal. -/
def acceptFloat (option : OptionName) (value : String) : Except UsageError Float :=
  match Decimal.readFloat? value.toList with
  | some x => .ok x
  | none => .error (.invalidValue option "float" value)

/-- Follows an option with the values that it takes. -/
def follow (arguments : Arguments) (option : OptionName) :
    List String → Except UsageError Arguments
  | [] =>
      match option with
      | .help => .ok { arguments with help := true }
      | .paste => .ok { arguments with paste := true }
      | .copy => .ok { arguments with copy := true }
      | .graph => .ok { arguments with graph := true }
      | option => .error (.missingValue option)
  | [value] =>
      match option with
      | .var => do
          let binding ← accept option "parse_binding" value (readBinding value)
          return { arguments with assignments := arguments.assignments ++ [binding] }
      | .set => do
          let setting ← accept option "parse_setting" value (readSetting value)
          return { arguments with newSettings := arguments.newSettings ++ [setting] }
      | .samples =>
          match Decimal.readInteger? value.toList with
          | some n => .ok { arguments with samples := some n }
          | none => .error (.invalidValue option "int" value)
      | option => .error (.missingValue option)
  | [low, high] =>
      match option with
      | .range => do
          let low ← acceptFloat option low
          let high ← acceptFloat option high
          return { arguments with range := some (low, high) }
      | option => .error (.missingValue option)
  | _ => .error (.missingValue option)

/-- The values at the start of the pieces that follow an option. -/
def takeValues : Nat → List Piece → Option (List String × List Piece)
  | 0, pieces => some ([], pieces)
  | count + 1, .plain text :: pieces =>
      (takeValues count pieces).map fun (values, rest) => (text :: values, rest)
  | _ + 1, _ => none

/-- Takes a text as the expression, or sets it aside if there is one already. -/
def takePlain (progress : Progress) (text : String) : Progress :=
  if progress.taken then { progress with extras := progress.extras ++ [text] }
  else
    { progress with
      arguments := { progress.arguments with expression := some text }
      taken := true }

/-- The pieces after the last option: the first text is the expression if there is none yet, and a
separator right before or behind it is dropped. -/
def finish (progress : Progress) (pieces : List Piece) : Progress :=
  let aside (progress : Progress) (pieces : List Piece) : Progress :=
    { progress with extras := progress.extras ++ pieces.map Piece.text }
  if progress.taken then aside progress pieces
  else
    match pieces with
    | .separator :: .plain text :: rest => aside (progress.takePlain text) rest
    | [.separator] => progress
    | .plain text :: .separator :: rest => aside (progress.takePlain text) rest
    | .plain text :: rest => aside (progress.takePlain text) rest
    | pieces => aside progress pieces

/-- Reads pieces from left to right. The fuel bounds their number. -/
def read : Nat → Progress → List Piece → Except UsageError Progress
  | 0, progress, _ => .ok progress
  | fuel + 1, progress, pieces =>
      if !pieces.any Piece.isOption then .ok (progress.finish pieces)
      else
        match pieces with
        | .option option (some value) :: rest =>
            if option.arity = 1 then do
              let arguments ← follow progress.arguments option [value]
              read fuel { progress with arguments } rest
            else if option.arity = 0 then .error (.superfluousValue option value)
            else .error (.missingValue option)
        | .option option none :: rest =>
            match takeValues option.arity rest with
            | some (values, rest) => do
                let arguments ← follow progress.arguments option values
                if arguments.help then .ok { progress with arguments }
                else read fuel { progress with arguments } rest
            | none => .error (.missingValue option)
        | piece :: rest =>
            if piece.isOption then
              read fuel { progress with extras := progress.extras ++ [piece.text] } rest
            else read fuel (progress.takePlain piece.text) rest
        | [] => .ok progress

end Progress

namespace Arguments

/-- What a command line asks for, or what is wrong with it. -/
def parse (arguments : List String) : Except UsageError Arguments := do
  let pieces ← Piece.ofArguments arguments
  let progress ← Progress.read (pieces.length + 1) ⟨{}, false, []⟩ pieces
  if progress.arguments.help || progress.extras.isEmpty then return progress.arguments
  else .error (.unrecognized progress.extras)

end Arguments

end Reckoner.CommandLine
