import Reckoner.CommandLine.Arguments
import Reckoner.Display
import Reckoner.Sampling

/-!
# Sessions

A session evaluates one expression, samples a function, stores settings, or reads expressions line
by line until it is told to stop. It is a function of its surroundings: the settings file, the
clipboard and the lines of input. What it prints and copies is collected, and a failure that is no
refusal breaks it off.

In a dialogue, a line `let NAME = EXPRESSION` binds a variable to the number that the expression
evaluates to. A refused line leaves all bindings as they were.
-/

namespace Reckoner.CommandLine

/-- What a part of a session printed and copied, and how it ended. -/
structure Reply (α : Type) where
  printed : String
  copied : List String
  outcome : Except Failure α

namespace Reply

variable {α β : Type}

/-- A part that prints nothing and ends with a value. -/
def done (value : α) : Reply α := ⟨"", [], .ok value⟩

/-- Goes on with the value of the first part. -/
def bind (first : Reply α) (next : α → Reply β) : Reply β :=
  match first.outcome with
  | .error failure => ⟨first.printed, first.copied, .error failure⟩
  | .ok value =>
      let second := next value
      ⟨first.printed ++ second.printed, first.copied ++ second.copied, second.outcome⟩

instance : Monad Reply where
  pure := done
  bind := bind

/-- Prints a text as it is. -/
def write (text : String) : Reply Unit := ⟨text, [], .ok ()⟩

/-- Prints lines. -/
def print (lines : List String) : Reply Unit :=
  write (String.join (lines.map fun line => line ++ "\n"))

/-- Copies a text to the clipboard. -/
def copy (text : String) : Reply Unit := ⟨"", [text], .ok ()⟩

/-- A result that may be a failure. -/
def ofExcept (outcome : Except Failure α) : Reply α := ⟨"", [], outcome⟩

/-- Prints the lines of a report and ends with its outcome, a refusal with its cause and the input
that it notes. -/
def ofReport (report : Report α) : Reply (Except (Cause × Option String) α) := do
  print report.lines
  match report.outcome with
  | .ok value => return .ok value
  | .error (.refused cause input) => return .error (cause, input)
  | .error failure => ofExcept (.error failure)

end Reply

/-- What stays the same during a session. -/
structure Context where
  settings : Settings
  copyResult : Bool

/-- The lines that report a refusal; with diagnostics also its area, its code and the input. -/
def refusalLines (settings : Settings) (cause : Cause) (input : Option String) : List String :=
  ("Error: " ++ cause.message) ::
    if settings.debug then [cause.area ++ " " ++ cause.code ++ ": " ++ input.getD "None"] else []

/-- Evaluates an expression and shows its steps and its value. The exit code tells whether it was
refused. -/
def showResult (context : Context) (expression : String) (bindings : Bindings) : Reply Nat := do
  match ← Reply.ofReport (Evaluation.evaluate expression bindings context.settings) with
  | .error (cause, input) =>
      Reply.print (refusalLines context.settings cause input)
      return 1
  | .ok (value, steps) =>
      Reply.print (if context.settings.showSteps then steps.map ("  " ++ ·) else [])
      let text ← Reply.ofExcept (Display.value context.settings value)
      Reply.print [text]
      if context.copyResult then Reply.copy text
      return 0

/-- The line of a point. -/
def pointLine (x y : Float) : String :=
  Decimal.significant 6 x ++ ", " ++ Decimal.significant 6 y

/-- Prints the points of a function. -/
def showGraph (settings : Settings) (function : String) (bindings : Bindings)
    (request : Sampling.Request) : Reply Nat :=
  match Sampling.series function bindings settings request with
  | .error (.refused cause _) => do
      Reply.print ["Error: " ++ cause.message]
      return 1
  | .error failure => Reply.ofExcept (.error failure)
  | .ok series => do
      let samples ← Reply.ofExcept series.samples
      let report := Report.sequence <| samples.map fun sample => do
        Report.say true ((← sample).map fun (x, y) => pointLine x y).toList
      Reply.print report.lines
      let _ ← Reply.ofExcept report.outcome
      return 0

/-- The number that a variable is to be bound to, or the cause that speaks against the binding. -/
def numberFor (name : String) (value : Value) : Except Cause Float :=
  match value with
  | .number x =>
      match Bindings.fault? name (.double x) with
      | none => .ok x
      | some cause => .error cause
  | _ => .error (.notNumber name)

/-- Binds a variable to the value of an expression; the bindings afterwards. -/
def letVariable (context : Context) (bindings : Bindings) (name expression : String) :
    Reply Bindings := do
  let answer ← Reply.ofReport (Evaluation.evaluate expression bindings context.settings)
  let number : Except Cause Float := match answer with
    | .error (cause, _) => .error cause
    | .ok (value, _) => numberFor name value
  match number with
  | .error cause =>
      Reply.print ["Error: " ++ cause.message]
      return bindings
  | .ok x =>
      let text ← Reply.ofExcept (Display.value context.settings (.number x))
      Reply.print [name ++ " = " ++ text]
      return bindings.put name (.double x)

/-- What a line of a dialogue asks for. -/
inductive Line where
  | stop
  | blank
  | assign (name expression : String)
  | expression (text : String)

/-- Reads a line of a dialogue. -/
def Line.read (line : String) : Line :=
  let text := Text.strip line.toList
  if text == "quit".toList || text == "exit".toList then stop
  else if text.isEmpty then blank
  else
    match (Text.after? "let ".toList text).bind (Text.cutAt? '=') with
    | some (name, value) =>
        assign (String.ofList (Text.strip name)) (String.ofList (Text.strip value))
    | none => expression (String.ofList text)

/-- Answers a line of a dialogue: the bindings afterwards, or nothing to stop. -/
def answer (context : Context) (bindings : Bindings) (line : String) :
    Reply (Option Bindings) :=
  match Line.read line with
  | .stop => return none
  | .blank => return some bindings
  | .assign name value => return some (← letVariable context bindings name value)
  | .expression text => do
      let _ ← showResult context text bindings
      return some bindings

/-- The text that opens a dialogue. -/
def greeting : String := "Enter the problem ('quit' to leave): \n"

/-- The text before every line of input. -/
def prompt : String := "> "

/-- Answers lines until one of them stops the dialogue or there are no more. -/
def dialogue (context : Context) (bindings : Bindings) : List String → Reply Unit
  | [] => Reply.write prompt
  | line :: rest => do
      Reply.write prompt
      match ← answer context bindings line with
      | none => return ()
      | some bindings => dialogue context bindings rest

/-- What surrounds a session. -/
structure Surroundings where
  file : SettingsFile
  clipboard : String
  input : List String

/-- What a session asks for once its settings are known. -/
inductive Task where
  | nothing
  | evaluate (expression : String)
  | graph (function : String)
  | converse

namespace Arguments

/-- The settings file after the new settings have been stored. -/
def storeSettings (arguments : Arguments) (file : SettingsFile) :
    Except Failure SettingsFile := do
  if arguments.newSettings.isEmpty then return file
  else
    let settings ← Settings.load file
    return (Settings.save (settings.overlay (Entries.ofPairs arguments.newSettings)) file).2

/-- What is asked for, with the text of the clipboard. -/
def task (arguments : Arguments) (clipboard : String) : Task :=
  let expression? :=
    if arguments.paste then some (String.ofList (Text.strip clipboard.toList))
    else arguments.expression
  match expression? with
  | none => if arguments.newSettings.isEmpty then .converse else .nothing
  | some expression => if arguments.graph then .graph expression else .evaluate expression

/-- The bindings of the variables. -/
def bindings (arguments : Arguments) : Bindings :=
  Entries.ofPairs (arguments.assignments.map fun (name, x) => (name, .double x))

/-- What is asked for of the samples of a function. -/
def request (arguments : Arguments) : Sampling.Request where
  low := arguments.range.map fun (low, _) => .double low
  high := arguments.range.map fun (_, high) => .double high
  samples := arguments.samples.map .integer

/-- The context of a session with the given settings. -/
def context (arguments : Arguments) (settings : Settings) : Context :=
  ⟨settings, arguments.copy || settings.copyResult⟩

/-- Does what is asked for with the given settings; the exit code. -/
def perform (arguments : Arguments) (settings : Settings) (clipboard : String)
    (input : List String) : Reply Nat :=
  let context := arguments.context settings
  match arguments.task clipboard with
  | .nothing => return 0
  | .evaluate expression => showResult context expression arguments.bindings
  | .graph function => showGraph settings function arguments.bindings arguments.request
  | .converse => do
      Reply.write greeting
      dialogue context arguments.bindings input
      return 0

end Arguments

/-- How a session ended, and what it left behind. -/
structure Session where
  reply : Reply Nat
  file : SettingsFile

/-- Runs a session. New settings are stored before anything else is done. -/
def run (arguments : Arguments) (surroundings : Surroundings) : Session :=
  if arguments.help then ⟨Reply.done 0, surroundings.file⟩
  else
    match arguments.storeSettings surroundings.file with
    | .error failure => ⟨Reply.ofExcept (.error failure), surroundings.file⟩
    | .ok file =>
        match Settings.load file with
        | .error failure => ⟨Reply.ofExcept (.error failure), file⟩
        | .ok settings =>
            ⟨arguments.perform settings surroundings.clipboard surroundings.input, file⟩

end Reckoner.CommandLine
