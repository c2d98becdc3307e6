import Reckoner.CommandLine.Session

/-!
# The program

The command line of the calculator. Settings are kept in a file of the working directory. There is
no clipboard: an expression from there is empty, and copies are dropped.
-/

namespace Reckoner.CommandLine

/-- The place of the settings file. -/
def settingsPath : String := "config.json"

/-- What stands in the place of the settings file. -/
def readSettingsFile : IO SettingsFile := do
  try
    return .text (← IO.FS.readFile settingsPath)
  catch _ =>
    return .absent

/-- Prints what a part of a session prints, and gives the value it ends with. -/
def emit {α : Type} (reply : Reply α) : IO α := do
  let out ← IO.getStdout
  out.putStr reply.printed
  out.flush
  match reply.outcome with
  | .ok value => return value
  | .error _ => throw (IO.userError "a setting has an unusable value")

/-- Answers the lines of the input one by one. -/
partial def converse (context : Context) (bindings : Bindings) : IO Unit := do
  emit (Reply.write prompt)
  let line ← (← IO.getStdin).getLine
  if line.isEmpty then return ()
  match ← emit (answer context bindings line) with
  | none => return ()
  | some bindings => converse context bindings

/-- Runs a session in the surroundings of the process; the exit code. -/
def runHere (arguments : Arguments) : IO Nat := do
  let file ← readSettingsFile
  match arguments.storeSettings file with
  | .error failure => emit (Reply.ofExcept (.error failure))
  | .ok stored =>
      if !arguments.newSettings.isEmpty then
        match stored with
        | .text content => IO.FS.writeFile settingsPath content
        | _ => pure ()
      let settings ← emit (Reply.ofExcept (Settings.load stored))
      match arguments.task "" with
      | .converse =>
          emit (Reply.write greeting)
          converse (arguments.context settings) arguments.bindings
          return 0
      | _ => emit (arguments.perform settings "" [])

end Reckoner.CommandLine

/-- Reads the command line and runs a session. -/
def main (arguments : List String) : IO UInt32 := do
  match Reckoner.CommandLine.Arguments.parse arguments with
  | .error fault =>
      (← IO.getStderr).putStrLn ("error: " ++ fault.message)
      return 2
  | .ok arguments => return (← Reckoner.CommandLine.runHere arguments).toUInt32
