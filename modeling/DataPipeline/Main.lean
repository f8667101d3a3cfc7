import DataPipeline.CommandLine
import DataPipeline.Text.Quoted

/-!
# The program

Reads the settings file that the command line names, runs the command and
prints what is logged and what the command returns; messages show the path of
the file in quotes. Failures go to the standard error stream: exit code 2 for a
wrong usage, 1 for everything else. Log lines have no times here, and the
environment does not change which events are logged.
-/

open DataPipeline DataPipeline.CommandLine

/-- The contents of a file as a text, if it can be read. Bytes that are not
UTF-8 give the empty text, which is no JSON either. A file with such bytes is
therefore refused as a whole, also where they stand in a value that is skipped. -/
def readText (path : Text) : IO (Option Text) := do
  try
    let bytes ← IO.FS.readBinFile (String.ofList path)
    return some ((String.fromUTF8? bytes).getD "").toList
  catch _ => return none

/-- Runs the program on its arguments. -/
def main (arguments : List String) : IO UInt32 := do
  match Arguments.read? (arguments.map String.toList) with
  | none =>
    IO.eprintln usage
    return 2
  | some line =>
    let settings ← match line.settingsPath with
      | none => pure (.ok {})
      | some path => pure (Settings.load (String.ofList (Text.quote path)) (← readText path))
    let logger := Logger.standard fun _ => []
    IO.print (String.ofList (line.command.written logger settings))
    match line.command.run settings with
    | .ok _ => return 0
    | .error message =>
      IO.eprintln ("Error: " ++ message)
      return 1
