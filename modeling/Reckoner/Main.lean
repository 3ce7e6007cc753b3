import Reckoner.Command.Run

/-!
# The program

Reads the data file, prints what the run prints, saves what it saves, and writes the log and the failure
that ends a run to the error stream.
-/

namespace Reckoner

/-- The text of a file, if it exists. -/
def textOfFile (path : String) : IO (Option String) := do
  try
    return some (← IO.FS.readFile path)
  catch _ => return none

/-- Writes the log, the output and the saved text of a run. -/
def finish (run : Logged Completion) : IO UInt32 := do
  for e in run.log do
    IO.eprintln (e.severity.name ++ " - " ++ e.message)
  match run.outcome with
  | .error f =>
    IO.eprintln f.message
    return 1
  | .ok c =>
    IO.print c.output
    if let some (path, text) := c.saved then IO.FS.writeFile path text
    return UInt32.ofNat c.exit

/-- How the program is called. -/
def usage : String :=
  "usage: reckoner [-h] [--var NAME=VALUE] [--data_path FILE] [--output_path FILE] [--result_column NAME]\n" ++
  "                [--max_depth N] [--log_level LEVEL] expression"

end Reckoner

open Reckoner in
/-- The command line. -/
def main (words : List String) : IO UInt32 := do
  match Invocation.ofTexts {} words with
  | .help =>
    IO.println usage
    return 0
  | .misuse =>
    IO.eprintln usage
    return 2
  | .run a =>
    let contents ← if a.dataPath.isEmpty then pure none else textOfFile a.dataPath
    finish (a.run {} contents)
