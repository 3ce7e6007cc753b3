import Reckoner.Batch
import Reckoner.Calculator.Reading
import Reckoner.Calculator.Store
import Reckoner.Command.Arguments
import Reckoner.Table.Csv
import Reckoner.Table.Layout

/-!
# Running the command line

The arguments ask for the value of one expression, or of one for every row of a table. Either run has an exit
code, a log, and what it prints or saves. A failure of the expression is logged and gives a code; other
failures end the run.
-/

namespace Reckoner

/-- What a run leaves behind. -/
structure Completion where
  exit : Nat
  /-- The printed text. -/
  output : String := ""
  /-- The name of a file and the text that is saved in it. -/
  saved : Option (String × String) := none

namespace Arguments

/-- The least severity that the log shows, which is the lowest for a name that is none. The name is looked up where
    the levels are kept, and there are two other things: the format of an entry, a text that is no level, and the
    table of styles, which is not even a text. -/
def threshold (a : Arguments) : Outcome Severity :=
  match Text.upper a.logLevel with
  | "BASIC_FORMAT" => .error .invalidArgument
  | "_STYLES" => .error .typeMismatch
  | name => .ok ((Severity.ofName? name).getD .info)

/-- A call that stores bindings. -/
def storeCall (b : Bindings) : Calculator.StoreCall where
  named := b.filterMap fun
    | (.text name, value) => some (name, value)
    | _ => none

/-- The run that prints the value of an expression. -/
def runSingle (c : Calculator) (expression : String) : Logged Completion :=
  match (c.evaluate expression []).outcome with
  | .ok v =>
    if v.isWritable then pure { exit := 0, output := v.display ++ "\n" } else Logged.fail .longInteger
  | .error f =>
    if f.isExpression || f.isArithmetic then do
      Logged.error ("Failed to evaluate '" ++ expression ++ "': ") f
      pure { exit := 1 }
    else Logged.fail f

/-- The table of a data file, of which the text is given if it exists. -/
def load (path : String) (contents : Option String) : Outcome Table :=
  match contents with
  | some text => Table.ofCsv text
  | none => .error (.missingFile path)

/-- The run that evaluates the expression for every row of a table. -/
def runBatch (a : Arguments) (c : Calculator) (contents : Option String) : Logged Completion := do
  Logged.info ("Loading data from " ++ a.dataPath)
  let table ← Logged.ofOutcome (load a.dataPath contents)
  Logged.info ("Data shape: (" ++ Notation.integer table.height ++ ", " ++
    Notation.integer table.columns.length ++ ")")
  let results ← Batch.evaluate c a.expression table a.resultColumn
  if a.outputPath.isEmpty then
    let text ← Logged.ofOutcome (Layout.ofTable results)
    pure { exit := 0, output := text ++ "\n" }
  else
    Logged.info ("Saving results to " ++ a.outputPath)
    let text ← Logged.ofOutcome results.toCsv
    pure { exit := 0, saved := some (a.outputPath, text) }

/-- The run behind the choice of a threshold, with all entries of its log. -/
def work (settings : Settings) (a : Arguments) (contents : Option String) : Logged Completion :=
  match Bindings.ofTexts a.bindings with
  | .error f => do
    Logged.error "" f
    pure { exit := 2 }
  | .ok b =>
    let (c, stored) := (Calculator.make settings {} (some a.limit) none).store (storeCall b)
    match stored with
    | .error f => Logged.fail f
    | .ok _ => if a.dataPath.isEmpty then runSingle c a.expression else a.runBatch c contents

/-- The run that the arguments ask for. The text of the data file is given, if there is such a file. -/
def run (settings : Settings) (a : Arguments) (contents : Option String) : Logged Completion :=
  match a.threshold with
  | .error f => .fail f
  | .ok level => (a.work settings contents).above level

end Arguments
end Reckoner
