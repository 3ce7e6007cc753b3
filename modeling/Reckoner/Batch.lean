import Reckoner.Calculator.Basic
import Reckoner.Log
import Reckoner.Table.Basic

/-!
# Evaluating an expression for every row

A batch evaluates one expression for each row of a table, with the row as the values given with the
expression, and puts the results into a column. A row whose expression fails, be it by itself, in arithmetic
or by the kind of an operand, has the NaN as its result and an entry in the log; other failures end the batch.
Memory is taken as unbounded, as in `Value.repetitions`: no row fails, and no batch ends, for want of it.
-/

namespace Reckoner

/-- The failure is one of a row, which leaves the other rows alone. -/
def Failure.isOfRow (f : Failure) : Bool := f.isExpression || f.isArithmetic || f.kind == .type

namespace Batch

/-- The result of a row, and whether there is none. -/
structure RowResult where
  value : Value
  failed : Bool

/-- The text in front of the failure of a row. -/
def headline (expression name : String) : String :=
  "Row " ++ name ++ ": failed to evaluate '" ++
    String.ofList (expression.toList.take 50) ++ "': "

/-- The result of one row of a name. -/
def evaluateRow (c : Calculator) (expression name : String) (row : Row) : Logged RowResult :=
  match (c.evaluate expression row).outcome with
  | .ok v => pure ⟨v, false⟩
  | .error f => do
    if f.isOfRow then
      Logged.error (headline expression name) f
      pure ⟨.gap, true⟩
    else Logged.fail f

/-- The results of rows, each behind its name. -/
def evaluateRows (c : Calculator) (expression : String) : List (String × Row) → Logged (List RowResult)
  | [] => pure []
  | (name, row) :: rest => do
    let result ← evaluateRow c expression name row
    let results ← evaluateRows c expression rest
    pure (result :: results)

/-- Every row has one result. -/
theorem length_evaluateRows {c : Calculator} {expression : String} {rows : List (String × Row)}
    {results : List RowResult} (h : (evaluateRows c expression rows).outcome = .ok results) :
    results.length = rows.length := by
  induction rows generalizing results with
  | nil =>
    cases h
    rfl
  | cons row rest ih =>
    simp only [evaluateRows, Logged.outcome_bind] at h
    cases hr : (evaluateRow c expression row.1 row.2).outcome with
    | error f => simp [hr, Except.bind] at h
    | ok r =>
      cases hs : (evaluateRows c expression rest).outcome with
      | error f => simp [hr, hs, Except.bind] at h
      | ok rs =>
        simp only [hr, hs, Except.bind, Logged.outcome_pure, Except.ok.injEq] at h
        simp [← h, ih hs]

/-- The entry that sums up a batch. -/
def summary (rows failures : Nat) : LogEntry :=
  { severity := .info
    text := "Evaluated " ++ Notation.integer rows ++ " rows, " ++ Notation.integer failures ++ " failed" }

/-- The table with the column of the results, under the configured name if none is given. -/
def evaluate (c : Calculator) (expression : String) (table : Table) (name : String) : Logged Table :=
  let name := if name.isEmpty then c.settings.resultColumn else name
  let run := evaluateRows c expression (table.rowNames.zip table.rows)
  match hr : run.outcome with
  | .error f => ⟨run.log, .error f⟩
  | .ok results =>
    match hs : Column.settle (results.map (·.value)) with
    | .error f => ⟨run.log, .error f⟩
    | .ok cells =>
      ⟨run.log ++ [summary table.height (results.filter (·.failed)).length],
        .ok (table.put ⟨name, cells⟩ (by simp [Column.length_settle hs, length_evaluateRows hr]))⟩

end Batch
end Reckoner
