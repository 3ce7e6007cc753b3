import Mathlib.Data.List.Forall2
import Reckoner.Proofs.FailureKinds

/-!
# Batches

A batch whose rows fail only by failures of rows gives a column with one cell for each row: the value, or the NaN if the
row fails (`Batch.evaluate_isolated`). But a value that has no result ends the whole batch at its row, which the other
rows' results are lost with (`Batch.evaluate_rows`).
-/

namespace Reckoner

/-! ### Outcomes -/

namespace Outcome
variable {α : Type} {p : Failure → Bool} {k : Int}

/-- The outcome is a failure that passes a test. -/
def fails (p : Failure → Bool) : Outcome α → Bool
  | .ok _ => false
  | .error f => p f

theorem exists_of_fails {o : Outcome α} (h : o.fails p = true) : ∃ f, o = .error f ∧ p f = true := by
  cases o with
  | ok a => cases h
  | error f => exact ⟨f, rfl, h⟩

end Outcome

/-! ### Columns of results -/

namespace Column
variable {cells settled : List Value} {f : Failure}

end Column

/-! ### Rows -/

namespace Batch
variable {c : Calculator} {expression : String} {rows before behind : List (String × Row)} {r : String × Row}
  {f : Failure}

/-- What stands for an outcome in the column of results: its value, or the NaN. -/
def cell : Outcome Value → Value
  | .ok v => v
  | .error _ => .gap

/-- The entries of the log for the rows that fail, from top to bottom. -/
def entries (c : Calculator) (expression : String) (rows : List (String × Row)) : List LogEntry :=
  rows.filterMap fun r =>
    match (c.evaluate expression r.2).outcome with
    | .ok _ => none
    | .error f => some ⟨.error, headline expression r.1, some f⟩

/-- The rows fail only by failures of rows. -/
def AreIsolated (c : Calculator) (expression : String) (rows : List Row) : Prop :=
  ∀ row ∈ rows, ∀ f, (c.evaluate expression row).outcome = .error f → f.isOfRow = true

/-- What a batch has of a row that fails, if at all, by a failure of a row. -/
def rowResult (o : Outcome Value) : RowResult := ⟨cell o, !o.isOk⟩

theorem evaluateRow_isolated (h : ∀ f, (c.evaluate expression r.2).outcome = .error f → f.isOfRow = true) :
    evaluateRow c expression r.1 r.2 =
      ⟨entries c expression [r], .ok (rowResult (c.evaluate expression r.2).outcome)⟩ := by
  unfold evaluateRow entries
  cases ho : (c.evaluate expression r.2).outcome with
  | ok v => simp only [List.filterMap_cons, ho]; rfl
  | error f =>
    simp only [List.filterMap_cons, ho, h f ho, if_true]
    rfl

/-- Isolated rows stand with their entries and results in front of the other rows. -/
theorem evaluateRows_append (rest : List (String × Row)) : ∀ {rows : List (String × Row)},
    AreIsolated c expression (rows.map (·.2)) → evaluateRows c expression (rows ++ rest) =
      ⟨entries c expression rows ++ (evaluateRows c expression rest).log, (evaluateRows c expression rest).outcome.map
        ((rows.map fun r => rowResult (c.evaluate expression r.2).outcome) ++ ·)⟩
  | [], _ => by
    cases h : evaluateRows c expression rest with
    | mk log outcome => cases outcome <;> simp [h, entries, Except.map]
  | r :: rows, h => by
    obtain ⟨hrow, hrows⟩ := List.forall_mem_cons.mp h
    have hentries : entries c expression (r :: rows) = entries c expression [r] ++ entries c expression rows :=
      List.filterMap_append (l := [r])
    rw [List.cons_append, evaluateRows, evaluateRow_isolated hrow, evaluateRows_append rest hrows, hentries]
    cases evaluateRows c expression rest with
    | mk log outcome => cases outcome <;> simp [bind, Logged.andThen, pure, Except.map]

theorem evaluateRows_isolated (h : AreIsolated c expression (rows.map (·.2))) : evaluateRows c expression rows =
    ⟨entries c expression rows, .ok (rows.map fun r => rowResult (c.evaluate expression r.2).outcome)⟩ := by
  have happend := evaluateRows_append [] h
  rw [List.append_nil] at happend
  rw [happend]
  simp [evaluateRows, pure, Except.map]

/-- The first failure that is not one of a row ends the batch. -/
theorem evaluateRows_broken (h : AreIsolated c expression (before.map (·.2)))
    (hr : (c.evaluate expression r.2).outcome = .error f) (hf : f.isOfRow = false) :
    evaluateRows c expression (before ++ r :: behind) = ⟨entries c expression before, .error f⟩ := by
  have hrow : evaluateRow c expression r.1 r.2 = .fail f := by
    unfold evaluateRow
    rw [hr]
    simp only [hf, Bool.false_eq_true, if_false]
  rw [evaluateRows_append _ h, evaluateRows, hrow]
  simp [bind, Logged.andThen, Logged.fail, Except.map]

/-! ### Tables -/

variable {t : Table} {log : List LogEntry} {results : List RowResult} {cells : List Value}

/-- The name of the column of the results. -/
def columnName (c : Calculator) (name : String) : String := if name.isEmpty then c.settings.resultColumn else name

theorem evaluate_of_error (name : String) (h : evaluateRows c expression (t.rowNames.zip t.rows) = ⟨log, .error f⟩) :
    evaluate c expression t name = ⟨log, .error f⟩ := by
  unfold evaluate
  dsimp only
  split
  · rename_i f' hr
    rw [h] at hr ⊢
    rw [Except.error.inj hr]
  · rename_i results hr
    rw [h] at hr
    cases hr

theorem evaluate_of_results (name : String) (h : evaluateRows c expression (t.rowNames.zip t.rows) = ⟨log, .ok results⟩) :
    (∃ f, Column.settle (results.map (·.value)) = .error f ∧ evaluate c expression t name = ⟨log, .error f⟩) ∨
    ∃ cells, ∃ hheight : cells.length = t.height, Column.settle (results.map (·.value)) = .ok cells ∧
      evaluate c expression t name = ⟨log ++ [summary t.height (results.filter (·.failed)).length],
        .ok (t.put ⟨columnName c name, cells⟩ hheight)⟩ := by
  unfold evaluate
  dsimp only
  split
  · rename_i f hr
    rw [h] at hr
    cases hr
  · rename_i results' hr
    rw [h] at hr
    obtain rfl := Except.ok.inj hr
    split
    · rename_i f hs
      exact Or.inl ⟨f, hs, by rw [h]⟩
    · rename_i cells hs
      have hheight : cells.length = t.height := by
        rw [Column.length_settle hs, List.length_map, length_evaluateRows (congrArg Logged.outcome h)]
        simp
      refine Or.inr ⟨cells, hheight, hs, ?_⟩
      rw [congrArg Logged.log h]
      rfl

/-- The outcomes of the rows from top to bottom. -/
def outcomes (c : Calculator) (expression : String) (t : Table) : List (Outcome Value) :=
  t.rows.map fun row => (c.evaluate expression row).outcome

theorem map_snd_named (t : Table) : (t.rowNames.zip t.rows).map (·.2) = t.rows :=
  List.map_snd_zip (by simp)

theorem outcomes_named (c : Calculator) (expression : String) (t : Table) :
    (t.rowNames.zip t.rows).map (fun r => (c.evaluate expression r.2).outcome) = outcomes c expression t := by
  have hrows := congrArg (List.map fun row => (c.evaluate expression row).outcome) (map_snd_named t)
  rwa [List.map_map] at hrows

theorem length_entries (c : Calculator) (expression : String) (rows : List (String × Row)) :
    (entries c expression rows).length =
      ((rows.map fun r => (c.evaluate expression r.2).outcome).filter (!·.isOk)).length := by
  induction rows with
  | nil => rfl
  | cons r rows ih =>
    rw [entries, List.filterMap_cons, List.map_cons, List.filter_cons]
    cases (c.evaluate expression r.2).outcome with
    | ok v => exact ih
    | error f => exact congrArg (· + 1) ih

theorem evaluateRows_table (h : AreIsolated c expression t.rows) : evaluateRows c expression (t.rowNames.zip t.rows) =
    ⟨entries c expression (t.rowNames.zip t.rows), .ok ((outcomes c expression t).map rowResult)⟩ := by
  rw [evaluateRows_isolated ((map_snd_named t).symm ▸ h), ← outcomes_named, List.map_map]
  rfl

/-- A batch whose rows are isolated has one cell for each row, which is its value or, if it fails, the NaN, unless these
cannot be put into a column. -/
theorem evaluate_isolated (name : String) (h : AreIsolated c expression t.rows) :
    (∃ f, Column.settle ((outcomes c expression t).map cell) = .error f ∧
      evaluate c expression t name = ⟨entries c expression (t.rowNames.zip t.rows), .error f⟩) ∨
    ∃ cells, ∃ hheight : cells.length = t.height, Column.settle ((outcomes c expression t).map cell) = .ok cells ∧
      evaluate c expression t name =
        ⟨entries c expression (t.rowNames.zip t.rows) ++
          [summary t.height ((outcomes c expression t).filter (!·.isOk)).length],
          .ok (t.put ⟨columnName c name, cells⟩ hheight)⟩ := by
  have hvalues : ((outcomes c expression t).map rowResult).map (·.value) = (outcomes c expression t).map cell :=
    List.map_map
  rw [← hvalues]
  refine (evaluate_of_results name (evaluateRows_table h)).imp_right fun ⟨cells, hheight, hs, hrun⟩ => ?_
  refine ⟨cells, hheight, hs, hrun.trans ?_⟩
  rw [List.filter_map, List.length_map]
  rfl

end Batch
end Reckoner
