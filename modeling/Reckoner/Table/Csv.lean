import Reckoner.Table.Cell
import Reckoner.Table.Record

/-!
# Tables as comma-separated text

The first record of a text names the columns, the others are the rows. If the first row is longer than the
names, its first fields label it, and so do as many of every other row. A short row is filled up with missing
cells, and no row is longer than the first one and the names. Columns without a name are given one, and a name
that comes again is made different.
-/

namespace Reckoner.Table

/-! ### Reading -/

/-- The first of the names `name.k`, `name.(k + 1)`, … that is not taken. -/
def freshName (taken : List String) (name : String) : (tries k : Nat) → String
  | 0, k => name ++ "." ++ Notation.integer k
  | tries + 1, k =>
    let candidate := name ++ "." ++ Notation.integer k
    if taken.contains candidate then freshName taken name tries (k + 1) else candidate

/-- Names in which each that came before is replaced by a fresh one. -/
def distinctNames (header : List String) (before : List String) : List String → List String
  | [] => []
  | name :: rest =>
    let taken := header ++ before
    let name := if before.contains name then freshName taken name taken.length 1 else name
    name :: distinctNames header (name :: before) rest

/-- The names of the columns that a first record gives. Columns that have a name there keep it in front of those
    that are given one. -/
def columnNames (record : List String) : List String :=
  let header := record.zipIdx.map fun e => if e.1.isEmpty then "Unnamed: " ++ Notation.integer e.2 else e.1
  let (unnamed, named) := (record.zip header).zipIdx.partition fun e => e.1.1.isEmpty
  let order := named ++ unnamed
  let names := (order.map (·.2)).zip (distinctNames header [] (order.map (·.1.2)))
  header.zipIdx.map fun e => (names.lookup e.2).getD e.1

/-- The fields of the records at a place. -/
def fieldsAt (records : List (List String)) (i : Nat) : List String := records.map fun r => r[i]?.getD ""

/-- The table of named columns whose fields stand in records, behind a number of labels. -/
def ofRecords (labels : Nat) (names : List String) (records : List (List String)) : Table where
  height := records.length
  columns := names.zipIdx.map fun e => ⟨e.1, Cell.ofFields (fieldsAt records (labels + e.2))⟩
  uniform := by
    intro c hc
    obtain ⟨e, -, rfl⟩ := List.mem_map.1 hc
    simp [fieldsAt]
  labels := (List.range labels).map fun i => Cell.ofFields (fieldsAt records i)
  labelled := by
    intro l hl
    obtain ⟨i, -, rfl⟩ := List.mem_map.1 hl
    simp [fieldsAt]

/-- The table of a text. -/
def ofCsv (s : String) : Outcome Table :=
  match Record.ofText? s with
  | none => .error .malformedTable
  | some [] => .error .emptyData
  | some (header :: records) =>
    let width := max header.length ((records.head?.map List.length).getD 0)
    if records.any fun r => decide (width < r.length) then .error .malformedTable
    else .ok (ofRecords (width - header.length) (columnNames header) records)

/-! ### Writing -/

/-- The records of a table, of which the first names the columns. -/
def toRecords (t : Table) : Outcome (List (List String)) := do
  let columns ← t.columns.mapM fun c => c.cells.mapM Cell.field
  .ok (t.columns.map (·.name) :: across t.height columns)

/-- The text of a table. -/
def toCsv (t : Table) : Outcome String := t.toRecords.map fun records => String.join (records.map Record.text)

end Reckoner.Table
