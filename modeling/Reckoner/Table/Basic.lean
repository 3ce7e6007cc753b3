import Reckoner.Failure
import Reckoner.Value.Text

/-!
# Tables of data

A table has columns of equal height. The cells of a column are values of one kind if that is possible: a
column of integers and floats holds floats, and a gap among numbers is the NaN. A row binds the name of each
column to its cell there; columns of different kinds of numbers give their common kind to all numbers of a
row, which for signed and unsigned words is the float. Rows may be labelled; those that are not are counted.
-/

namespace Reckoner

/-! ### Kinds of cells -/

/-- What the cells of a column have in common. -/
inductive CellKind where
  /-- Signed words. -/
  | integers
  /-- Unsigned words, one of which is too great for a signed one. -/
  | naturals
  | reals
  | complexes
  | truths
  | mixed
  deriving DecidableEq, Repr

namespace CellKind

/-- The kind holds numbers or truth values, which are kept as machine words. -/
def isNumeric (k : CellKind) : Bool := k != .mixed

/-- The kind holds integers or floats. -/
def isReal (k : CellKind) : Bool := k == .integers || k == .naturals || k == .reals

end CellKind

namespace Value

/-- The NaN, which fills gaps. -/
def gap : Value := .real Binary64.nan

/-- The absent value or the NaN. -/
def isGap : Value → Bool
  | .null => true
  | .real x => x.isNaN
  | _ => false

/-- The NaN in the place of the absent value. -/
def filled : Value → Value
  | .null => gap
  | v => v

/-- An integer as the nearest float, a gap as the NaN. -/
def toReal : Value → Value
  | .null => gap
  | .int n => .real (Binary64.nearest (decide (n < 0)) n.natAbs 1)
  | v => v

/-- A number as a complex one. -/
def toComplex (v : Value) : Value :=
  match v.toReal with
  | .real x => .complex (.ofReal x)
  | v => v

end Value

/-! ### Columns -/

/-- A column: its name and its cells from top to bottom. -/
structure Column where
  name : String
  cells : List Value

namespace Column

/-- The integers among cells fit together into words of 64 bits, signed ones or else unsigned ones. The cells
    are read in order up to the first that settles the matter; an integer beyond the greatest float is an
    overflow. The two flags tell whether a negative integer and one that needs an unsigned word came before. -/
def wordsFit (negative unsigned : Bool) : List Value → Outcome Bool
  | [] => .ok true
  | .text _ :: _ | .list _ :: _ => .ok false
  | .int n :: rest =>
    if (Binary64.ofInt? n).isNone then .error .overflow
    else
      let negative := negative || decide (n < 0)
      let unsigned := unsigned || decide (2 ^ 63 ≤ n)
      if n < -2 ^ 63 ∨ 2 ^ 64 ≤ n ∨ (negative && unsigned) = true then .ok false
      else wordsFit negative unsigned rest
  | _ :: rest => wordsFit negative unsigned rest

/-- The cell is a number of one of the kinds up to the given one. -/
def isUpTo (kind : CellKind) (v : Value) : Bool :=
  match kind, v with
  | .integers, .int _ => true
  | .reals, .int _ | .reals, .real _ => true
  | .complexes, v => v.isNumber
  | _, _ => false

/-- The cell is an integer that needs an unsigned word. -/
def isUnsigned : Value → Bool
  | .int n => decide (Nat.pow 2 63 ≤ n)
  | _ => false

/-- The kind of a column. -/
def kindOf (cells : List Value) : CellKind :=
  if cells.all (isUpTo .integers) then
    match wordsFit false false cells with
    | .ok true => if cells.any isUnsigned then .naturals else .integers
    | _ => .mixed
  else if cells.all (fun | .real _ => true | _ => false) then .reals
  else if cells.all (fun | .complex _ => true | _ => false) then .complexes
  else if cells.all (fun | .bool _ => true | _ => false) then .truths
  else .mixed

/-- Texts with gaps, but not gaps alone. -/
def isTextual (cells : List Value) : Bool :=
  let isText : Value → Bool := fun | .text _ => true | _ => false
  cells.any isText && cells.all fun v => isText v || v.isGap

/-- Some cell is a number up to a kind and all others are, too, or are absent. -/
def isNumbers (kind : CellKind) (cells : List Value) : Bool :=
  cells.any (isUpTo kind) && cells.all fun v => isUpTo kind v || v.isGap

/-- The cells of a column as which values are kept: numbers in their widest kind, and the NaN for every gap
    among numbers or texts. Truth values, texts and integers too great for a word stay as they are if they
    come with anything else. -/
def settle (cells : List Value) : Outcome (List Value) := do
  let fit ← wordsFit false false cells
  if fit && cells.all (isUpTo .integers) then .ok cells
  else if fit && isNumbers .reals cells then .ok (cells.map Value.toReal)
  else if fit && isNumbers .complexes cells then .ok (cells.map Value.toComplex)
  else if isTextual cells then .ok (cells.map fun v => if v.isGap then .gap else v)
  else .ok cells

/-- No cell is lost or added. -/
theorem length_settle {cells settled : List Value} (h : settle cells = .ok settled) :
    settled.length = cells.length := by
  unfold settle at h
  cases hf : wordsFit false false cells with
  | error f => simp [hf, bind, Except.bind] at h
  | ok fit =>
    simp only [hf, bind, Except.bind] at h
    repeat' split at h
    all_goals simp [← Except.ok.inj h]

end Column

/-! ### Tables -/

/-- Columns of equal height, and columns of labels for the rows. -/
structure Table where
  height : Nat
  columns : List Column
  uniform : ∀ c ∈ columns, c.cells.length = height
  labels : List (List Value) := []
  labelled : ∀ l ∈ labels, l.length = height := by simp

/-- What a row binds to the names of the columns. -/
abbrev Row := List (Value × Value)

namespace Table

/-- The columns with one put in the place of that of its name, or at the end. -/
def place (c : Column) : List Column → List Column
  | [] => [c]
  | d :: rest => if d.name = c.name then c :: rest else d :: place c rest

theorem mem_place {c d : Column} {cs : List Column} (h : d ∈ place c cs) : d = c ∨ d ∈ cs := by
  induction cs with
  | nil => simpa [place] using h
  | cons e rest ih =>
    unfold place at h
    split at h
    · rcases List.mem_cons.1 h with h | h
      · exact .inl h
      · exact .inr (List.mem_cons_of_mem _ h)
    · rcases List.mem_cons.1 h with h | h
      · exact .inr (h ▸ List.mem_cons_self)
      · exact (ih h).imp_right (List.mem_cons_of_mem _)

/-- The table with a column of its height, which replaces one of the same name. -/
def put (t : Table) (c : Column) (h : c.cells.length = t.height) : Table where
  height := t.height
  labels := t.labels
  labelled := t.labelled
  columns := place c t.columns
  uniform _ hd := (mem_place hd).elim (fun e => e ▸ h) (t.uniform _)

/-- The table of given columns, if they are of equal height. -/
def ofColumns (columns : List Column) : Outcome Table :=
  let columns := columns.foldl (fun cs c => place c cs) []
  let height := (columns.head?.map (·.cells.length)).getD 0
  if h : ∀ c ∈ columns, c.cells.length = height then .ok { height, columns, uniform := h }
  else .error .invalidArgument

/-- The kind of the numbers in a row over columns of the given kinds, if all are numbers. -/
def common (kinds : List CellKind) : CellKind :=
  if kinds.all (· == .integers) then .integers
  else if kinds.all (· == .naturals) then .naturals
  else if kinds.all (·.isReal) then .reals
  else if kinds.all fun k => k.isReal || k == .complexes then .complexes
  else .mixed

/-- A row as it is given over columns of a kind. Texts alone are a kind of their own, which has no absent value. -/
def blend (kind : CellKind) (row : Row) : Row :=
  let convert (f : Value → Value) : Row := row.map fun e => (e.1, f e.2)
  match kind with
  | .reals => convert Value.toReal
  | .complexes => convert Value.toComplex
  | _ => if Column.isTextual (row.map (·.2)) then convert Value.filled else row

/-- The lines across columns of a height. -/
def across {α : Type} (height : Nat) : List (List α) → List (List α)
  | [] => List.replicate height []
  | column :: rest => List.zipWith (· :: ·) column (across height rest)

theorem length_across {α : Type} (height : Nat) (columns : List (List α))
    (h : ∀ c ∈ columns, c.length = height) : (across height columns).length = height := by
  induction columns with
  | nil => simp [across]
  | cons c rest ih =>
    simp [across, ih fun d hd => h d (List.mem_cons_of_mem _ hd), h c List.mem_cons_self]

/-- The rows from top to bottom. -/
def rows (t : Table) : List Row :=
  let kind := common (t.columns.map fun c => Column.kindOf c.cells)
  (across t.height (t.columns.map fun c => c.cells.map fun v => (.text c.name, v))).map (blend kind)

/-- There is one row for each place of a column. -/
@[simp] theorem length_rows (t : Table) : t.rows.length = t.height := by
  refine (List.length_map _).trans (length_across _ _ fun cells hc => ?_)
  obtain ⟨c, hm, rfl⟩ := List.mem_map.1 hc
  simp [t.uniform c hm]

/-! ### Labels of rows -/

/-- What a row is called: by its position, by its label, or by all of its labels. -/
def rowName (position : Nat) : List Value → String
  | [] => Notation.integer position
  | [label] => label.display
  | labels => "(" ++ String.intercalate ", " (labels.map Value.literal) ++ ")"

/-- What the rows are called from top to bottom. -/
def rowNames (t : Table) : List String := (across t.height t.labels).zipIdx.map fun e => rowName e.2 e.1

/-- Every row is called something. -/
@[simp] theorem length_rowNames (t : Table) : t.rowNames.length = t.height := by
  simp [rowNames, length_across _ _ t.labelled]

end Table
end Reckoner
