import Reckoner.Number.Fixed
import Reckoner.Table.Basic
import Reckoner.Value.Text

/-!
# Tables laid out for people

The columns of a table side by side, each to the right of its width and one blank apart, under their names.
Floats of a column share their number of places: six, less the zeros that all of them end in. A column with
floats too small or too long for that has exponents.
-/

namespace Reckoner.Layout

/-- The places behind the point of a float. -/
def places : Nat := 6

/-! ### Zeros at the end -/

/-- A number with a point, which zeros may end. -/
def isDecimal (s : List Char) : Bool :=
  let body := s.dropWhile fun c => c == '-' || c == '+'
  match body.dropWhile Char.isDigit with
  | '.' :: rest => body.head?.any Char.isDigit && rest.all Char.isDigit
  | _ => false

/-- The number of zeros at the end of a text. -/
def zeros (s : List Char) : Nat := (s.reverse.takeWhile (· == '0')).length

/-- A number with a point without that many zeros, but with a digit behind the point. -/
def dropZeros (n : Nat) (s : List Char) : List Char :=
  let t := s.take (s.length - n)
  if t.getLast? == some '.' then t ++ ['0'] else t

/-- Texts without the zeros that all numbers with a point among them end in. -/
def trim (texts : List (List Char)) : List (List Char) :=
  let n := ((texts.filter isDecimal).map zeros).min?.getD 0
  texts.map fun s => if isDecimal s then dropZeros n s else s

/-! ### Cells -/

/-- What stands for a gap. -/
def gapText : List Char := "NaN".toList

/-- A float by a notation, or a gap. -/
def realText (write : Float → List Char) (x : Float) : List Char := if x.isNaN then gapText else write x

/-- The magnitude is smaller than the last place, but not zero. -/
def isSmall (x : Float) : Bool := x != 0 && x.abs < 1e-6

/-- The magnitude is greater than a million. -/
def isLarge (x : Float) : Bool := 1e6 < x.abs

/-- Texts by the notation with a number of places, or by that with exponents if a magnitude is small, or if one is
    large and a text is long. -/
def byMagnitude (magnitudes : List Float) (texts : (Float → List Char) → List (List Char)) : List (List Char) :=
  let plain := texts (Notation.fixed places)
  let isLong := plain.any fun s => decide (places + 6 < s.length)
  if magnitudes.any isSmall || (isLong && magnitudes.any isLarge) then texts (Notation.scientific places)
  else plain

/-- The cells of a column of floats. -/
def realTexts (xs : List Float) : List (List Char) :=
  byMagnitude xs fun write => trim (xs.map (realText write))

/-- A complex number: its real part and its imaginary one with a sign. -/
def complexText (write : Float → List Char) (z : ComplexFloat) : List Char :=
  let im := realText write z.im
  realText write z.re ++ (if im.head? == some '-' then im else '+' :: im)

/-- A text divided in front of its last sign. -/
def atLastSign (s : List Char) : List Char × List Char :=
  s.splitAt (s.length - (s.reverse.takeWhile fun c => c != '+' && c != '-').length - 1)

/-- Complex numbers divided at their last signs: all parts share their number of places, and what follows the
    signs shares its width. -/
def aligned (texts : List (List Char)) : List (List Char) :=
  let parts := texts.map atLastSign
  let trimmed := trim (parts.map (·.1) ++ parts.map (·.2))
  let width := ((trimmed.map List.length).max?.getD 1) - 1
  List.zipWith
    (fun first last =>
      first ++ last.take 1 ++ List.replicate (width - (last.length - 1)) ' ' ++ last.drop 1 ++ ['j'])
    (trimmed.take texts.length) (trimmed.drop texts.length)

/-- The cells of a column of complex numbers. -/
def complexTexts (zs : List ComplexFloat) : List (List Char) :=
  byMagnitude (zs.map ComplexFloat.abs) fun write => aligned (zs.map (complexText write))

/-- A text whose tabs and line ends are shown by escapes. -/
def escaped (s : String) : List Char :=
  s.toList.flatMap fun c =>
    if c == '\t' then ['\\', 't'] else if c == '\n' then ['\\', 'n'] else if c == '\r' then ['\\', 'r'] else [c]

/-- A cell in a column of mixed cells. A float has a place for its sign and drops its own zeros. -/
def mixedText : Value → List Char
  | .null => "None".toList
  | .real x =>
    if x.isNaN then gapText
    else
      let s := Notation.fixed places x
      let s := if isDecimal s then dropZeros (zeros s) s else s
      if s.head? == some '-' then s else ' ' :: s
  | v => escaped v.display

/-- The floats among cells, the NaN in the place of others. -/
def reals (cells : List Value) : List Float :=
  cells.map fun | .real x => x | _ => Binary64.nan

/-- The complex numbers among cells, the NaN in the place of others. -/
def complexes (cells : List Value) : List ComplexFloat :=
  cells.map fun | .complex z => z | _ => .ofReal Binary64.nan

/-- The texts of the cells of a column. -/
def cellTexts (cells : List Value) : List (List Char) :=
  match Column.kindOf cells with
  | .reals => realTexts (reals cells)
  | .complexes => complexTexts (complexes cells)
  | _ => cells.map mixedText

/-! ### Columns and lines -/

/-- A text to the right of a width. -/
def right (width : Nat) (s : List Char) : List Char := List.replicate (width - s.length) ' ' ++ s

/-- The lines of a column under its name, in front of which a column of numbers has a blank. -/
def columnLines (c : Column) : List (List Char) :=
  let kind := Column.kindOf c.cells
  let name := escaped c.name
  let lines := (if kind.isNumeric then ' ' :: name else name) :: cellTexts c.cells
  let width := (lines.map List.length).max?.getD 0
  lines.map (right width)

/-- Lines side by side. -/
def line (cells : List (List Char)) : String := String.ofList ([' '].intercalate cells)

/-- What stands for a table without cells. -/
def emptyText (t : Table) : String :=
  "Empty DataFrame\nColumns: [" ++ String.intercalate ", " (t.columns.map (·.name)) ++ "]\nIndex: []"

/-- All cells of a table can be written. -/
def isWritable (t : Table) : Bool := t.columns.all fun c => c.cells.all (·.isWritable)

/-- The text of a table. -/
def ofTable (t : Table) : Outcome String :=
  if t.height = 0 ∨ t.columns.isEmpty then .ok (emptyText t)
  else if isWritable t then
    .ok (String.intercalate "\n" ((Table.across (t.height + 1) (t.columns.map columnLines)).map line))
  else .error .longInteger

end Reckoner.Layout
