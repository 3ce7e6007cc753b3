import Reckoner.Number.Reading
import Reckoner.Table.Basic
import Reckoner.Value.Text

/-!
# Cells in a file

The fields of a column are read together: all are integers, or numbers, or truth values, or else texts. Some
words stand for a missing cell, which makes integers floats. A float is read with its first seventeen digits
and scaled once by a power of ten, so that a long one may miss the nearest float by a little.
-/

namespace Reckoner.Cell
open Reading

/-! ### Reading -/

/-- The fields that stand for a missing cell. -/
def missingWords : List String :=
  ["", "NA", "N/A", "n/a", "NaN", "nan", "-NaN", "-nan", "NULL", "null", "None", "#NA", "#N/A", "#N/A N/A", "<NA>",
   "1.#IND", "-1.#IND", "1.#QNAN", "-1.#QNAN"]

/-- The field stands for a missing cell. -/
def isMissing (s : String) : Bool := missingWords.contains s

/-- A field without the ASCII blanks at its ends. -/
def core (s : String) : List Char :=
  ((s.toList.dropWhile Text.isAsciiBlank).reverse.dropWhile Text.isAsciiBlank).reverse

/-- An integer field: ASCII digits with an optional sign. -/
def integer? (s : String) : Option Value :=
  let (negative, digits) := signed (core s)
  if digits.isEmpty || !digits.all Char.isDigit then none
  else some (.int (if negative then -(valueOf digits : Int) else valueOf digits))

/-- The float that a row of digits makes one after the other. -/
def accumulate (digits : List Char) : Float :=
  digits.foldl (fun x c => x * 10 + Float.ofNat (c.toNat - 48)) 0

/-- The float nearest to a power of ten. -/
def powerOfTen (e : Nat) : Float := ofDecimal false 1 e

/-- A float times a power of ten, in one step if the power is a float. -/
def scale (x : Float) (e : Int) : Float :=
  if 308 < e then (if x == 0 then x else x * Binary64.infinity)
  else if 0 < e then x * powerOfTen e.toNat
  else if -308 ≤ e then x / powerOfTen (-e).toNat
  else if -616 ≤ e then x / powerOfTen (-308 - e).toNat / powerOfTen 308
  else 0

/-- The digits of an unsigned number that count, and the power of ten that they are scaled by. -/
def significant (whole fraction : List Char) : List Char × Int :=
  let kept := (whole ++ fraction).take 17
  if whole.length < 17 then (kept, -((kept.length - whole.length : Nat) : Int))
  else (kept, (whole.length - 17 : Nat))

/-- A field that is a number. -/
def number? (s : String) : Option Float :=
  let (negative, body) := signed (core s)
  let whole := body.takeWhile Char.isDigit
  let (fraction, rest) := match body.dropWhile Char.isDigit with
    | '.' :: rest => (rest.takeWhile Char.isDigit, rest.dropWhile Char.isDigit)
    | rest => ([], rest)
  let (digits, e) := significant whole fraction
  if digits.isEmpty then none
  else (exponent? rest).map fun shift =>
    let x := scale (accumulate digits) (e + shift)
    if negative then -x else x

/-- A field that is an infinity. -/
def infinite? (s : String) : Option Float :=
  let (negative, word) := signed (s.toList.map Char.toLower)
  if word == "inf".toList || word == "infinity".toList then
    some (if negative then -Binary64.infinity else Binary64.infinity)
  else none

/-- A field that is a float. -/
def real? (s : String) : Option Value := ((number? s).or (infinite? s)).map .real

/-- A field that is a truth value. -/
def truth? (s : String) : Option Value :=
  if s == "True" || s == "TRUE" || s == "true" then some (.bool true)
  else if s == "False" || s == "FALSE" || s == "false" then some (.bool false)
  else none

/-- The cell of a field that is missing or of a form. -/
def cellBy? (form? : String → Option Value) (s : String) : Option Value :=
  if isMissing s then some .gap else form? s

/-- The cells of fields that are all missing or of a form. -/
def cellsBy? (form? : String → Option Value) : List String → Option (List Value)
  | [] => some []
  | s :: rest =>
    match cellBy? form? s, cellsBy? form? rest with
    | some cell, some cells => some (cell :: cells)
    | _, _ => none

theorem length_cellsBy? {form? : String → Option Value} {fields : List String} {cells : List Value}
    (h : cellsBy? form? fields = some cells) : cells.length = fields.length := by
  induction fields generalizing cells with
  | nil =>
    cases h
    rfl
  | cons s rest ih =>
    unfold cellsBy? at h
    split at h
    · next ht =>
      cases h
      simp [ih ht]
    · cases h

/-- The cells of the fields of a column. -/
def ofFields (fields : List String) : List Value :=
  match cellsBy? integer? fields with
  | some cells => if fields.any isMissing then cells.map Value.toReal else cells
  | none =>
    match (cellsBy? real? fields).or (cellsBy? truth? fields) with
    | some cells => cells
    | none => fields.map fun s => if isMissing s then .gap else .text s

/-- No cell is lost or added. -/
@[simp] theorem length_ofFields (fields : List String) : (ofFields fields).length = fields.length := by
  unfold ofFields
  split
  · next h =>
    split
    · simp [length_cellsBy? h]
    · exact length_cellsBy? h
  · split
    · next h => exact (Option.or_eq_some_iff.1 h).elim length_cellsBy? fun h => length_cellsBy? h.2
    · simp

/-! ### Writing -/

/-- The field of a cell; missing ones are empty. -/
def field (v : Value) : Outcome String :=
  if v.isGap then .ok ""
  else if v.isWritable then .ok v.display
  else .error .longInteger

end Reckoner.Cell
