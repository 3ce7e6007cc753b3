/-!
# Records of comma-separated text

A record is a line of fields that commas separate. A field in double quotes may hold commas and line ends,
and a quote that is written twice. Lines that are blank are no records, and the mark of the byte order in front
of a text is no part of it. A text is no sequence of records only if it ends inside quotes.
-/

namespace Reckoner.Record

/-! ### Reading -/

/-- Where in a record the reader stands. -/
inductive Place where
  /-- At the start of a line, behind nothing but blanks. -/
  | lineStart
  | fieldStart
  | bare
  | quoted
  /-- Behind a quote that ends a field or is the first of two. -/
  | behindQuote

/-- What has been read of a record: its complete fields and the one under way, both last first. -/
structure Progress where
  fields : List String
  field : List Char

namespace Progress

/-- Nothing has been read. -/
def empty : Progress := ⟨[], []⟩

/-- A character more in the field under way. -/
def push (p : Progress) (c : Char) : Progress := { p with field := c :: p.field }

/-- The field under way is complete. -/
def endField (p : Progress) : Progress := ⟨String.ofList p.field.reverse :: p.fields, []⟩

/-- The record with the field under way as its last. -/
def record (p : Progress) : List String := p.endField.fields.reverse

end Progress

/-- The character ends a line. -/
def isLineEnd (c : Char) : Bool := c == '\n' || c == '\r'

/-- The records in the rest of a text. -/
def readFrom (place : Place) (p : Progress) : List Char → Option (List (List String))
  | [] =>
    match place with
    | .lineStart => some []
    | .quoted => none
    | _ => some [p.record]
  | c :: rest =>
    match place with
    | .lineStart =>
      if isLineEnd c then readFrom .lineStart .empty rest
      else if c == ',' then readFrom .fieldStart p.endField rest
      else if c == '"' && p.field.isEmpty then readFrom .quoted p rest
      else readFrom (if c == ' ' || c == '\t' then .lineStart else .bare) (p.push c) rest
    | .quoted => if c == '"' then readFrom .behindQuote p rest else readFrom .quoted (p.push c) rest
    | place =>
      if isLineEnd c then (readFrom .lineStart .empty rest).map (p.record :: ·)
      else if c == ',' then readFrom .fieldStart p.endField rest
      else match place, c with
        | .fieldStart, '"' => readFrom .quoted p rest
        | .behindQuote, '"' => readFrom .quoted (p.push c) rest
        | _, _ => readFrom .bare (p.push c) rest

/-- The mark of the byte order, which may stand in front of a text. -/
def orderMark : Char := '\ufeff'

/-- The records of a text. -/
def ofText? (s : String) : Option (List (List String)) :=
  match s.toList with
  | [] => some []
  | c :: rest => readFrom .lineStart .empty (if c == orderMark then rest else c :: rest)

/-! ### Writing -/

/-- A character that a field outside quotes cannot hold. -/
def isSpecial (c : Char) : Bool := c == ',' || c == '"' || c == '\n'

/-- A field, in quotes if it has to be. -/
def fieldText (s : String) : List Char :=
  if s.toList.any isSpecial then
    '"' :: (s.toList.flatMap fun c => if c == '"' then ['"', '"'] else [c]) ++ ['"']
  else s.toList

/-- A record with its line end. A single empty field is quoted, as its line would be blank. -/
def text : List String → String
  | [""] => "\"\"\n"
  | fields => String.intercalate "," (fields.map fun s => String.ofList (fieldText s)) ++ "\n"

end Reckoner.Record
