import Reckoner.Number.Fixed
import Reckoner.Text.Template
import Reckoner.Value.Order
import Reckoner.Value.Text

/-!
# Filling templates

A template is filled with one value, which has to be used exactly once; only a list may be left unused. The
letter of a directive tells how the value is written: as text, as an integer to a base, as a float in one of
three notations, or as a character. What is written is padded to the width of the directive.
-/

namespace Reckoner.Value

/-! ### Values as numbers -/

/-- A value without its fraction. -/
def wholePart : Value → Outcome Int
  | .bool b => .ok (if b then 1 else 0)
  | .int n => .ok n
  | .real x =>
    if x.isNaN then .error .invalidArgument
    else if x.isInf then .error .overflow
    else .ok (Binary64.truncInt x)
  | _ => .error .typeMismatch

/-- The integer a value is; a truth value is one or zero. -/
def integer? : Value → Option Int
  | .bool b => some (if b then 1 else 0)
  | .int n => some n
  | _ => none

/-- The float that a value stands for. -/
def realPart : Value → Outcome Float
  | .real x => .ok x
  | v =>
    match v.integer? with
    | some n => Number.realOfInt n
    | none => .error .typeMismatch

/-! ### What is written -/

/-- A text, or a number with its sign and the mark of its base. -/
inductive Written where
  | text (s : List Char)
  | number (negative : Bool) (base digits : List Char)

/-- The text of a value in a template, unless an integer in it is too long. -/
def written (v : Value) (text : String) : Outcome (List Char) :=
  if v.isWritable then .ok text.toList else .error .longInteger

/-- A text cut off at a precision. -/
def cut (precision : Option Nat) (s : List Char) : Written := .text ((precision.map s.take).getD s)

/-- Digits, filled up with zeros to a precision. No text is longer than a machine integer can count. -/
def integral (precision : Option Nat) (negative : Bool) (base digits : List Char) : Outcome Written :=
  let least := precision.getD 0
  if Nat.pow 2 31 - 3 ≤ least then .error .overflow
  else .ok (.number negative base (List.replicate (least - digits.length) '0' ++ digits))

/-- A value as a decimal integer. -/
def decimal (precision : Option Nat) (v : Value) : Outcome Written := do
  let n ← v.wholePart
  let _ ← written (.int n) ""
  integral precision (decide (n < 0)) [] (Notation.natural n.natAbs)

/-- An integer to a base, with the mark of the base if that is to be shown. -/
def toBase (base : Nat) (mark : List Char) (precision : Option Nat) (v : Value) : Outcome Written :=
  match v.integer? with
  | some n => integral precision (decide (n < 0)) mark (Nat.toDigits base n.natAbs)
  | none => .error .typeMismatch

/-- A value as a float by a notation for magnitudes. -/
def floating (write : Float → List Char) (v : Value) : Outcome Written := do
  let x ← v.realPart
  .ok (.number (Notation.isMinus x) [] (Notation.magnitudeBy write x))

/-- A character, given by itself or by its code point. -/
def character (v : Value) : Outcome Written :=
  match v, v.integer? with
  | .text s, _ => if s.length = 1 then .ok (.text s.toList) else .error .typeMismatch
  | _, some n =>
    if n < 0 ∨ 0x110000 ≤ n then .error .overflow else .ok (.text [Char.ofNat n.toNat])
  | _, none => .error .typeMismatch

/-- Small letters as capitals. -/
def Written.capital : Written → Written
  | .text s => .text s
  | .number negative base digits => .number negative (base.map Char.toUpper) (digits.map Char.toUpper)

/-- A value as the letter of a directive tells. The alternate form shows the base of an integer and keeps the
    point of a float. -/
def byLetter (alternate : Bool) (precision : Option Nat) (v : Value) (letter : Char) : Outcome Written :=
  let places := precision.getD 6
  match letter with
  | 's' => (written v v.display).map (cut precision)
  | 'r' => (written v v.literal).map (cut precision)
  | 'a' => (written v v.literal).map fun s => cut precision (Text.asciiOnly s)
  | 'd' | 'i' | 'u' => decimal precision v
  | 'o' => toBase 8 (if alternate then ['0', 'o'] else []) precision v
  | 'x' => toBase 16 (if alternate then ['0', 'x'] else []) precision v
  | 'X' => (toBase 16 (if alternate then ['0', 'x'] else []) precision v).map Written.capital
  | 'f' => floating (Notation.fixedMagnitude alternate places) v
  | 'F' => (floating (Notation.fixedMagnitude alternate places) v).map Written.capital
  | 'e' => floating (Notation.scientificMagnitude alternate places) v
  | 'E' => (floating (Notation.scientificMagnitude alternate places) v).map Written.capital
  | 'g' => floating (Notation.generalMagnitude alternate places) v
  | 'G' => (floating (Notation.generalMagnitude alternate places) v).map Written.capital
  | 'c' => character v
  | _ => .error .invalidArgument

/-! ### Layout -/

/-- A text padded with blanks to a width. -/
def padded (leftAligned : Bool) (width : Nat) (s : List Char) : List Char :=
  let blanks := List.replicate (width - s.length) ' '
  if leftAligned then s ++ blanks else blanks ++ s

/-- What is written, laid out by the marks of a directive. Zeros fill up numbers only, and not at their
    right. -/
def layOut (marks : List Char) (leftAligned : Bool) (width : Nat) : Written → List Char
  | .text s => padded leftAligned width s
  | .number negative base digits =>
    let sign := if negative then ['-'] else if marks.contains '+' then ['+']
      else if marks.contains ' ' then [' '] else []
    let front := sign ++ base
    if marks.contains '0' && !leftAligned then
      front ++ List.replicate (width - front.length - digits.length) '0' ++ digits
    else padded leftAligned width (front ++ digits)

/-! ### Directives -/

/-- An amount, and whether the value is used by then. An amount that is asked for is the value, and has to be
    a machine integer; a limit holds for both ways to give it. -/
def resolve (v : Value) (limit : Nat) (used : Bool) : Option Amount → Outcome (Option Int × Bool)
  | none => .ok (none, used)
  | some (.given n) => if limit < n then .error .invalidArgument else .ok (some (n : Int), used)
  | some .asked =>
    match v.integer?, used with
    | some n, false => if n < -limit - 1 ∨ limit < n then .error .overflow else .ok (some n, true)
    | _, _ => .error .typeMismatch

/-- The value is a list, in which names can be looked for and which may be left unused. -/
def isList : Value → Bool
  | .list _ => true
  | _ => false

/-- A name finds nothing: lists have no names, and other values do not even look. -/
def lookUp (v : Value) (key : DirectiveKey) : Outcome Unit :=
  match key with
  | .absent => .ok ()
  | .closed => .error .typeMismatch
  | .unclosed => .error (if v.isList then .invalidArgument else .typeMismatch)

/-- What stands in the place of a directive, and whether the value is used then. -/
def fillDirective (v : Value) (used : Bool) (d : Directive) : Outcome (List Char × Bool) := do
  v.lookUp d.key
  let (width, used) ← v.resolve (Nat.pow 2 63 - 1) used d.width
  let (precision, used) ← v.resolve (Nat.pow 2 31 - 1) used d.precision
  match d.letter with
  | none => .error .invalidArgument
  | some letter =>
    if used then .error .typeMismatch
    else do
      let leftAligned := d.marks.contains '-' || decide (width.getD 0 < 0)
      let w ← v.byLetter (d.marks.contains '#') (precision.map Int.toNat) letter
      .ok (layOut d.marks leftAligned (width.getD 0).natAbs w, true)

/-- The parts of a template filled with a value, and whether the value is used then. -/
def fillParts (v : Value) : (used : Bool) → List TemplatePart → Outcome (List Char × Bool)
  | used, [] => .ok ([], used)
  | used, .text c :: rest => do
    let (s, used) ← fillParts v used rest
    .ok (c :: s, used)
  | used, .directive d :: rest => do
    let (piece, used) ← v.fillDirective used d
    let (s, used) ← fillParts v used rest
    .ok (piece ++ s, used)

/-- A template filled with a value. -/
def fill (template : List Char) (v : Value) : Outcome Value := do
  let (s, used) ← v.fillParts false (TemplatePart.ofText template)
  if used || v.isList then .ok (.text (String.ofList s)) else .error .typeMismatch

end Reckoner.Value
