import Reckoner.Number.Binary64
import Reckoner.Text.Blank
import Reckoner.Text.Word

/-!
# Reading numbers

Integers and floats as they are written in a text. Digits of every script count, white space may stand
around a number, and a single underscore may stand between two digits. An integer has no more than 4300
digits; a float beyond the greatest one is read as infinite.
-/

namespace Reckoner.Reading
open Text

/-- The greatest number of digits of an integer that is read or written. -/
def digitLimit : Nat := 4300

/-- Digits and blanks of every script as those of ASCII; other characters beyond ASCII end a number. -/
def toAscii (c : Char) : Char :=
  if c.toNat < 127 then c
  else if isBlank c then ' '
  else match digitValue? c with
    | some d => Char.ofNat (48 + d)
    | none => '?'

/-- The text of a number in ASCII, without the blanks around it. -/
def normalise (s : List Char) : List Char :=
  (((s.map toAscii).dropWhile isAsciiBlank).reverse.dropWhile isAsciiBlank).reverse

/-- The number that a row of ASCII digits stands for, behind the digits already read. -/
def valueOf (digits : List Char) : Nat :=
  digits.foldl (fun n c => 10 * n + (c.toNat - 48)) 0

/-- The sign in front of a number and what follows it. -/
def signed : List Char → Bool × List Char
  | '-' :: rest => (true, rest)
  | '+' :: rest => (false, rest)
  | rest => (false, rest)

/-- A text without its underscores, if each stands between two digits. -/
def joinDigits? (last : Char) : List Char → Option (List Char)
  | [] => if last == '_' then none else some []
  | c :: rest =>
    if c == '_' then
      if last.isDigit then joinDigits? '_' rest else none
    else if last == '_' && !c.isDigit then none
    else (joinDigits? c rest).map (c :: ·)

/-- An integer. -/
def integer? (s : List Char) : Option Int :=
  let (negative, body) := signed (normalise s)
  match joinDigits? ' ' body with
  | none => none
  | some digits =>
    if digits.isEmpty || !digits.all Char.isDigit || digitLimit < digits.length then none
    else some (if negative then -(valueOf digits : Int) else valueOf digits)

/-- The double nearest to `digits * 10 ^ exponent`. -/
def ofDecimal (negative : Bool) (digits : Nat) (exponent : Int) : Float :=
  let size := (Nat.toDigits 10 digits).length + exponent
  if digits = 0 ∨ size < -400 then Binary64.nearest negative 0 1
  else if 400 < size then Binary64.nearest negative (Nat.pow 10 400) 1
  else if 0 ≤ exponent then Binary64.nearest negative (digits * Nat.pow 10 exponent.toNat) 1
  else Binary64.nearest negative digits (Nat.pow 10 (-exponent).toNat)

/-- The exponent at the end of a number; nothing may follow it. -/
def exponent? : List Char → Option Int
  | [] => some 0
  | c :: rest =>
    if c == 'e' || c == 'E' then
      let (negative, digits) := signed rest
      if digits.isEmpty || !digits.all Char.isDigit then none
      else some (if negative then -(valueOf digits : Int) else valueOf digits)
    else none

/-- An unsigned decimal number with an optional fraction and exponent. -/
def decimal? (negative : Bool) (s : List Char) : Option Float :=
  let whole := s.takeWhile Char.isDigit
  let (fraction, rest) := match s.dropWhile Char.isDigit with
    | '.' :: rest => (rest.takeWhile Char.isDigit, rest.dropWhile Char.isDigit)
    | rest => ([], rest)
  if whole.isEmpty && fraction.isEmpty then none
  else (exponent? rest).map fun e => ofDecimal negative (valueOf (whole ++ fraction)) (e - fraction.length)

/-- A float: a decimal number, an infinity or the NaN. -/
def real? (s : List Char) : Option Float :=
  let (negative, body) := signed (normalise s)
  let word := String.ofList (body.map Char.toLower)
  if word == "inf" || word == "infinity" then
    some (if negative then -Binary64.infinity else Binary64.infinity)
  else if word == "nan" then some Binary64.nan
  else (joinDigits? ' ' body).bind (decimal? negative)

end Reckoner.Reading
