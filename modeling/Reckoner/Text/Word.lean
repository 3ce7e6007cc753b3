import Reckoner.Text.WordTable

/-!
# Digits and the characters of words

A word is made of letters, numbers of any script and the underscore. A decimal digit of any script has the
value that its place in its set of ten gives it.
-/

namespace Reckoner.Text

/-- The value of a decimal digit. -/
def digitValue? (c : Char) : Option Nat :=
  let n := c.toNat
  if n < 128 then
    if 48 ≤ n ∧ n ≤ 57 then some (n - 48) else none
  else (digitZeros.find? fun z => decide (z ≤ n) && decide (n ≤ z + 9)).map (n - ·)

/-- A decimal digit of any script. -/
def isDigit (c : Char) : Bool := (digitValue? c).isSome

/-- A letter, a number or the underscore. -/
def isWord (c : Char) : Bool :=
  let n := c.toNat
  if n < 128 then c.isAlphanum || c == '_' else wordRanges.contains n

/-- A letter of ASCII or the underscore: what a name starts with. -/
def isNameStart (c : Char) : Bool := c.isAlpha || c == '_'

/-- A word ends between its last character and the rest of the text. -/
def endsWord (last : Char) (rest : List Char) : Bool :=
  isWord last != (rest.head?.map isWord).getD false

end Reckoner.Text
