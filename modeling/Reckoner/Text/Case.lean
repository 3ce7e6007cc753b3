import Reckoner.Text.CaseTable

/-!
# Letter case

Lower and upper case of characters and texts, and the comparison that ignores case. Two lower cases depend
on more than one character: the dotted capital I has a lower case of two characters, and a capital sigma at
the end of a word becomes the final small sigma.
-/

namespace Reckoner.Text

/-- The lower case of a character, one character in every case. -/
def lowerChar (c : Char) : Char :=
  let n := c.toNat
  if n < 128 then (if 65 ≤ n ∧ n ≤ 90 then Char.ofNat (n + 32) else c)
  else Char.ofNat (moveBy lowerRuns n)

/-- The upper case of a character. -/
def upperChar (c : Char) : List Char :=
  let n := c.toNat
  if n < 128 then [if 97 ≤ n ∧ n ≤ 122 then Char.ofNat (n - 32) else c]
  else match upperExpansions.find? (·.1 == n) with
    | some (_, cs) => cs.map Char.ofNat
    | none => [Char.ofNat (moveBy upperRuns n)]

/-- The character next to a place, past those that do not count there, has a case. -/
def nextToCased (cs : List Char) : Bool :=
  match (cs.dropWhile fun c => caseIgnorableRanges.contains c.toNat).head? with
  | some c => casedRanges.contains c.toNat
  | none => false

/-- The lower case of a character between the text before it, read backwards, and the text behind it. -/
def lowerBetween (before : List Char) (c : Char) (after : List Char) : List Char :=
  if c == 'Σ' then [if nextToCased before && !nextToCased after then 'ς' else 'σ']
  else if c == 'İ' then ['i', Char.ofNat 0x307]
  else [lowerChar c]

/-- The lower case of a text that stands behind `before`, which is read backwards. -/
def lowerAfter (before : List Char) : List Char → List Char
  | [] => []
  | c :: rest => lowerBetween before c rest ++ lowerAfter (c :: before) rest

/-- The lower case of a text. -/
def lower (s : String) : String := String.ofList (lowerAfter [] s.toList)

/-- The upper case of a text. -/
def upper (s : String) : String := String.ofList (s.toList.flatMap upperChar)

/-- The character is the letter, or the same letter in the other case. -/
def sameLetter (letter c : Char) : Bool :=
  let low := lowerChar letter
  let other := lowerChar c
  other == low || ((caseKin.find? (·.1 == low.toNat)).map (·.2.contains other.toNat)).getD false

end Reckoner.Text
