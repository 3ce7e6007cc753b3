import Reckoner.Text.PrintTable

/-!
# Quoted text

Text in quotes as messages show it: between apostrophes, or between double quotes if it holds apostrophes
only. The quote and the backslash are escaped, tabs and line ends have short escapes, and what cannot be
printed is given by its code point.
-/

namespace Reckoner.Text

/-- A character that quoted text shows as it is. -/
def isPrintable (c : Char) : Bool :=
  let n := c.toNat
  if n < 128 then decide (32 ≤ n ∧ n ≤ 126) else printableRanges.contains n

/-- The lower case hexadecimal digits of a number, filled up to a width. -/
def hexadecimal (width n : Nat) : List Char :=
  let ds := Nat.toDigits 16 n
  List.replicate (width - ds.length) '0' ++ ds

/-- A character given by its code point. -/
def codeEscape (c : Char) : List Char :=
  let n := c.toNat
  if n ≤ 0xff then '\\' :: 'x' :: hexadecimal 2 n
  else if n ≤ 0xffff then '\\' :: 'u' :: hexadecimal 4 n
  else '\\' :: 'U' :: hexadecimal 8 n

/-- A character inside quotes. -/
def quotedChar (quote c : Char) : List Char :=
  if c == quote || c == '\\' then ['\\', c]
  else if c == '\t' then ['\\', 't']
  else if c == '\n' then ['\\', 'n']
  else if c == '\r' then ['\\', 'r']
  else if isPrintable c then [c]
  else codeEscape c

/-- The quote that a text is put in. -/
def quoteFor (s : List Char) : Char :=
  if s.contains '\'' && !s.contains '"' then '"' else '\''

/-- A text in quotes. -/
def quoted (s : List Char) : List Char :=
  let q := quoteFor s
  q :: (s.flatMap (quotedChar q) ++ [q])

/-- A text in which characters beyond ASCII are given by their code points. -/
def asciiOnly (s : List Char) : List Char := s.flatMap fun c => if c.toNat < 128 then [c] else codeEscape c

end Reckoner.Text
