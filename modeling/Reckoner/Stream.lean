import Reckoner.Token
import Reckoner.Value.Text

/-!
# Streams of tokens

A stream is a list of tokens. This file holds its text for people and the way a span of it is addressed
and replaced. Bounds beyond the ends are cut off, and a negative bound counts from the end, so that every
pair of integers addresses some span.
-/

namespace Reckoner

/-- A stream of tokens. -/
abbrev Stream := List Token

namespace Stream

/-- The texts of the tokens, separated by blanks. -/
def describe (ts : Stream) : String := String.intercalate " " (ts.map (·.value.display))

/-- No token holds an integer too long to be written. -/
def isWritable (ts : Stream) : Bool := ts.all (·.value.isWritable)

/-- The place in a list of the given length that an integer addresses. -/
def place (length : Nat) (i : Int) : Nat :=
  if i < 0 then (length + i).toNat else min i.toNat length

/-- The tokens from one place up to another. -/
def between (ts : Stream) (lo hi : Nat) : Stream := (ts.take hi).drop lo

/-- The tokens without those from one place up to another; nothing is removed if the places are reversed. -/
def without (ts : Stream) (lo hi : Nat) : Stream := ts.take lo ++ ts.drop (max lo hi)

/-- The tokens with others put in at a place. -/
def insertAt (ts : Stream) (at' : Nat) (new : Stream) : Stream := ts.take at' ++ new ++ ts.drop at'

end Stream
end Reckoner
