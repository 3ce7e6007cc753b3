/-!
# Sets and maps of code points

A property of characters is kept as the list of its ranges, a change of characters as a list of runs that
are shifted by the same distance.
-/

namespace Reckoner.Text

/-- Closed ranges of code points. -/
abbrev Ranges := List (Nat × Nat)

/-- The code point lies in one of the ranges. -/
def Ranges.contains (rs : Ranges) (n : Nat) : Bool :=
  rs.any fun r => decide (r.1 ≤ n) && decide (n ≤ r.2)

/-- The code points `first`, `first + stride`, … up to `last`, all moved by `shift`. -/
structure Run where
  first : Nat
  last : Nat
  stride : Nat
  shift : Int

/-- The code point belongs to the run. -/
def Run.contains (r : Run) (n : Nat) : Bool :=
  decide (r.first ≤ n) && decide (n ≤ r.last) && decide ((n - r.first) % r.stride = 0)

/-- The code point moved by the run it belongs to; one that belongs to none stays. -/
def moveBy (rs : List Run) (n : Nat) : Nat :=
  match rs.find? (·.contains n) with
  | some r => (n + r.shift).toNat
  | none => n

end Reckoner.Text
