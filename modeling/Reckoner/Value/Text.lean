import Reckoner.Number.Notation
import Reckoner.Number.Reading
import Reckoner.Text.Quoted
import Reckoner.Value.Basic

/-!
# Values as text

A value has a text, in which a string stands for itself, and a literal, in which a string is quoted. Inside
a list the literals stand. An integer of more digits than may be written has neither: `isWritable` tells.
-/

namespace Reckoner.Value

/-- The integer has no more digits than may be written. -/
def isShortInt (n : Int) : Bool := decide (n.natAbs < Nat.pow 10 Reading.digitLimit)

mutual

/-- No integer in the value is too long to be written. -/
def isWritable : Value → Bool
  | .int n => isShortInt n
  | .list items => allWritable items
  | _ => true

/-- All values of a list can be written. -/
def allWritable : List Value → Bool
  | [] => true
  | v :: rest => v.isWritable && allWritable rest

end

/-- A truth value. -/
def boolText (b : Bool) : String := if b then "True" else "False"

mutual

/-- The literal of a value. -/
def literal : Value → String
  | .null => "None"
  | .bool b => boolText b
  | .int n => Notation.integer n
  | .real x => Notation.real x
  | .complex z => Notation.complex z.re z.im
  | .text s => String.ofList (Text.quoted s.toList)
  | .list items => "[" ++ String.intercalate ", " (literals items) ++ "]"

/-- The literals of the values of a list. -/
def literals : List Value → List String
  | [] => []
  | v :: rest => v.literal :: literals rest

end

/-- The text of a value. -/
def display : Value → String
  | .text s => s
  | v => v.literal

end Reckoner.Value
