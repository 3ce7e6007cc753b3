import Reckoner.Function
import Reckoner.Value.Arithmetic

/-!
# A stock of function bodies

Bodies for user functions: extremes, sums and counts of any number of arguments, and a few functions of a
fixed number of them.
-/

namespace Reckoner.Body

/-- The value that stands first in an order among values: the first one that no later one precedes. -/
def extreme (before : Ordering) : (best : Value) → List Value → Outcome Value
  | best, [] => .ok best
  | best, v :: rest => do
    let o ← v.order best
    extreme before (if o == some before then v else best) rest

/-- The least or the greatest of some values, of which there has to be one. -/
def extremeOf (before : Ordering) : List Value → Outcome Value
  | [] => .error .invalidArgument
  | v :: rest => extreme before v rest

/-- The sum of a number and some values. -/
def sumFrom : (start : Value) → List Value → Outcome Value
  | total, [] => .ok total
  | total, v :: rest => do sumFrom (← total.add v) rest

/-- The texts of some values in a row. -/
def joined (vs : List Value) : Outcome Value :=
  if Value.allWritable vs then .ok (.text (String.join (vs.map (·.display)))) else .error .longInteger

/-- Twice the only argument. -/
def double : List Value → Outcome Value
  | [v] => v.mul (.int 2)
  | _ => .error .argumentCount

/-- The first of two arguments less the second. -/
def difference : List Value → Outcome Value
  | [v, w] => v.sub w
  | _ => .error .argumentCount

/-- The only argument, a text, in upper case. -/
def upperCase : List Value → Outcome Value
  | [.text s] => .ok (.text (Text.upper s))
  | [_] => .error .typeMismatch
  | _ => .error .argumentCount

/-- The first argument. -/
def first : List Value → Outcome Value
  | v :: _ => .ok v
  | [] => .error .indexOutOfRange

/-- The constant of no arguments. -/
def answer : List Value → Outcome Value
  | [] => .ok (.int 42)
  | _ => .error .argumentCount

/-- The bodies under their labels. -/
def standard : List Body :=
  [⟨"double", double⟩,
   ⟨"max", extremeOf .gt⟩,
   ⟨"min", extremeOf .lt⟩,
   ⟨"sum", sumFrom (.int 0)⟩,
   ⟨"count", fun vs => .ok (.int vs.length)⟩,
   ⟨"first", first⟩,
   ⟨"sub", difference⟩,
   ⟨"upper", upperCase⟩,
   ⟨"join", joined⟩,
   ⟨"const", answer⟩,
   ⟨"none", fun _ => .ok .null⟩,
   ⟨"fail", fun _ => .error .invalidArgument⟩]

/-- The body under a label. -/
def labelled? (label : String) : Option Body := standard.find? (·.label == label)

end Reckoner.Body
