import Reckoner.Calculator.Bindings
import Reckoner.Number.Reading
import Reckoner.Text.Blank
import Reckoner.Text.Case

/-!
# Bindings as text

A binding is written `name=value`. The value is a truth value in any letter case, an integer, a float, or
else the text itself; white space around both parts does not count.
-/

namespace Reckoner

/-- The value that a text stands for. -/
def Value.ofText (s : String) : Value :=
  let word := Text.lower (String.ofList (Text.trim s.toList))
  if word == "true" then .bool true
  else if word == "false" then .bool false
  else match Reading.integer? s.toList with
    | some n => .int n
    | none =>
      match Reading.real? s.toList with
      | some x => .real x
      | none => .text s

namespace Bindings

/-- The name and the value of a binding, which the first equals sign separates. -/
def entryOf (s : String) : Outcome (Value × Value) :=
  let cs := s.toList
  match cs.dropWhile (· != '=') with
  | [] => .error (.malformedBinding s)
  | _ :: value =>
    let name := String.ofList (Text.trim (cs.takeWhile (· != '=')))
    .ok (.text name, .ofText (String.ofList (Text.trim value)))

/-- The table of written bindings, of which the last of a name counts. -/
def ofTexts (texts : List String) : Outcome Bindings := (texts.mapM entryOf).map ofEntries

end Bindings
end Reckoner
