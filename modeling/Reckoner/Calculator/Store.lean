import Reckoner.Calculator.Basic

/-!
# Storing variables

A call of `store` takes a name and its value by their places, or any number of named values. The parameters
of the call have names as well: a named value `name` or `value` is the argument for the place, and `self` is
the calculator, so that none of the three stores a variable of its name.
-/

namespace Reckoner.Calculator

/-- The arguments of a call: by their places and by names. -/
structure StoreCall where
  positional : List Value := []
  named : List (String × Value) := []

namespace StoreCall

/-- The last value under a name. -/
def named? (call : StoreCall) (name : String) : Option Value :=
  (call.named.reverse.find? (·.1 == name)).map (·.2)

/-- A parameter is given at most once. -/
def isAcceptable (call : StoreCall) : Bool :=
  decide (call.positional.length ≤ 2) && (call.named? "self").isNone &&
    ((call.named? "name").isNone || decide (call.positional.length < 1)) &&
    ((call.named? "value").isNone || decide (call.positional.length < 2))

/-- What the call stores. -/
def entries (call : StoreCall) : Outcome (List (Value × Value)) :=
  if call.isAcceptable then
    let name := (call.positional[0]?.or (call.named? "name")).getD .null
    let value := (call.positional[1]?.or (call.named? "value")).getD .null
    let others := Bindings.ofEntries
      ((call.named.filter fun e => e.1 != "name" && e.1 != "value").map fun e => (.text e.1, e.2))
    match name with
    | .null => .ok others
    | .list _ => .error .typeMismatch
    | name => .ok (others.put name value)
  else .error .argumentCount

end StoreCall

/-- The calculator after a call of `store`, and whether the call succeeded. -/
def store (c : Calculator) (call : StoreCall) : Calculator × Outcome Unit :=
  match call.entries with
  | .ok entries => c.storeAll entries
  | .error f => (c, .error f)

end Reckoner.Calculator
