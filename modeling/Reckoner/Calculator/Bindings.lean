import Reckoner.Failure
import Reckoner.Value.Order

/-!
# Bindings

A table from names to values in the order in which the names first came. Names are values, too: a name is
usually a text, but any value that can be a key will do. A name that comes again keeps its place.
-/

namespace Reckoner

/-- Names and their values. -/
abbrev Bindings := List (Value × Value)

namespace Bindings

/-- The table with a value under a name. -/
def put (b : Bindings) (name value : Value) : Bindings :=
  match b with
  | [] => [(name, value)]
  | (n, v) :: rest => if n.same name then (n, value) :: rest else (n, v) :: put rest name value

/-- The value under a name. -/
def get? (b : Bindings) (name : Value) : Option Value := (b.find? fun e => e.1.same name).map (·.2)

/-- There is a value under the name. -/
def has (b : Bindings) (name : Value) : Bool := b.any fun e => e.1.same name

/-- The table with many values put in one after the other. -/
def putAll (b : Bindings) (entries : List (Value × Value)) : Bindings :=
  entries.foldl (fun b e => b.put e.1 e.2) b

/-- The table of a list of entries, of which the last under a name counts. -/
def ofEntries (entries : List (Value × Value)) : Bindings := putAll [] entries

end Bindings
end Reckoner
