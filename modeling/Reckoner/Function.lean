import Reckoner.Pattern
import Reckoner.Text.Case

/-!
# User functions

A user function has a name in lower case, a signature of argument shapes, the category of the token it
returns and a body on the values of its arguments. A registry keeps functions by name in the order in which
their names were first registered.
-/

namespace Reckoner

/-- The shape of an argument: a token of a category, or what a matcher takes. -/
inductive Shape where
  | category (c : Category)
  | matcher (name : String)
  deriving DecidableEq, Repr

/-- What a function does with its arguments, and the label under which listings show it. -/
structure Body where
  label : String
  run : List Value → Outcome Value

/-- A user function. -/
structure UserFunction where
  name : String
  returns : Category
  signature : List Shape
  body : Body

/-- The matcher of a shape. -/
def Shape.matcher? : Shape → Outcome Matcher
  | .category c => .ok (.of c [])
  | .matcher name =>
    match Matcher.named? name with
    | some m => .ok m
    | none => .error (.unknownShape name)

namespace UserFunction

/-- The function of a name in any letter case. -/
def make (name : String) (returns : Category) (signature : List Shape) (body : Body) : UserFunction :=
  ⟨Text.lower name, returns, signature, body⟩

/-- The shapes of the arguments with commas between them. -/
def shapes (f : UserFunction) : List Shape := f.signature.intersperse (.category .comma)

/-- The pattern of a call, unless a shape is unknown. -/
def pattern (f : UserFunction) : Outcome Pattern := do
  let arguments ← f.shapes.mapM Shape.matcher?
  .ok (Pattern.call f.name arguments)

/-- The tokens of a call that are arguments: behind the name and the opening bracket, in front of the closing
    one, and no delimiters. -/
def argumentsOf (call : Stream) : Stream := (call.dropLast.drop 2).filter fun t => !t.isDelimiter

end UserFunction

/-- Functions with different names. -/
structure Registry where
  functions : List UserFunction := []

namespace Registry

/-- The function that replaces the one of its name in a list, or is put behind the others. -/
def replaceIn (f : UserFunction) : List UserFunction → List UserFunction
  | [] => [f]
  | g :: rest => if g.name == f.name then f :: rest else g :: replaceIn f rest

/-- The registry with a function; a name keeps the place of its first registration. -/
def register (r : Registry) (f : UserFunction) : Registry := ⟨replaceIn f r.functions⟩

/-- The function of a name in any letter case. -/
def lookup? (r : Registry) (name : String) : Option UserFunction :=
  r.functions.find? (·.name == Text.lower name)

/-- The names in the order of their first registration. -/
def names (r : Registry) : List String := r.functions.map (·.name)

end Registry
end Reckoner
