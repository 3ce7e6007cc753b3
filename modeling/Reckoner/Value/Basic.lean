import Reckoner.Number.ComplexFloat

/-!
# Values

What tokens carry and expressions evaluate to. Besides numbers, truth values and texts there are the absent
value and lists; no operation of an expression makes one, but both can be put into a token or a binding.
-/

namespace Reckoner

/-- A value of an expression. -/
inductive Value where
  | null
  | bool (b : Bool)
  | int (n : Int)
  | real (x : Float)
  | complex (z : ComplexFloat)
  | text (s : String)
  | list (items : List Value)

instance : Inhabited Value := ⟨.null⟩

namespace Value

/-- A number; truth values do not count. -/
def isNumber : Value → Bool
  | .int _ | .real _ | .complex _ => true
  | _ => false

/-- Every value has a truth value: zeros, empty texts and lists and the absent value are false. -/
def isTrue : Value → Bool
  | .null => false
  | .bool b => b
  | .int n => n != 0
  | .real x => x != 0
  | .complex z => !z.isZero
  | .text s => !s.isEmpty
  | .list items => !items.isEmpty

/-- The name of a value's kind. -/
def kindName : Value → String
  | .null => "NoneType"
  | .bool _ => "bool"
  | .int _ => "int"
  | .real _ => "float"
  | .complex _ => "complex"
  | .text _ => "str"
  | .list _ => "list"

end Value
end Reckoner
