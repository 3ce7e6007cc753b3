import Reckoner.Value.Arithmetic

/-!
# Operations on two operands

The six arithmetic operations, the six comparisons and the two connectives. Each is known to the tokens by
its name, and gives a value together with the category of the token that carries it.
-/

namespace Reckoner

/-- An operation on two operands. -/
inductive Operation where
  | add
  | subtract
  | multiply
  | divide
  | mod
  | pow
  | lt
  | le
  | gt
  | ge
  | eq
  | ne
  | and
  | or
  deriving DecidableEq, Repr

namespace Operation

/-- All operations. -/
def all : List Operation :=
  [.add, .subtract, .multiply, .divide, .mod, .pow, .lt, .le, .gt, .ge, .eq, .ne, .and, .or]

/-- The name by which tokens call the operation. -/
def name : Operation → String
  | .add => "add"
  | .subtract => "subtract"
  | .multiply => "multiply"
  | .divide => "divide"
  | .mod => "mod"
  | .pow => "pow"
  | .lt => "lt"
  | .le => "le"
  | .gt => "gt"
  | .ge => "ge"
  | .eq => "eq"
  | .ne => "ne"
  | .and => "and"
  | .or => "or"

/-- The operation of a name. -/
def ofName? (s : String) : Option Operation := all.find? (·.name == s)

/-- There is an operation of the name. -/
def supports (s : String) : Bool := (ofName? s).isSome

/-- Arithmetic gives numbers, everything else truth values. -/
def category : Operation → Category
  | .add | .subtract | .multiply | .divide | .mod | .pow => .numeric
  | _ => .logical

/-- The quotient of two integers stays an integer if nothing remains. -/
def quotient (v w : Value) : Outcome Value :=
  match v.integer?, w.integer? with
  | some a, some b => if b ≠ 0 ∧ a.fmod b = 0 then .ok (.int (a.fdiv b)) else v.div w
  | _, _ => v.div w

/-- A comparison of two values by their order; values without an order compare as false. -/
def comparison (holds : Ordering → Bool) (v w : Value) : Outcome Value :=
  (v.order w).map fun o => .bool ((o.map holds).getD false)

/-- The value of the operation. -/
def apply : Operation → Value → Value → Outcome Value
  | .add, v, w => v.add w
  | .subtract, v, w => v.sub w
  | .multiply, v, w => v.mul w
  | .divide, v, w => quotient v w
  | .mod, v, w => v.mod w
  | .pow, v, w => v.pow w
  | .lt, v, w => comparison (· == .lt) v w
  | .le, v, w => comparison (· != .gt) v w
  | .gt, v, w => comparison (· == .gt) v w
  | .ge, v, w => comparison (· != .lt) v w
  | .eq, v, w => .ok (.bool (v.same w))
  | .ne, v, w => .ok (.bool (!v.same w))
  | .and, v, w => .ok (.bool (v.isTrue && w.isTrue))
  | .or, v, w => .ok (.bool (v.isTrue || w.isTrue))

/-- The token that the operation gives. -/
def token (op : Operation) (v w : Value) : Outcome Token := (op.apply v w).map (⟨op.category, ·⟩)

/-- The operation that a value names. -/
def named (name : Value) : Outcome Operation :=
  match name with
  | .list _ => .error .typeMismatch
  | .text s =>
    match ofName? s with
    | some op => .ok op
    | none => .error (.unknownOperator name)
  | _ => if name.isWritable then .error (.unknownOperator name) else .error .longInteger

end Operation
end Reckoner
