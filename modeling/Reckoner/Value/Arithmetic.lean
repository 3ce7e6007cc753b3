import Reckoner.Value.Template

/-!
# Arithmetic of values

Numbers are added, subtracted, multiplied, divided and raised to powers; truth values count as numbers.
Texts and lists can be joined and repeated, and a text can be a template for a value.
-/

namespace Reckoner
namespace Value

/-- The value of a number. -/
def ofNumber : Number → Value
  | .int n => .int n
  | .real x => .real x
  | .complex z => .complex z

/-- An operation that only numbers have. -/
def onNumbers (op : Number → Number → Outcome Number) (v w : Value) : Outcome Value :=
  match v.number?, w.number? with
  | some a, some b => (op a b).map ofNumber
  | _, _ => .error .typeMismatch

/-- The sum of numbers; texts and lists are joined. -/
def add : Value → Value → Outcome Value
  | .text s, .text t => .ok (.text (s ++ t))
  | .list xs, .list ys => .ok (.list (xs ++ ys))
  | v, w => onNumbers Number.add v w

/-- The difference of numbers. -/
def sub : Value → Value → Outcome Value := onNumbers Number.sub

/-- The number of repetitions of something of the given length; it has to be a machine integer. Memory is taken as
    unbounded: below that limit there is always a result, also if no machine could hold it, as for a text that is
    rounded to fifteen places and is repeated `10 ^ 15` times for it. -/
def repetitions (length : Nat) (n : Int) : Outcome Nat :=
  if n < -Nat.pow 2 63 ∨ Nat.pow 2 63 ≤ n ∨ Nat.pow 2 63 ≤ length * n then .error .overflow else .ok n.toNat

/-- A text or list repeated; something else is not. -/
def repeated? (v : Value) (n : Int) : Option (Outcome Value) :=
  match v with
  | .text s => some ((repetitions s.length n).map fun k =>
      .text (String.ofList (List.replicate k s.toList).flatten))
  | .list xs => some ((repetitions xs.length n).map fun k => .list (List.replicate k xs).flatten)
  | _ => none

/-- The product of numbers; a text or list is repeated by an integer on either side. -/
def mul (v w : Value) : Outcome Value :=
  let repetition : Option (Outcome Value) :=
    match v.number?, w.number? with
    | none, some (.int n) => v.repeated? n
    | some (.int n), none => w.repeated? n
    | _, _ => none
  repetition.getD (onNumbers Number.mul v w)

/-- The quotient of numbers. -/
def div : Value → Value → Outcome Value := onNumbers Number.div

/-- The power of numbers. -/
def pow : Value → Value → Outcome Value := onNumbers Number.pow

/-- The remainder of numbers; a text is a template, which is filled. -/
def mod : Value → Value → Outcome Value
  | .text s, w => fill s.toList w
  | v, w => onNumbers Number.mod v w

end Value
end Reckoner
