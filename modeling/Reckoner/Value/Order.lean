import Reckoner.Number.Arithmetic

/-!
# Equality and order of values

Two values are the same if they are equal as numbers, truth values counting as zero and one, or are equal
texts or lists of the same values. Numbers, texts and lists are ordered among themselves: texts by their
code points, lists by the first place where they differ.
-/

namespace Reckoner.Value

/-- The number a value stands for in arithmetic; a truth value is one or zero. -/
def number? : Value → Option Number
  | .bool b => some (.int (if b then 1 else 0))
  | .int n => some (.int n)
  | .real x => some (.real x)
  | .complex z => some (.complex z)
  | _ => none

mutual

/-- Equality of values. -/
def same : Value → Value → Bool
  | .null, .null => true
  | .text s, .text t => s == t
  | .list xs, .list ys => allSame xs ys
  | v, w =>
    match v.number?, w.number? with
    | some a, some b => a.same b
    | _, _ => false

/-- Equality of lists, place by place. -/
def allSame : List Value → List Value → Bool
  | [], [] => true
  | x :: xs, y :: ys => x.same y && allSame xs ys
  | _, _ => false

end

/-- The order of texts by code points. -/
def orderTexts (s t : String) : Ordering := if s < t then .lt else if s == t then .eq else .gt

mutual

/-- The order of two values, if they have one; values of different kinds cannot be compared. -/
def order : Value → Value → Outcome (Option Ordering)
  | .text s, .text t => .ok (some (orderTexts s t))
  | .list xs, .list ys => orderLists xs ys
  | v, w =>
    match v.number?, w.number? with
    | some a, some b => a.order b
    | _, _ => .error .typeMismatch

/-- The order of two lists: that of the first values that differ, or else of the lengths. -/
def orderLists : List Value → List Value → Outcome (Option Ordering)
  | [], [] => .ok (some .eq)
  | [], _ :: _ => .ok (some .lt)
  | _ :: _, [] => .ok (some .gt)
  | x :: xs, y :: ys => if x.same y then orderLists xs ys else x.order y

end

/-- A list of values holds a value. -/
def isIn (v : Value) (vs : List Value) : Bool := vs.any fun w => v.same w

/-- A value that can be the key of a table; lists cannot. -/
def isKey : Value → Bool
  | .list _ => false
  | _ => true

end Reckoner.Value
