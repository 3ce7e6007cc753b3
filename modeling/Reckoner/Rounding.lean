import Reckoner.Value.Arithmetic

/-!
# Rounding

Rounding to a number of decimal places: the value is scaled by a power of ten, cut off or rounded up,
depending on how the part behind the point compares with a threshold, and scaled back. The part behind the
point of a negative value is negative, so that negative values are cut off. Rounding up and down to
integers is exact.
-/

namespace Reckoner.Rounding
open Binary64

/-- The threshold from which on the part behind the point is rounded up. -/
def half : Float := 0.5

/-- The number of decimal places that a value stands for. -/
def places (v : Value) : Outcome Int :=
  match v with
  | .text s =>
    match Reading.integer? s.toList with
    | some n => .ok n
    | none => .error .invalidArgument
  | v => v.wholePart

/-- The power of ten that scales a value to a number of decimal places. -/
def scaleTo (p : Int) : Outcome Float := do
  match ← Number.realPow 10 (← Number.realOfInt p) with
  | .real x => .ok x
  | _ => .error .typeMismatch

/-- The part behind the point reaches the threshold. -/
def reaches (fraction threshold : Value) : Outcome Bool :=
  (fraction.order threshold).map fun o => o == some .gt || o == some .eq

/-- A scaled float rounded and scaled back. -/
def rescale (scaled scale : Float) (threshold : Value) : Outcome Float :=
  let cut := truncate scaled
  (reaches (.real (scaled - cut)) threshold).map fun up => (if up then scaled.ceil else cut) / scale

/-- A scaled integer scaled back; it has nothing behind the point. -/
def rescaleInt (scaled : Int) (scale : Float) (threshold : Value) : Outcome Float := do
  let _ ← reaches (.int 0) threshold
  let x ← Number.realOfInt scaled
  .ok (x / scale)

/-- Lists have no rounded value. Lists of numbers fail by their shape, all other lists by their values. -/
def ofList (items : List Value) (copies : Nat) : Failure :=
  let countable (v : Value) : Bool := match v with
    | .int _ | .real _ | .bool _ => true
    | _ => false
  let isBool (v : Value) : Bool := match v with
    | .bool _ => true
    | _ => false
  if items.isEmpty then .invalidArgument
  else if !items.all countable || items.all isBool || items.length * copies = 1 then .typeMismatch
  else .invalidArgument

/-- A value rounded to decimal places, given as a value too. Only numbers that are not complex, and truth
    values, have a rounded value. -/
def toPlaces (v placesValue threshold : Value) : Outcome Float := do
  let p ← places placesValue
  let scale ← scaleTo p
  let factor : Value := if 0 ≤ p then .int (Nat.pow 10 p.toNat) else .real scale
  match v with
  | .list items =>
    if p < 0 then .error .typeMismatch
    else if 19 ≤ p then .error .overflow
    else .error (ofList items (Nat.pow 10 p.toNat))
  | v =>
    match ← v.mul factor with
    | .int n => rescaleInt n scale threshold
    | .real x => rescale x scale threshold
    | _ => .error .typeMismatch

/-- An integer in a signed word of 64 bits rounded to decimal places. The power of ten has to fit into a word,
    too, and their product wraps around. -/
def wordToPlaces (w : Int64) (placesValue threshold : Value) : Outcome Float := do
  let p ← places placesValue
  let scale ← scaleTo p
  if p < 0 then toPlaces (.int w.toInt) placesValue threshold
  else if 19 ≤ p then .error .overflow
  else rescaleInt (w * 10 ^ p.toNat).toInt scale threshold

/-- The least integer that is not below a value. -/
def up : Value → Outcome Int
  | .bool b => .ok (if b then 1 else 0)
  | .int n => .ok n
  | .real x =>
    if x.isNaN then .error .invalidArgument
    else if x.isInf then .error .overflow
    else .ok (ceilInt x)
  | _ => .error .typeMismatch

/-- The greatest integer that is not above a value. -/
def down : Value → Outcome Int
  | .bool b => .ok (if b then 1 else 0)
  | .int n => .ok n
  | .real x =>
    if x.isNaN then .error .invalidArgument
    else if x.isInf then .error .overflow
    else .ok (floorInt x)
  | _ => .error .typeMismatch

end Reckoner.Rounding
