import Reckoner.Number.Notation

/-!
# Floats with a given number of digits

A float with a number of places behind the point, in positional notation or with one digit before the point
and an exponent, and a float with a number of significant digits, which uses either. The exact value is
rounded, a half to the even neighbour. A point without digits behind it is dropped unless it is to be kept.
-/

namespace Reckoner.Notation
open Binary64 Shortest

/-- A number of units of the last place, with the point put before that many places. -/
def withPoint (keepPoint : Bool) (places n : Nat) : List Char :=
  let ds := natural n
  let ds := List.replicate (places + 1 - ds.length) '0' ++ ds
  let whole := ds.take (ds.length - places)
  if places = 0 ∧ keepPoint = false then whole else whole ++ '.' :: ds.drop (ds.length - places)

/-- A finite magnitude rounded to so many digits, at least one, as the number of the digits and the exponent
    of the first one. -/
def leadingDigits (count : Nat) (x : Float) : Nat × Int :=
  let (num, den) := Binary64.magnitude x
  if num = 0 then (0, 0)
  else
    let e := pointOf num den - 1
    let step := e + 1 - count
    let n := if 0 ≤ step then roundQuotient num (den * Nat.pow 10 step.toNat)
      else roundQuotient (num * Nat.pow 10 (-step).toNat) den
    -- rounding up may add a digit, which is a zero then
    if Nat.pow 10 count ≤ n then (n / 10, e + 1) else (n, e)

/-- A finite magnitude in positional notation. -/
def fixedMagnitude (keepPoint : Bool) (places : Nat) (x : Float) : List Char :=
  withPoint keepPoint places
    (roundQuotient ((Binary64.magnitude x).1 * Nat.pow 10 places) (Binary64.magnitude x).2)

/-- A finite magnitude with an exponent. -/
def scientificMagnitude (keepPoint : Bool) (places : Nat) (x : Float) : List Char :=
  let (n, e) := leadingDigits (places + 1) x
  withPoint keepPoint places n ++ 'e' :: exponent e

/-- A number with a point without the zeros at its end, and without the point if nothing is behind it. -/
def dropTrailing (s : List Char) : List Char :=
  if s.contains '.' then
    let t := (s.reverse.dropWhile (· == '0'))
    (if t.head? == some '.' then t.drop 1 else t).reverse
  else s

/-- A finite magnitude with so many significant digits, positionally from `0.0001` up to that many digits
    before the point. Zeros at the end are dropped unless the point is kept. -/
def generalMagnitude (keepPoint : Bool) (digits : Nat) (x : Float) : List Char :=
  let count := max digits 1
  let (n, e) := leadingDigits count x
  let trim := if keepPoint then id else dropTrailing
  if -5 < e ∧ e < count then trim (withPoint keepPoint (count - 1 - e).toNat n)
  else trim (withPoint keepPoint (count - 1) n) ++ 'e' :: exponent e

/-- A magnitude by a notation for finite ones. -/
def magnitudeBy (write : Float → List Char) (x : Float) : List Char :=
  if isFinite x then write x else Notation.magnitude x []

/-- A float by a notation for finite magnitudes. -/
def realBy (write : Float → List Char) (x : Float) : List Char :=
  if isMinus x then '-' :: magnitudeBy write x else magnitudeBy write x

/-- A float with a fixed number of places. -/
def fixed (places : Nat) (x : Float) : List Char := realBy (fixedMagnitude false places) x

/-- A float with an exponent and a fixed number of places. -/
def scientific (places : Nat) (x : Float) : List Char := realBy (scientificMagnitude false places) x

end Reckoner.Notation
