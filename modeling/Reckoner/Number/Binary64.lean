/-!
# The exact value of a float

A finite double is a signed natural number times a power of two. This file reads the two parts off the
bits, gives the double nearest to a quotient of natural numbers, and derives from both what integers and
floats need of one another: conversion, comparison, truncation and remainder.
-/

namespace Reckoner.Binary64

/-! ### The fields -/

/-- The bits of a double as a natural number. -/
def word (x : Float) : Nat := x.toBits.toNat

/-- The sign bit, set also for the negative zero. -/
def isNegative (x : Float) : Bool := decide (Nat.pow 2 63 ≤ word x)

/-- The eleven bits of the exponent, biased by 1023. -/
def exponentField (x : Float) : Nat := word x / Nat.pow 2 52 % Nat.pow 2 11

/-- The 52 bits of the fraction. -/
def fractionField (x : Float) : Nat := word x % Nat.pow 2 52

/-- Infinities and the NaNs have all bits of the exponent set. -/
def isFinite (x : Float) : Bool := decide (exponentField x ≠ 2047)

/-- The natural number `m` of the magnitude `m * 2 ^ power`. -/
def significand (x : Float) : Nat :=
  if exponentField x = 0 then fractionField x else fractionField x + Nat.pow 2 52

/-- The exponent `e` of the magnitude `significand * 2 ^ e`. -/
def power (x : Float) : Int :=
  if exponentField x = 0 then -1074 else (exponentField x : Int) - 1075

/-- The magnitude of a finite double, as numerator and denominator. -/
def magnitude (x : Float) : Nat × Nat :=
  if 0 ≤ power x then (significand x * Nat.pow 2 (power x).toNat, 1)
  else (significand x, Nat.pow 2 (-power x).toNat)

/-- The signed numerator that goes with the denominator of `magnitude`. -/
def numerator (x : Float) : Int :=
  if isNegative x then -((magnitude x).1 : Int) else (magnitude x).1

/-- The positive denominator of the exact value of a finite double. -/
def denominator (x : Float) : Nat := (magnitude x).2

/-! ### The nearest double -/

/-- The positive infinity. -/
def infinity : Float := Float.ofBits 0x7ff0000000000000

/-- The quiet NaN. -/
def nan : Float := Float.ofBits 0x7ff8000000000000

/-- A quotient rounded to the nearest natural number, a half to the even neighbour. -/
def roundQuotient (num den : Nat) : Nat :=
  let q := num / den
  let r := num % den
  if 2 * r < den then q
  else if den < 2 * r then q + 1
  else if q % 2 = 0 then q else q + 1

/-- The quotient `num / den * 2 ^ (-e)` rounded to the nearest natural number. -/
def roundScaled (num den : Nat) (e : Int) : Nat :=
  if 0 ≤ e then roundQuotient num (den * Nat.pow 2 e.toNat)
  else roundQuotient (num * Nat.pow 2 (-e).toNat) den

/-- The exponent at which the quotient has 53 bits before the point, but no less than the least one. -/
def fittingPower (num den : Nat) : Int :=
  let e := (num.log2 : Int) - den.log2 - 53
  let whole := if 0 ≤ e then num / (den * Nat.pow 2 e.toNat) else num * Nat.pow 2 (-e).toNat / den
  max (-1074) (if Nat.pow 2 53 ≤ whole then e + 1 else e)

/-- The bits of the double nearest to a positive quotient; beyond the greatest double those of infinity. -/
def nearestBits (num den : Nat) : Nat :=
  let e := fittingPower num den
  let m := roundScaled num den e
  let bits := if m < Nat.pow 2 52 then m else (e + 1074).toNat * Nat.pow 2 52 + m
  min bits (2047 * Nat.pow 2 52)

/-- The double nearest to `num / den` with the given sign, ties to the even significand. -/
def nearest (negative : Bool) (num den : Nat) : Float :=
  let bits := if num = 0 then 0 else nearestBits num den
  Float.ofBits (UInt64.ofNat (if negative then Nat.pow 2 63 + bits else bits))

/-- The double nearest to an integer, unless that lies beyond the greatest double. -/
def ofInt? (n : Int) : Option Float :=
  let x := nearest (decide (n < 0)) n.natAbs 1
  if isFinite x then some x else none

/-- The double nearest to a quotient of integers, unless that lies beyond the greatest double. -/
def ofQuotient? (a b : Int) : Option Float :=
  let x := nearest (decide (a < 0) != decide (b < 0)) a.natAbs b.natAbs
  if isFinite x then some x else none

/-! ### Integers and floats together -/

/-- The order of an integer and a float by their exact values; a NaN has none. -/
def compareInt? (n : Int) (x : Float) : Option Ordering :=
  if x.isNaN then none
  else if isFinite x then some (compare (n * denominator x) (numerator x))
  else some (if isNegative x then .gt else .lt)

/-- The greatest integer that is not above a finite float. -/
def floorInt (x : Float) : Int := (numerator x).fdiv (denominator x)

/-- The least integer that is not below a finite float. -/
def ceilInt (x : Float) : Int := -(-(numerator x)).fdiv (denominator x)

/-- A finite float without its fraction. -/
def truncInt (x : Float) : Int := (numerator x).tdiv (denominator x)

/-- A float without its fraction, as a float that keeps its sign. -/
def truncate (x : Float) : Float := if x < 0 then x.ceil else x.floor

/-- The magnitude of `x` with the sign of `y`. -/
def copySign (x y : Float) : Float := if isNegative y then -x.abs else x.abs

/-- The remainder of a division that truncates; it has the sign of the dividend and is exact. -/
def truncatedMod (x y : Float) : Float :=
  if x.isNaN || y.isNaN || !isFinite x || significand y = 0 then nan
  else if !isFinite y then x
  else
    let e := min (power x) (power y)
    let a := significand x * Nat.pow 2 (power x - e).toNat
    let b := significand y * Nat.pow 2 (power y - e).toNat
    let r := a % b
    if 0 ≤ e then nearest (isNegative x) (r * Nat.pow 2 e.toNat) 1
    else nearest (isNegative x) r (Nat.pow 2 (-e).toNat)

/-- The remainder of a division that rounds down; it has the sign of the divisor, a zero included. -/
def flooredMod (x y : Float) : Float :=
  let r := truncatedMod x y
  if r == 0 then copySign 0 y
  else if decide (y < 0) != decide (r < 0) then r + y
  else r

/-- The float is an odd integer. -/
def isOddInteger (x : Float) : Bool :=
  isFinite x && decide ((numerator x) % (2 * denominator x) = denominator x)

end Reckoner.Binary64
