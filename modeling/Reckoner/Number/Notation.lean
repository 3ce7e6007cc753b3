import Reckoner.Number.Shortest

/-!
# How numbers are written

Floats are written by their shortest decimal. It stands in positional notation from `0.0001` up to sixteen
digits before the point, and with an exponent of at least two digits elsewhere. A float keeps a point
(`1.0`), the parts of a complex number drop it (`1`).
-/

namespace Reckoner.Notation
open Binary64 Shortest

/-- The digits of a natural number. -/
def natural (n : Nat) : List Char := Nat.toDigits 10 n

/-- An integer with its sign. -/
def integer (n : Int) : String :=
  String.ofList (if n < 0 then '-' :: natural n.natAbs else natural n.natAbs)

/-- An exponent with its sign and at least two digits. -/
def exponent (e : Int) : List Char :=
  let ds := natural e.natAbs
  (if e < 0 then '-' else '+') :: (if ds.length < 2 then '0' :: ds else ds)

/-- The digits of a decimal without trailing zeros. -/
def significant (d : Decimal) : List Char :=
  ((natural d.digits).reverse.dropWhile (· == '0')).reverse

/-- The decimal as text, where `whole` is put behind a number without fraction. -/
def decimal (d : Decimal) (whole : List Char) : List Char :=
  let ds := significant d
  -- a grid point one above the last of `count` digits has a digit more
  let point := d.point + ((natural d.digits).length - d.count : Nat)
  if -4 < point ∧ point ≤ 16 then
    if point ≤ 0 then '0' :: '.' :: List.replicate (-point).toNat '0' ++ ds
    else
      let p := point.toNat
      if ds.length ≤ p then ds ++ List.replicate (p - ds.length) '0' ++ whole
      else ds.take p ++ '.' :: ds.drop p
  else
    let mantissa := match ds with
      | [] => []
      | [d] => [d]
      | d :: rest => d :: '.' :: rest
    mantissa ++ 'e' :: exponent (point - 1)

/-- The text of a float's magnitude. -/
def magnitude (x : Float) (whole : List Char) : List Char :=
  if x.isNaN then "nan".toList
  else if !isFinite x then "inf".toList
  else if significand x = 0 then '0' :: whole
  else decimal (shortest x.abs) whole

/-- A NaN is written without a sign. -/
def isMinus (x : Float) : Bool := isNegative x && !x.isNaN

/-- A float. -/
def real (x : Float) : String :=
  let text := magnitude x ".0".toList
  String.ofList (if isMinus x then '-' :: text else text)

/-- A part of a complex number: no point without a fraction. -/
def part (x : Float) : List Char :=
  if isMinus x then '-' :: magnitude x [] else magnitude x []

/-- A complex number, in brackets unless its real part is the positive zero. -/
def complex (re im : Float) : String :=
  if re == 0 && !isNegative re then String.ofList (part im ++ ['j'])
  else
    let imaginary := if isMinus im then part im else '+' :: part im
    String.ofList ('(' :: part re ++ imaginary ++ ['j', ')'])

end Reckoner.Notation
