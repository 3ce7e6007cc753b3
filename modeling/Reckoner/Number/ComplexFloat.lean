import Reckoner.Number.Binary64

/-!
# Complex numbers of floats

Sum, product and quotient of complex numbers in floating point. The quotient divides through by the larger
part of the divisor, so that no square can overflow. Powers with a small whole exponent are repeated
products, all others go through the polar form.
-/

namespace Reckoner
open Binary64

/-- A complex number with float parts. -/
structure ComplexFloat where
  re : Float
  im : Float

namespace ComplexFloat

/-- The float as a complex number. -/
def ofReal (x : Float) : ComplexFloat := ⟨x, 0⟩

/-- The number one. -/
def one : ComplexFloat := ⟨1, 0⟩

/-- The sum, part by part. -/
def add (z w : ComplexFloat) : ComplexFloat := ⟨z.re + w.re, z.im + w.im⟩

/-- The difference, part by part. -/
def sub (z w : ComplexFloat) : ComplexFloat := ⟨z.re - w.re, z.im - w.im⟩

/-- The product, with each part rounded three times. -/
def mul (z w : ComplexFloat) : ComplexFloat :=
  ⟨z.re * w.re - z.im * w.im, z.re * w.im + z.im * w.re⟩

/-- Equality of the parts: a NaN differs from everything, the zeros are equal. -/
def same (z w : ComplexFloat) : Bool := z.re == w.re && z.im == w.im

/-- Both parts are zero. -/
def isZero (z : ComplexFloat) : Bool := z.re == 0 && z.im == 0

/-- A part is infinite. -/
def isInfinite (z : ComplexFloat) : Bool := z.re.isInf || z.im.isInf

/-- The quotient, unless the divisor is zero. -/
def div? (z w : ComplexFloat) : Option ComplexFloat :=
  let a := if w.re < 0 then -w.re else w.re
  let b := if w.im < 0 then -w.im else w.im
  if b ≤ a then
    if a == 0 then none
    else
      let ratio := w.im / w.re
      let d := w.re + w.im * ratio
      some ⟨(z.re + z.im * ratio) / d, (z.im - z.re * ratio) / d⟩
  else if a ≤ b then
    let ratio := w.re / w.im
    let d := w.re * ratio + w.im
    some ⟨(z.re * ratio + z.im) / d, (z.im * ratio - z.re) / d⟩
  else some ⟨nan, nan⟩

/-- The product of `acc` with `square` raised to `n`; `fuel` bounds the binary digits of `n`. -/
def powerLoop (acc square : ComplexFloat) : (fuel n : Nat) → ComplexFloat
  | 0, _ => acc
  | fuel + 1, n =>
    if n = 0 then acc
    else powerLoop (if n % 2 = 1 then acc.mul square else acc) (square.mul square) fuel (n / 2)

/-- The power with a natural exponent, by repeated squaring from the last binary digit on. -/
def powNat (z : ComplexFloat) (n : Nat) : ComplexFloat := powerLoop one z (n + 1) n

/-- The length of the hypotenuse of sides that can be squared, the longer one first, corrected once. -/
def hypotenuse (a b : Float) : Float :=
  let h := (a * a + b * b).sqrt
  let correction :=
    if h ≤ 2 * b then
      let d := h - b
      a * (2 * d - a) + (d - 2 * (a - b)) * d
    else
      let d := h - a
      2 * d * (a - 2 * b) + ((4 * d - b) * b + d * d)
  h - correction / (2 * h)

/-- The absolute value. Sides that are too long or too short for squares are scaled by `2 ^ 600`, a side
    that cannot change the result is only added. -/
def abs (z : ComplexFloat) : Float :=
  if z.isInfinite then infinity
  else if z.re.isNaN || z.im.isNaN then z.re + z.im
  else
    let x := z.re.abs
    let y := z.im.abs
    let a := if x < y then y else x
    let b := if x < y then x else y
    let scale := nearest false 1 (Nat.pow 2 600)
    let negligible := nearest false 1 (Nat.pow 2 54)
    if nearest false (Nat.pow 2 511) 1 < a then
      if b ≤ a * negligible then a + b else hypotenuse (a * scale) (b * scale) / scale
    else if b < nearest false 1 (Nat.pow 2 459) then
      if b / negligible ≤ a then a + b else hypotenuse (a / scale) (b / scale) * scale
    else if b ≤ a * negligible then a + b
    else hypotenuse a b

/-- The power through the polar form. Zero has none with a negative or complex exponent, and there is none
    with an infinite angle. -/
def polarPow? (z w : ComplexFloat) : Option ComplexFloat :=
  if w.isZero then some one
  else if z.isZero then
    if w.im != 0 || w.re < 0 then none else some ⟨0, 0⟩
  else
    let r := z.abs
    let angle := z.im.atan2 z.re
    let length := r.pow w.re
    let phase := angle * w.re
    let (length, phase) :=
      if w.im != 0 then (length / (angle * w.im).exp, phase + w.im * r.log) else (length, phase)
    if phase.isInf then none else some ⟨length * phase.cos, length * phase.sin⟩

/-- The exponent is a whole number of at most a hundred. -/
def isSmallWhole (w : ComplexFloat) : Bool :=
  w.im == 0 && w.re == w.re.floor && w.re.abs ≤ 100

/-- The power, if there is one. -/
def pow? (z w : ComplexFloat) : Option ComplexFloat :=
  if w.isSmallWhole then
    let n := truncInt w.re
    if 0 < n then some (z.powNat n.toNat) else one.div? (z.powNat n.natAbs)
  else z.polarPow? w

end ComplexFloat
end Reckoner
