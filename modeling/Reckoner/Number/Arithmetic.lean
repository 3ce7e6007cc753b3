import Reckoner.Failure

/-!
# Arithmetic of mixed numbers

Integers are exact and unbounded, floats are doubles, complex numbers have float parts. An operation on two
kinds works in the wider one. An integer that becomes a float takes the nearest one and fails if there is
none; comparisons between integers and floats are exact.
-/

namespace Reckoner
open Binary64

/-- A number of one of the three kinds. -/
inductive Number where
  | int (n : Int)
  | real (x : Float)
  | complex (z : ComplexFloat)

namespace Number

/-! ### Conversions -/

/-- An integer as the nearest float. -/
def realOfInt (n : Int) : Outcome Float :=
  match ofInt? n with
  | some x => .ok x
  | none => .error .overflow

/-- A number as a complex one. -/
def toComplex : Number → Outcome ComplexFloat
  | .int n => (realOfInt n).map .ofReal
  | .real x => .ok (.ofReal x)
  | .complex z => .ok z

/-- An operation on two numbers, given by its forms on two integers, two floats and two complex numbers. -/
def combine {α : Type} (onInts : Int → Int → Outcome α) (onReals : Float → Float → Outcome α)
    (onComplexes : ComplexFloat → ComplexFloat → Outcome α) : Number → Number → Outcome α
  | .int a, .int b => onInts a b
  | .int a, .real y => do onReals (← realOfInt a) y
  | .real x, .int b => do onReals x (← realOfInt b)
  | .real x, .real y => onReals x y
  | a, b => do
    let z ← a.toComplex
    let w ← b.toComplex
    onComplexes z w

/-! ### The four operations -/

/-- The sum. -/
def add : Number → Number → Outcome Number :=
  combine (fun a b => .ok (.int (a + b))) (fun x y => .ok (.real (x + y))) (fun z w => .ok (.complex (z.add w)))

/-- The difference. -/
def sub : Number → Number → Outcome Number :=
  combine (fun a b => .ok (.int (a - b))) (fun x y => .ok (.real (x - y))) (fun z w => .ok (.complex (z.sub w)))

/-- The product. -/
def mul : Number → Number → Outcome Number :=
  combine (fun a b => .ok (.int (a * b))) (fun x y => .ok (.real (x * y))) (fun z w => .ok (.complex (z.mul w)))

/-- The quotient of two integers as a float. -/
def quotient (a b : Int) : Outcome Float :=
  if b = 0 then .error .divisionByZero
  else match ofQuotient? a b with
    | some x => .ok x
    | none => .error .overflow

/-- The quotient, a float also for integers. -/
def div : Number → Number → Outcome Number :=
  combine (fun a b => (quotient a b).map .real)
    (fun x y => if y == 0 then .error .divisionByZero else .ok (.real (x / y)))
    (fun z w => match z.div? w with
      | some q => .ok (.complex q)
      | none => .error .divisionByZero)

/-- The remainder of the division that rounds down; complex numbers have none. -/
def mod (a b : Number) : Outcome Number :=
  match a, b with
  | .complex _, _ | _, .complex _ => .error .typeMismatch
  | a, b =>
    combine (fun a b => if b = 0 then .error .divisionByZero else .ok (.int (a.fmod b)))
      (fun x y => if y == 0 then .error .divisionByZero else .ok (.real (flooredMod x y)))
      (fun _ _ => .error .typeMismatch) a b

/-! ### Powers -/

/-- The power of complex numbers; an infinite part is an overflow. -/
def complexPow (z w : ComplexFloat) : Outcome Number :=
  match z.pow? w with
  | none => .error .divisionByZero
  | some p => if p.isInfinite then .error .overflow else .ok (.complex p)

/-- The power of a positive finite base other than one with a finite exponent other than zero. -/
def positivePow (negative : Bool) (x y : Float) : Outcome Number :=
  let p := x.pow y
  if p.isInf then .error .overflow else .ok (.real (if negative then -p else p))

/-- The power of a finite base other than zero with a finite exponent other than zero. A negative base with a
    fractional exponent has a complex power. -/
def finitePow (x y : Float) : Outcome Number :=
  if x < 0 then
    if y != y.floor then complexPow (.ofReal x) (.ofReal y)
    else
      let negative := isOddInteger y
      if x == -1 then .ok (.real (if negative then -1 else 1)) else positivePow negative (-x) y
  else if x == 1 then .ok (.real 1)
  else positivePow false x y

/-- The power of a base with an infinite exponent. -/
def powInfinite (x y : Float) : Float :=
  if x.abs == 1 then 1
  else if decide (0 < y) == decide (1 < x.abs) then infinity
  else 0

/-- The power of an infinite base. -/
def infinitePow (x y : Float) : Float :=
  let odd := isOddInteger y
  if 0 < y then (if odd then x else infinity)
  else if odd then copySign 0 x else 0

/-- The power of floats. -/
def realPow (x y : Float) : Outcome Number :=
  if y == 0 then .ok (.real 1)
  else if x.isNaN then .ok (.real x)
  else if y.isNaN then .ok (.real (if x == 1 then 1 else y))
  else if y.isInf then .ok (.real (powInfinite x y))
  else if x.isInf then .ok (.real (infinitePow x y))
  else if x == 0 then
    if y < 0 then .error .divisionByZero
    else .ok (.real (if isOddInteger y then x else 0))
  else finitePow x y

/-- The power of an integer with a natural exponent; the powers of one, zero and minus one are read off. -/
def natPow (a : Int) (n : Nat) : Int :=
  if a = 1 then 1
  else if a = -1 then (if n % 2 = 0 then 1 else -1)
  else if a = 0 then (if n = 0 then 1 else 0)
  else a.pow n

/-- The power of integers; one with a negative exponent is a float. -/
def intPow (a b : Int) : Outcome Number :=
  if 0 ≤ b then .ok (.int (natPow a b.toNat))
  else do
    let x ← realOfInt a
    let y ← realOfInt b
    realPow x y

/-- The power in the widest kind of base and exponent. -/
def pow : Number → Number → Outcome Number := combine intPow realPow complexPow

/-! ### Comparisons -/

/-- Equality by value, whatever the kinds. -/
def same : Number → Number → Bool
  | .int a, .int b => a == b
  | .int a, .real y => compareInt? a y == some .eq
  | .real x, .int b => compareInt? b x == some .eq
  | .real x, .real y => x == y
  | .complex z, .int b => z.im == 0 && compareInt? b z.re == some .eq
  | .int a, .complex w => w.im == 0 && compareInt? a w.re == some .eq
  | .complex z, .real y => z.im == 0 && z.re == y
  | .real x, .complex w => w.im == 0 && x == w.re
  | .complex z, .complex w => z.same w

/-- The order of two floats, which a NaN does not have. -/
def compareReals (x y : Float) : Option Ordering :=
  if x < y then some .lt else if x == y then some .eq else if y < x then some .gt else none

/-- The order of two numbers, if any; complex numbers cannot be compared. -/
def order : Number → Number → Outcome (Option Ordering)
  | .int a, .int b => .ok (some (compare a b))
  | .int a, .real y => .ok (compareInt? a y)
  | .real x, .int b => .ok ((compareInt? b x).map Ordering.swap)
  | .real x, .real y => .ok (compareReals x y)
  | _, _ => .error .typeMismatch

end Number
end Reckoner
