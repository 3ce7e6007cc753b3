import Reckoner.Number.Binary64

/-!
# The shortest decimal of a float

A float is written with the fewest significant digits that read back as the same float. Among decimals of
that length the nearest is taken, and of two equally near ones the one with the even last digit. The search
runs over the grids of one, two, up to seventeen digits in exact arithmetic.
-/

namespace Reckoner.Shortest
open Binary64

/-- The decimal `0.d₁d₂…dₙ * 10 ^ point`, its digits given as the number `d₁d₂…dₙ` of length `count`. -/
structure Decimal where
  digits : Nat
  count : Nat
  point : Int
  deriving Repr, DecidableEq

/-- The reals that round to a float: a quarter of the denominator `den` is the unit of all three bounds,
    and the ends belong to the interval when `closed` says so. -/
structure Interval where
  low : Nat
  value : Nat
  high : Nat
  den : Nat
  closed : Bool

/-- The interval of a positive finite float. Below a power of two the floats lie half as far apart. -/
def Interval.of (x : Float) : Interval :=
  let m := significand x
  let e := power x
  let gap := if m = Nat.pow 2 52 ∧ e ≠ -1074 then 1 else 2
  let up := if 0 ≤ e then Nat.pow 2 e.toNat else 1
  let down := if 0 ≤ e then 4 else 4 * Nat.pow 2 (-e).toNat
  ⟨(4 * m - gap) * up, 4 * m * up, (4 * m + 2) * up, down, decide (m % 2 = 0)⟩

/-- The point `num / den` lies in the interval. -/
def Interval.holds (i : Interval) (num den : Nat) : Bool :=
  if i.closed then decide (i.low * den ≤ num * i.den ∧ num * i.den ≤ i.high * den)
  else decide (i.low * den < num * i.den ∧ num * i.den < i.high * den)

/-- The number `p` for which `10 ^ (p - 1) ≤ num / den < 10 ^ p`. -/
def pointOf (num den : Nat) : Int :=
  let reaches (p : Int) : Bool :=
    if 0 ≤ p then decide (den * Nat.pow 10 p.toNat ≤ num) else decide (den ≤ num * Nat.pow 10 (-p).toNat)
  let guess := ((num.log2 : Int) - den.log2 - 1) * 30103 / 100000
  if reaches (guess + 2) then guess + 3
  else if reaches (guess + 1) then guess + 2
  else if reaches guess then guess + 1
  else guess

/-- The grid point of `count` digits in the interval that is nearest to the value, if there is one. -/
def Interval.onGrid? (i : Interval) (point : Int) (count : Nat) : Option Decimal :=
  let step := point - count
  -- the grid has the spacing `a / b`, the value is `n / d` of it
  let a := if 0 ≤ step then Nat.pow 10 step.toNat else 1
  let b := if 0 ≤ step then 1 else Nat.pow 10 (-step).toNat
  let n := i.value * b
  let d := i.den * a
  let below := n / d
  let rest := n % d
  let preferAbove := decide (d < 2 * rest) || (decide (2 * rest = d) && decide (below % 2 = 1))
  let first := if preferAbove then below + 1 else below
  let second := if preferAbove then below else below + 1
  if first ≠ 0 ∧ i.holds (first * a) b then some ⟨first, count, point⟩
  else if second ≠ 0 ∧ i.holds (second * a) b then some ⟨second, count, point⟩
  else none

/-- The first grid with a hit, from `count` digits on. -/
def Interval.search (i : Interval) (point : Int) : (tries count : Nat) → Decimal
  | 0, count => ⟨0, count, point⟩
  | tries + 1, count => (i.onGrid? point count).getD (i.search point tries (count + 1))

/-- The shortest decimal that reads back as the given positive finite float. -/
def shortest (x : Float) : Decimal :=
  let i := Interval.of x
  i.search (pointOf i.value i.den) 17 1

end Reckoner.Shortest
