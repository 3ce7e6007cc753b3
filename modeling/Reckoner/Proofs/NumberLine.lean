import Mathlib
import Reckoner.Number.Arithmetic

/-!
# The line of numbers

A finite double has an exact value, which its three fields give, and an infinite one lies at an end of the line of
numbers. Only a NaN has no place there. Doubles are ordered as their places are (`Binary64.compare_unpack`), and so are
integers, which lie on the same line (`Number.order_eq`).
-/

namespace Reckoner

/-- The rational numbers between both infinities. -/
abbrev Line := WithBot (WithTop ℚ)

namespace Line

def point (q : ℚ) : Line := ((q : WithTop ℚ) : WithBot (WithTop ℚ))

/-- The order of two places, if there are two. -/
def compare? (p q : Option Line) : Option Ordering := p.bind fun p => q.map fun q => cmp p q

@[simp] theorem cmp_point (p q : ℚ) : cmp (point p) (point q) = cmp p q := by
  have hmono : StrictMono point := fun _ _ h => WithBot.coe_lt_coe.mpr (WithTop.coe_lt_coe.mpr h)
  exact hmono.cmp_map_eq p q

theorem bot_lt_point (q : ℚ) : ⊥ < point q := WithBot.bot_lt_coe _

theorem point_lt_top (q : ℚ) : point q < ⊤ := WithBot.coe_lt_coe.mpr (WithTop.coe_lt_top q)

@[simp] theorem cmp_bot_point (q : ℚ) : cmp ⊥ (point q) = .lt := (cmp_eq_lt_iff ..).mpr (bot_lt_point q)

@[simp] theorem cmp_point_bot (q : ℚ) : cmp (point q) ⊥ = .gt := (cmp_eq_gt_iff ..).mpr (bot_lt_point q)

@[simp] theorem cmp_point_top (q : ℚ) : cmp (point q) ⊤ = .lt := (cmp_eq_lt_iff ..).mpr (point_lt_top q)

@[simp] theorem cmp_top_point (q : ℚ) : cmp ⊤ (point q) = .gt := (cmp_eq_gt_iff ..).mpr (point_lt_top q)

@[simp] theorem cmp_bot_top : cmp (⊥ : Line) ⊤ = .lt :=
  (cmp_eq_lt_iff ..).mpr ((bot_lt_point 0).trans (point_lt_top 0))

@[simp] theorem cmp_top_bot : cmp (⊤ : Line) ⊥ = .gt :=
  (cmp_eq_gt_iff ..).mpr ((bot_lt_point 0).trans (point_lt_top 0))

theorem compare?_points (p q : ℚ) : compare? (some (point p)) (some (point q)) = some (cmp p q) :=
  congrArg some (cmp_point p q)

theorem compare?_swap (p q : Option Line) : (compare? p q).map Ordering.swap = compare? q p := by
  cases p <;> cases q <;> simp [compare?, cmp_swap]

end Line

namespace Binary64
open Float.Model UnpackedFloat

/-! ### Exact values -/

/-- The number that the fields of a finite double stand for. -/
def exact (x : Float) : ℚ := (if isNegative x then -1 else 1) * (significand x * 2 ^ power x)

/-- The place of a double; a NaN has none. -/
def place? (x : Float) : Option Line :=
  if isFinite x then some (.point (exact x))
  else if fractionField x = 0 then some (if isNegative x then ⊥ else ⊤)
  else none

theorem magnitude_eq (x : Float) : ((magnitude x).1 : ℚ) / (magnitude x).2 = significand x * 2 ^ power x := by
  unfold magnitude
  split
  · rename_i h
    obtain ⟨n, hn⟩ := Int.eq_ofNat_of_zero_le h
    simp [hn]
  · rename_i h
    obtain ⟨n, hn⟩ := Int.eq_ofNat_of_zero_le (Int.le_of_lt (Int.neg_pos_of_neg (Int.not_le.mp h)))
    rw [← neg_neg (power x), hn]
    simp [div_eq_mul_inv]

theorem denominator_pos (x : Float) : 0 < denominator x := by
  unfold denominator magnitude
  split
  · exact Nat.one_pos
  · exact Nat.pos_of_ne_zero (by simp)

/-- The exact value as the quotient that integers are compared with. -/
theorem exact_eq (x : Float) : exact x = numerator x / denominator x := by
  rw [exact, ← magnitude_eq, numerator, denominator]
  cases isNegative x <;> simp [neg_div]

/-! ### Fields of unpacked doubles -/

section Fields
variable (x : Float)

def sign : Sign := if isNegative x then .negative else .positive

theorem toNat_unpackMantissa :
    (@unpackMantissa Format.binary64 x.toModel.toBits.toBitVec).toNat = fractionField x := by
  show (word x >>> 0) % 2 ^ 52 = fractionField x
  rw [Nat.shiftRight_zero]
  rfl

theorem toNat_unpackExponent :
    (@unpackExponent Format.binary64 x.toModel.toBits.toBitVec).toNat = exponentField x := by
  show (word x >>> 52) % 2 ^ 11 = exponentField x
  rw [Nat.shiftRight_eq_div_pow]
  rfl

theorem ofBitVec_unpackSign :
    Sign.ofBitVec (@unpackSign Format.binary64 x.toModel.toBits.toBitVec) = sign x := by
  have hbit : (@unpackSign Format.binary64 x.toModel.toBits.toBitVec).toNat = word x / 2 ^ 63 := by
    have hlt : word x < 2 ^ 64 := x.toBits.toNat_lt
    show (word x >>> 63) % 2 ^ 1 = word x / 2 ^ 63
    rw [Nat.shiftRight_eq_div_pow, Nat.mod_eq_of_lt (by omega)]
  have hnegative : isNegative x = decide (2 ^ 63 ≤ word x) := rfl
  rw [Sign.ofBitVec, sign, hnegative]
  by_cases hlarge : 2 ^ 63 ≤ word x
  · have hne : @unpackSign Format.binary64 x.toModel.toBits.toBitVec ≠ 0#1 := fun h => by
      rw [h] at hbit
      change 0 = _ at hbit
      omega
    rw [if_neg hne, if_pos (decide_eq_true hlarge)]
  · have heq : @unpackSign Format.binary64 x.toModel.toBits.toBitVec = 0#1 := by
      refine BitVec.eq_of_toNat_eq (hbit.trans ?_)
      show word x / 2 ^ 63 = 0
      omega
    rw [if_pos heq, if_neg fun h => hlarge (of_decide_eq_true h)]

theorem fractionField_lt : fractionField x < 2 ^ 52 := Nat.mod_lt _ (by decide)

theorem exponentField_lt : exponentField x < 2 ^ 11 := Nat.mod_lt _ (by decide)

/-- The significand of a double that is not zero has 53 bits, or less at the least power. -/
theorem significand_bounds : significand x < 2 ^ 53 ∧ -1074 ≤ power x ∧ (2 ^ 52 ≤ significand x ∨ power x = -1074) := by
  have hfraction := fractionField_lt x
  have hbit : Nat.pow 2 52 = 2 ^ 52 := rfl
  unfold significand power
  split <;> omega

theorem toNat_append_unpackMantissa :
    (1#1 ++ @unpackMantissa Format.binary64 x.toModel.toBits.toBitVec).toNat = fractionField x + 2 ^ 52 := by
  rw [BitVec.toNat_append, ← Nat.shiftLeft_add_eq_or_of_lt (BitVec.isLt _), toNat_unpackMantissa, Nat.add_comm]
  rfl

theorem unpack_eq : x.toModel.unpack =
    if exponentField x = 2047 then if fractionField x = 0 then .infinity (sign x) else .notANumber
    else if h : significand x = 0 then .zero (sign x)
    else .finite (sign x) (significand x) (power x) (Nat.pos_of_ne_zero h) := by
  have hones : (-1#11).toNat = 2047 := rfl
  have hbias : (Format.binary64.exponentBias : Int) + (52 : Nat) = 1075 := rfl
  unfold Float.Model.unpack UnpackedFloat.unpack
  simp only [ofBitVec_unpackSign, toNat_unpackMantissa, toNat_unpackExponent,
    ← BitVec.toNat_inj, hones, hbias]
  by_cases hinfinite : exponentField x = 2047
  · rw [if_pos hinfinite, if_pos hinfinite]
    rfl
  rw [if_neg hinfinite, if_neg hinfinite]
  by_cases hsubnormal : exponentField x = 0
  · have hsignificand : significand x = fractionField x := if_pos hsubnormal
    have hpower : power x = -1074 := if_pos hsubnormal
    simp only [hsignificand, hpower, hsubnormal]
    rfl
  · have hsignificand : significand x = fractionField x + 2 ^ 52 := if_neg hsubnormal
    have hpower : power x = exponentField x - 1075 := if_neg hsubnormal
    simp only [hsignificand, hpower]
    rw [dif_neg (Nat.ne_of_gt (Nat.add_pos_right _ (by decide)))]
    refine (if_neg hsubnormal).trans ?_
    congr 1
    exact toNat_append_unpackMantissa x

end Fields

/-! ### The order of doubles -/

/-- The place of an unpacked double. -/
def unpackedPlace? : UnpackedFloat → Option Line
  | .infinity .negative => some ⊥
  | .infinity .positive => some ⊤
  | .notANumber => none
  | .zero _ => some (.point 0)
  | .finite .negative m e _ => some (.point (-(m * 2 ^ e)))
  | .finite .positive m e _ => some (.point (m * 2 ^ e))

theorem unpackedPlace?_unpack (x : Float) : unpackedPlace? x.toModel.unpack = place? x := by
  rw [unpack_eq, place?, sign, exact]
  by_cases hinfinite : exponentField x = 2047
  · have hfinite : isFinite x = false := by simp [isFinite, hinfinite]
    rw [if_pos hinfinite, hfinite]
    split
    · cases isNegative x <;> rfl
    · rfl
  · have hfinite : isFinite x = true := by simp [isFinite, hinfinite]
    rw [if_neg hinfinite, if_pos hfinite]
    split
    · rename_i hzero
      simp [unpackedPlace?, hzero]
    · cases isNegative x <;> simp [unpackedPlace?]

/-- The significand has 53 bits, or less at the least power. -/
def IsCanonical : UnpackedFloat → Prop
  | .finite _ m e _ => m < 2 ^ 53 ∧ -1074 ≤ e ∧ (2 ^ 52 ≤ m ∨ e = -1074)
  | _ => True

theorem isCanonical_unpack (x : Float) : IsCanonical x.toModel.unpack := by
  rw [unpack_eq]
  split
  · split <;> trivial
  · split
    · trivial
    · exact significand_bounds x

section Canonical
variable {m n : Nat} {d e : Int}

theorem scaled_lt (hm : m < 2 ^ 53) (hn : 2 ^ 52 ≤ n) (h : d < e) : (m : ℚ) * 2 ^ d < n * 2 ^ e := by
  have hm' : (m : ℚ) < 2 ^ 53 := by exact_mod_cast hm
  have hn' : (2 : ℚ) ^ 52 ≤ n := by exact_mod_cast hn
  have hpower : (2 : ℚ) ^ (d + 1) ≤ 2 ^ e := zpow_le_zpow_right₀ (by norm_num) h
  calc (m : ℚ) * 2 ^ d < 2 ^ 53 * 2 ^ d := by gcongr
    _ = 2 ^ 52 * 2 ^ (d + 1) := by rw [zpow_add_one₀ (by norm_num)]; ring
    _ ≤ n * 2 ^ e := by gcongr

/-- The powers are compared first, and the significands only at the same power. -/
theorem then_eq_cmp (hd : m < 2 ^ 53 ∧ -1074 ≤ d ∧ (2 ^ 52 ≤ m ∨ d = -1074))
    (he : n < 2 ^ 53 ∧ -1074 ≤ e ∧ (2 ^ 52 ≤ n ∨ e = -1074)) :
    (compare d e).then (compare m n) = cmp ((m : ℚ) * 2 ^ d) (n * 2 ^ e) := by
  rcases lt_trichotomy d e with h | rfl | h
  · have hn : 2 ^ 52 ≤ n := he.2.2.resolve_right (by omega)
    rw [compare_lt_iff_lt.mpr h, (cmp_eq_lt_iff ..).mpr (scaled_lt hd.1 hn h)]
    rfl
  · have hmono : StrictMono fun m : Nat => (m : ℚ) * 2 ^ d := fun _ _ h => by
      have h' : (_ : ℚ) < _ := Nat.cast_lt.mpr h
      show (_ : ℚ) * _ < _ * _
      gcongr
    rw [compare_eq_iff_eq.mpr rfl, Ordering.eq_then]
    exact ((hmono.cmp_map_eq m n).trans (cmp_eq_compare m n)).symm
  · have hm : 2 ^ 52 ≤ m := hd.2.2.resolve_right (by omega)
    rw [compare_gt_iff_gt.mpr h, (cmp_eq_gt_iff ..).mpr (scaled_lt he.1 hm h)]
    rfl

/-- Unpacked doubles are ordered as their places are. -/
theorem compare_unpacked {u v : UnpackedFloat} (hu : IsCanonical u) (hv : IsCanonical v) :
    u.compare v = Line.compare? (unpackedPlace? u) (unpackedPlace? v) := by
  have hpos : ∀ {m : Nat} (e : Int), 0 < m → (0 : ℚ) < m * 2 ^ e := fun {m} e hm =>
    mul_pos (Nat.cast_pos.mpr hm) (zpow_pos two_pos e)
  have hswap : ∀ a b : ℚ, cmp (-a) (-b) = (cmp a b).swap := fun a b =>
    (StrictAnti.cmp_map_eq (fun _ _ => neg_lt_neg) a b).trans (cmp_swap a b).symm
  rcases u with (_ | _) | _ | _ | ⟨_ | _, m, d, hm⟩ <;> rcases v with (_ | _) | _ | _ | ⟨_ | _, n, e, hn⟩
  all_goals simp only [UnpackedFloat.compare, unpackedPlace?, Line.compare?, Option.bind_some, Option.bind_none,
    Option.map_some, Option.map_none, Line.cmp_point, Line.cmp_bot_point, Line.cmp_point_bot, Line.cmp_point_top,
    Line.cmp_top_point, Line.cmp_bot_top, Line.cmp_top_bot, cmp_self_eq_eq]
  case finite.negative.finite.negative => rw [then_eq_cmp hu hv, hswap]
  case finite.positive.finite.positive => rw [then_eq_cmp hu hv]
  case finite.negative.finite.positive =>
    rw [(cmp_eq_lt_iff ..).mpr ((neg_neg_of_pos (hpos d hm)).trans (hpos e hn))]
  case finite.positive.finite.negative =>
    rw [(cmp_eq_gt_iff ..).mpr ((neg_neg_of_pos (hpos e hn)).trans (hpos d hm))]
  case zero.finite.negative => rw [(cmp_eq_gt_iff ..).mpr (neg_neg_of_pos (hpos e hn))]
  case zero.finite.positive => rw [(cmp_eq_lt_iff ..).mpr (hpos e hn)]
  case finite.negative.zero => rw [(cmp_eq_lt_iff ..).mpr (neg_neg_of_pos (hpos d hm))]
  case finite.positive.zero => rw [(cmp_eq_gt_iff ..).mpr (hpos d hm)]
  all_goals rfl

end Canonical

variable (x y : Float)

/-- Doubles are ordered as their places are. -/
theorem compare_unpack : x.toModel.unpack.compare y.toModel.unpack = Line.compare? (place? x) (place? y) := by
  rw [compare_unpacked (isCanonical_unpack x) (isCanonical_unpack y), unpackedPlace?_unpack, unpackedPlace?_unpack]

theorem lt_iff : x < y ↔ Line.compare? (place? x) (place? y) = some .lt := by
  have hlt : x < y ↔ (x.toModel.unpack.compare y.toModel.unpack == some .lt) = true := decide_eq_true_iff
  rw [hlt, compare_unpack, beq_iff_eq]

theorem beq_eq : (x == y) = (Line.compare? (place? x) (place? y) == some .eq) := by
  rw [← compare_unpack]
  rfl

theorem isNaN_eq : x.isNaN = (place? x).isNone := by
  rw [← unpackedPlace?_unpack]
  show x.toModel.unpack.isNaN = _
  rcases x.toModel.unpack with (_ | _) | _ | _ | ⟨_ | _, m, e, hm⟩ <;> rfl

theorem place?_zero : place? 0 = some (.point 0) := by
  have hfinite : isFinite 0 = true := by decide +kernel
  have hzero : significand 0 = 0 := by decide +kernel
  rw [place?, if_pos hfinite, exact, hzero]
  simp

/-- An integer and a double are ordered as their places are. -/
theorem compareInt?_eq (n : Int) : compareInt? n x = Line.compare? (some (.point n)) (place? x) := by
  rw [compareInt?, isNaN_eq, place?]
  cases hfinite : isFinite x with
  | true =>
    have hpos : (0 : ℚ) < denominator x := Nat.cast_pos.mpr (denominator_pos x)
    have hmono : StrictMono fun a : Int => (a : ℚ) / denominator x := fun _ _ h =>
      div_lt_div_of_pos_right (Int.cast_lt.mpr h) hpos
    have hscaled := hmono.cmp_map_eq (n * denominator x) (numerator x)
    simp only [Int.cast_mul, Int.cast_natCast, mul_div_cancel_right₀ _ hpos.ne', ← exact_eq] at hscaled
    simp only [if_true, Option.isNone_some, Bool.false_eq_true, if_false, Line.compare?, Option.bind_some, Option.map_some,
      Line.cmp_point, hscaled]
    rw [cmp_eq_compare]
  | false =>
    by_cases hfraction : fractionField x = 0
    · cases isNegative x <;> simp [Line.compare?, hfraction]
    · simp [Line.compare?, hfraction]

end Binary64

/-! ### The order of numbers -/

namespace Number

/-- The place of a number that is no complex one. -/
def place? : Number → Option Line
  | .int n => some (.point n)
  | .real x => Binary64.place? x
  | .complex _ => none

def isComplex : Number → Bool
  | .complex _ => true
  | _ => false

/-- The real part. -/
def re : Number → Number
  | .int n => .int n
  | .real x => .real x
  | .complex z => .real z.re

/-- The imaginary part. -/
def im : Number → Number
  | .int _ | .real _ => .int 0
  | .complex z => .real z.im

variable {a b : Number}

theorem compareReals_eq (x y : Float) : compareReals x y = Line.compare? (Binary64.place? x) (Binary64.place? y) := by
  have hgreater : y < x ↔ Line.compare? (Binary64.place? x) (Binary64.place? y) = some .gt := by
    rw [Binary64.lt_iff, ← Line.compare?_swap]
    rcases Line.compare? (Binary64.place? x) (Binary64.place? y) with _ | _ | _ | _ <;> simp
  unfold compareReals
  rw [Binary64.beq_eq]
  simp only [Binary64.lt_iff x y, hgreater]
  rcases Line.compare? (Binary64.place? x) (Binary64.place? y) with _ | _ | _ | _ <;> rfl

/-- Numbers that are not complex are ordered as their places are. -/
theorem order_eq (ha : a.isComplex = false) (hb : b.isComplex = false) :
    a.order b = .ok (Line.compare? a.place? b.place?) := by
  cases a with
  | complex z => cases ha
  | int n =>
    cases b with
    | complex w => cases hb
    | int m => rw [order, ← cmp_eq_compare, place?, place?, Line.compare?_points, Int.cast_strictMono.cmp_map_eq]
    | real y => rw [order, Binary64.compareInt?_eq]; rfl
  | real x =>
    cases b with
    | complex w => cases hb
    | int m => rw [order, Binary64.compareInt?_eq, Line.compare?_swap]; rfl
    | real y => rw [order, compareReals_eq]; rfl

/-- Two numbers have the same place. -/
def coincide (a b : Number) : Bool := Line.compare? a.place? b.place? == some .eq

theorem coincide_comm (a b : Number) : a.coincide b = b.coincide a := by
  rw [coincide, coincide, ← Line.compare?_swap]
  rcases Line.compare? b.place? a.place? with _ | _ | _ | _ <;> rfl

theorem coincide_int (m n : Int) : (int m).coincide (int n) = (m == n) := by
  rw [coincide, place?, place?, Line.compare?_points, Int.cast_strictMono.cmp_map_eq, Bool.eq_iff_iff, beq_iff_eq,
    beq_iff_eq, Option.some_inj, cmp_eq_eq_iff]

theorem coincide_mixed (n : Int) (x : Float) : (int n).coincide (real x) = (Binary64.compareInt? n x == some .eq) := by
  rw [Binary64.compareInt?_eq]
  rfl

theorem coincide_real (x y : Float) : (real x).coincide (real y) = (x == y) := (Binary64.beq_eq x y).symm

theorem coincide_zero (x : Float) : (real x).coincide (int 0) = (x == 0) := by
  have hzero : (real 0).place? = (int 0).place? := Binary64.place?_zero
  rw [← coincide_real, coincide, coincide, hzero]

/-- Numbers are equal if their real parts have the same place, and their imaginary parts too. -/
theorem same_eq (a b : Number) : a.same b = (a.re.coincide b.re && a.im.coincide b.im) := by
  -- An integer and a float have no imaginary part, and the zero of one is that of the other.
  have hnone : (int 0).coincide (int 0) = true := coincide_int 0 0
  cases a with
  | int n =>
    cases b with
    | int m => simp [same, re, im, hnone, coincide_int]
    | real y => simp [same, re, im, hnone, coincide_mixed]
    | complex w => simp [same, re, im, coincide_mixed, coincide_comm (int 0), coincide_zero, Bool.and_comm]
  | real x =>
    cases b with
    | int m => simp [same, re, im, hnone, coincide_comm (real x), coincide_mixed]
    | real y => simp [same, re, im, hnone, coincide_real]
    | complex w => simp [same, re, im, coincide_real, coincide_comm (int 0), coincide_zero, Bool.and_comm]
  | complex z =>
    cases b with
    | int m => simp [same, re, im, coincide_comm (real z.re), coincide_mixed, coincide_zero, Bool.and_comm]
    | real y => simp [same, re, im, coincide_real, coincide_zero, Bool.and_comm]
    | complex w => simp [same, re, im, coincide_real, ComplexFloat.same]

theorem same_of_real (ha : a.isComplex = false) (hb : b.isComplex = false) : a.same b = a.coincide b := by
  have hparts : ∀ {a : Number}, a.isComplex = false → a.re = a ∧ a.im = int 0 := fun {a} ha => by
    cases a with
    | complex z => cases ha
    | _ => exact ⟨rfl, rfl⟩
  rw [same_eq, (hparts ha).1, (hparts ha).2, (hparts hb).1, (hparts hb).2, coincide_int 0 0]
  exact Bool.and_true _

theorem order_of_complex (h : (a.isComplex || b.isComplex) = true) : a.order b = .error .typeMismatch := by
  cases a <;> cases b <;> first | rfl | cases h

end Number
end Reckoner
