import Reckoner.Proofs.Lexemes
import Reckoner.Proofs.RoundedQuotients

/-!
# The nearest double

The double that is taken for a quotient is the nearest one of all, the even one of two, and an infinity where the
greatest double would have to be rounded up (`Binary64.isNearest_nearest`). There is only one place where such a double
can be (`Binary64.IsNearest.unique`). Decimal numbers are read as the double nearest to what their digits stand for
(`Reading.isNearest_ofDecimal`).
-/

namespace Reckoner
namespace Binary64

/-! ### The bits of a double -/

section Bits
open Float.Model UnpackedFloat

/-- A word that is no NaN is kept as it is. -/
theorem word_ofBits {n : Nat} (hn : n < 2 ^ 64) (h : n / 2 ^ 52 % 2 ^ 11 = 2047 → n % 2 ^ 52 = 0) :
    word (Float.ofBits (UInt64.ofNat n)) = n := by
  have hword : (UInt64.ofNat n).toBitVec.toNat = n := Nat.mod_eq_of_lt hn
  have hnumber : @isNaNBits Format.binary64 (UInt64.ofNat n).toBitVec = false := by
    refine decide_eq_false fun ⟨hexponent, hmantissa⟩ => hmantissa (BitVec.eq_of_toNat_eq ?_)
    have hfield : ((UInt64.ofNat n).toBitVec.toNat >>> 52) % 2 ^ 11 = 2047 := congrArg BitVec.toNat hexponent
    rw [hword, Nat.shiftRight_eq_div_pow] at hfield
    show ((UInt64.ofNat n).toBitVec.toNat >>> 0) % 2 ^ 52 = 0
    rw [hword, Nat.shiftRight_zero]
    exact h hfield
  have hpack := @pack_unpack Format.binary64 (UInt64.ofNat n).toBitVec (by decide)
  rw [hnumber] at hpack
  exact (congrArg BitVec.toNat hpack).trans hword

end Bits

/-- The word of a sign and of the bits of a magnitude, which is no greater than the infinite one. -/
def signedWord (negative : Bool) (bits : Nat) : Nat := if negative then Nat.pow 2 63 + bits else bits

theorem fields_signedWord {negative : Bool} {bits : Nat} {x : Float} (hbits : bits ≤ 2047 * 2 ^ 52)
    (hx : x = Float.ofBits (UInt64.ofNat (signedWord negative bits))) :
    isNegative x = negative ∧ exponentField x = bits / 2 ^ 52 ∧ fractionField x = bits % 2 ^ 52 := by
  have hsplit : signedWord negative bits < 2 ^ 64 ∧ (2 ^ 63 ≤ signedWord negative bits ↔ negative = true) ∧
      signedWord negative bits / 2 ^ 52 % 2 ^ 11 = bits / 2 ^ 52 ∧
      signedWord negative bits % 2 ^ 52 = bits % 2 ^ 52 := by
    cases negative <;> refine ⟨?_, ?_, ?_, ?_⟩
    all_goals simp only [signedWord, Nat.pow_eq, if_true, Bool.false_eq_true, if_false, iff_true, iff_false]
    all_goals omega
  obtain ⟨hlt, hsign, hexponent, hfraction⟩ := hsplit
  have hword : word x = signedWord negative bits := by
    rw [hx, word_ofBits hlt]
    omega
  unfold isNegative exponentField fractionField
  rw [hword]
  exact ⟨Bool.eq_iff_iff.mpr (decide_eq_true_iff.trans hsign), hexponent, hfraction⟩

/-- The bits of the magnitude `m * 2 ^ e`, cut at those of infinity. -/
def encode (m : Nat) (e : Int) : Nat :=
  min (if m < Nat.pow 2 52 then m else (e + 1074).toNat * Nat.pow 2 52 + m) (2047 * Nat.pow 2 52)

section Encode
variable {x : Float} {m : Nat} {e : Int} (hm : m ≤ 2 ^ 53) (hleast : -1074 ≤ e) (hle : e = -1074 ∨ 2 ^ 52 ≤ m)
  (hexponent : exponentField x = encode m e / 2 ^ 52) (hfraction : fractionField x = encode m e % 2 ^ 52)
include hm hexponent hfraction

include hleast hle in
theorem finite_of_encode (hsmall : e ≤ 970 ∨ (e = 971 ∧ m < 2 ^ 53)) : isFinite x = true ∧
    (significand x : ℚ) * 2 ^ power x = m * 2 ^ e ∧ significand x % 2 = m % 2 := by
  obtain ⟨k, hk⟩ := Int.eq_ofNat_of_zero_le (by omega : 0 ≤ e + 1074)
  simp only [encode, Nat.pow_eq, hk, Int.toNat_natCast] at hexponent hfraction
  obtain hsubnormal | hnormal | rfl : m < 2 ^ 52 ∨ (2 ^ 52 ≤ m ∧ m < 2 ^ 53) ∨ m = 2 ^ 53 := by omega
  · rw [if_pos hsubnormal] at hexponent hfraction
    have hzero : exponentField x = 0 := by omega
    have hsignificand : significand x = m := (if_pos hzero).trans (by omega)
    have hpower : power x = e := (if_pos hzero).trans (by omega)
    refine ⟨decide_eq_true (by omega), by rw [hsignificand, hpower], by rw [hsignificand]⟩
  · rw [if_neg (by omega)] at hexponent hfraction
    have hfield : exponentField x = k + 1 ∧ fractionField x = m - 2 ^ 52 := by omega
    have hnonzero : exponentField x ≠ 0 := by omega
    have hsignificand : significand x = m := (if_neg hnonzero).trans (by rw [Nat.pow_eq]; omega)
    have hpower : power x = e := (if_neg hnonzero).trans (by omega)
    refine ⟨decide_eq_true (by omega), by rw [hsignificand, hpower], by rw [hsignificand]⟩
  · -- The significand has carried over to the next power.
    rw [if_neg (by omega)] at hexponent hfraction
    have hfield : exponentField x = k + 2 ∧ fractionField x = 0 := by omega
    have hnonzero : exponentField x ≠ 0 := by omega
    have hsignificand : significand x = 2 ^ 52 := (if_neg hnonzero).trans (by rw [Nat.pow_eq]; omega)
    have hpower : power x = e + 1 := (if_neg hnonzero).trans (by omega)
    refine ⟨decide_eq_true (by omega), ?_, by omega⟩
    rw [hsignificand, hpower, zpow_add_one₀ two_ne_zero]
    push_cast
    ring

include hle in
theorem infinite_of_encode (hlarge : ¬ (e ≤ 970 ∨ (e = 971 ∧ m < 2 ^ 53))) :
    isFinite x = false ∧ fractionField x = 0 := by
  have hbits : encode m e = 2047 * 2 ^ 52 := by
    unfold encode
    simp only [Nat.pow_eq]
    rw [if_neg (by omega)]
    omega
  rw [hbits] at hexponent hfraction
  exact ⟨decide_eq_false fun h => h (by omega), by omega⟩

end Encode

/-! ### The nearest double -/

/-- The factor of a sign. -/
def factor (negative : Bool) : ℚ := if negative then -1 else 1

theorem abs_factor_sub (negative : Bool) (p q : ℚ) : |p - factor negative * q| = |factor negative * p - q| := by
  cases negative
  · simp [factor]
  · simp only [factor, if_true, neg_one_mul, sub_neg_eq_add]
    rw [← abs_neg, neg_add']

theorem factor_mul_factor (negative : Bool) (q : ℚ) : factor negative * (factor negative * q) = q := by
  cases negative <;> simp [factor]

theorem factor_mul_abs (n : Int) : factor (decide (n < 0)) * ((|n| : Int) : ℚ) = n := by
  by_cases hn : n < 0
  · simp [factor, hn, abs_of_neg hn]
  · simp [factor, hn, abs_of_nonneg (not_lt.mp hn)]

/-- The value of a double is an integer times its power. -/
theorem exists_int (x : Float) : ∃ n : Int, n.natAbs = significand x ∧ exact x = n * 2 ^ power x := by
  unfold exact
  cases isNegative x
  · exact ⟨significand x, Int.natAbs_natCast _, by simp⟩
  · exact ⟨-significand x, by simp, by simp⟩

theorem exact_eq_factor (x : Float) : exact x = factor (isNegative x) * (significand x * 2 ^ power x) := rfl

/-- A double for which no finite double is nearer to a rational number, and which is the even one if another one is as
near. Where the number is farther out than the greatest double, by half a last place or more, it is an infinity. -/
structure IsNearest (x : Float) (q : ℚ) : Prop where
  finite_iff : isFinite x = true ↔ |q| < 2 ^ 1024 - 2 ^ 970
  nearest : isFinite x = true → ∀ y, isFinite y = true → |exact x - q| ≤ |exact y - q|
  even : isFinite x = true → ∀ y, isFinite y = true → |exact x - q| = |exact y - q| →
    exact y = exact x ∨ significand x % 2 = 0
  infinite : isFinite x = false → place? x = some (if q < 0 then ⊥ else ⊤)

/-- The same for the magnitudes: of the double, and of a number that is not negative. -/
inductive IsNearestMagnitude (x : Float) (q : ℚ) : Prop where
  | finite (hx : isFinite x = true) (hq : q < 2 ^ 1024 - 2 ^ 970)
      (h : ∀ n p : Int, |n| < 2 ^ 53 → -1074 ≤ p → |significand x * 2 ^ power x - q| ≤ |n * 2 ^ p - q| ∧
        (|significand x * 2 ^ power x - q| = |n * 2 ^ p - q| →
          n * 2 ^ p = significand x * (2 : ℚ) ^ power x ∨ significand x % 2 = 0))
  | infinite (hx : isFinite x = false) (hfraction : fractionField x = 0) (hq : 2 ^ 1024 - 2 ^ 970 ≤ q)

theorem one_lt_overflow : (1 : ℚ) < 2 ^ 1024 - 2 ^ 970 := by
  have hgreat : (1 : ℚ) ≤ 2 ^ (971 : Int) := one_le_zpow₀ one_le_two (by decide)
  rw [overflow_eq]
  generalize (2 : ℚ) ^ (971 : Int) = great at hgreat
  linarith

/-- Beyond the greatest double it does not matter how far. -/
theorem IsNearestMagnitude.of_overflow {x : Float} {p q : ℚ} (h : IsNearestMagnitude x p) (hp : 2 ^ 1024 - 2 ^ 970 ≤ p)
    (hq : 2 ^ 1024 - 2 ^ 970 ≤ q) : IsNearestMagnitude x q := by
  cases h with
  | finite _ hlt _ => exact absurd hlt (not_lt.mpr hp)
  | infinite hx hfraction _ => exact .infinite hx hfraction hq

theorem IsNearestMagnitude.isNearest {x : Float} {q : ℚ} (h : IsNearestMagnitude x q) (hzero : 0 ≤ q) :
    IsNearest x (factor (isNegative x) * q) := by
  have habs : |factor (isNegative x) * q| = q := by
    cases isNegative x <;> simp [factor, abs_of_nonneg hzero]
  cases h with
  | finite hx hq h =>
    have hnear : |exact x - factor (isNegative x) * q| = |significand x * 2 ^ power x - q| := by
      rw [abs_factor_sub, exact_eq_factor, factor_mul_factor]
    -- The other double, seen with the sign of this one, is an integer times a power.
    have other : ∀ y : Float, ∃ n : Int, |n| < 2 ^ 53 ∧ factor (isNegative x) * exact y = n * 2 ^ power y := fun y => by
      obtain ⟨n, hn, hy⟩ := exists_int y
      have hbound : |n| < 2 ^ 53 := by
        rw [Int.abs_eq_natAbs, hn]
        exact_mod_cast (significand_bounds y).1
      cases isNegative x
      · exact ⟨n, hbound, by simp [factor, hy]⟩
      · exact ⟨-n, by rwa [abs_neg], by simp [factor, hy]⟩
    refine ⟨iff_of_true hx (habs.symm ▸ hq), fun _ y _ => ?_, fun _ y _ heq => ?_, fun hnot => ?_⟩
    · obtain ⟨n, hn, hy⟩ := other y
      rw [hnear, abs_factor_sub, hy]
      exact (h n (power y) hn (significand_bounds y).2.1).1
    · obtain ⟨n, hn, hy⟩ := other y
      rw [hnear, abs_factor_sub, hy] at heq
      refine ((h n (power y) hn (significand_bounds y).2.1).2 heq).imp_left fun hsame => ?_
      rw [← hy] at hsame
      rw [exact_eq_factor x, ← hsame, factor_mul_factor]
    · rw [hx] at hnot
      cases hnot
  | infinite hx hfraction hq =>
    have hpos : 0 < q := zero_lt_one.trans (one_lt_overflow.trans_le hq)
    refine ⟨iff_of_false (by simp [hx]) (by rw [habs]; exact not_lt.mpr hq), fun h => ?_, fun h => ?_, fun _ => ?_⟩
    · rw [hx] at h
      cases h
    · rw [hx] at h
      cases h
    · rw [place?, hx, hfraction]
      cases isNegative x <;> simp [factor, hpos, hpos.le]

theorem fields_nearest (negative : Bool) {num : Nat} (hnum : num ≠ 0) (den : Nat) :
    let bits := encode (roundScaled num den (fittingPower num den)) (fittingPower num den)
    isNegative (nearest negative num den) = negative ∧ exponentField (nearest negative num den) = bits / 2 ^ 52 ∧
      fractionField (nearest negative num den) = bits % 2 ^ 52 := by
  refine fields_signedWord (min_le_right ..) ?_
  unfold nearest
  rw [if_neg hnum]
  rfl

theorem isNearestMagnitude_of_ne_zero (negative : Bool) {num den : Nat} (hnum : num ≠ 0) (hden : den ≠ 0) :
    IsNearestMagnitude (nearest negative num den) (num / den) := by
  have hfits := fits_fittingPower hnum hden
  have hrounds := rounds_roundScaled num (Nat.pos_of_ne_zero hden) (fittingPower num den)
  obtain ⟨-, hexponent, hfraction⟩ := fields_nearest negative hnum den
  generalize fittingPower num den = e at *
  generalize roundScaled num den e = m at *
  have hm := hfits.significand_le hrounds
  have hle := hfits.le_significand hrounds
  by_cases hsmall : e ≤ 970 ∨ (e = 971 ∧ m < 2 ^ 53)
  · obtain ⟨hfinite, hvalue, hparity⟩ := finite_of_encode hm hfits.least hle hexponent hfraction hsmall
    refine .finite hfinite ((hfits.finite_iff hrounds).mp hsmall) fun n p hn hp => ?_
    rw [hvalue, hparity]
    exact hfits.nearest hrounds hn hp
  · obtain ⟨hinfinite, hzero⟩ := infinite_of_encode hm hle hexponent hfraction hsmall
    exact .infinite hinfinite hzero (not_lt.mp fun h => hsmall ((hfits.finite_iff hrounds).mpr h))

/-- Zero is nearest up to half the least positive double. -/
theorem isNearestMagnitude_zero {x : Float} {q : ℚ} (hexponent : exponentField x = 0) (hfraction : fractionField x = 0)
    (hzero : 0 ≤ q) (hq : q ≤ 2 ^ (-1075 : Int)) : IsNearestMagnitude x q := by
  have hsignificand : significand x = 0 := (if_pos hexponent).trans hfraction
  have hleast : (2 : ℚ) ^ (-1074 : Int) = 2 ^ (-1075 : Int) * 2 := zpow_add_one₀ two_ne_zero (-1075)
  have hsmall : (2 : ℚ) ^ (-1075 : Int) ≤ 1 := zpow_le_one_of_nonpos₀ one_le_two (by decide)
  refine .finite (decide_eq_true (by omega)) ((hq.trans hsmall).trans_lt one_lt_overflow) fun n p _ hp => ?_
  rw [hsignificand, Nat.cast_zero, zero_mul, zero_sub, abs_neg, abs_of_nonneg hzero]
  by_cases hn : n = 0
  · rw [hn, Int.cast_zero, zero_mul, zero_sub, abs_neg, abs_of_nonneg hzero]
    exact ⟨le_rfl, fun _ => Or.inl rfl⟩
  · refine ⟨?_, fun _ => Or.inr rfl⟩
    have hone : (1 : ℚ) ≤ |(n : ℚ)| := by exact_mod_cast Int.one_le_abs hn
    have hpower : (2 : ℚ) ^ (-1074 : Int) ≤ 2 ^ p := zpow_le_zpow_right₀ one_le_two hp
    have hother : (2 : ℚ) ^ (-1074 : Int) ≤ |(n : ℚ) * 2 ^ p| := by
      rw [abs_mul, abs_zpow, abs_two]
      exact hpower.trans (le_mul_of_one_le_left (zpow_pos two_pos p).le hone)
    have htriangle := abs_sub_abs_le_abs_sub (n * (2 : ℚ) ^ p) q
    rw [abs_of_nonneg hzero] at htriangle
    rw [hleast] at hother
    linarith only [htriangle, hother, hq]

theorem fields_nearest_zero (negative : Bool) (den : Nat) : isNegative (nearest negative 0 den) = negative ∧
    exponentField (nearest negative 0 den) = 0 ∧ fractionField (nearest negative 0 den) = 0 :=
  fields_signedWord (Nat.zero_le _) rfl

theorem isNegative_nearest (negative : Bool) (num den : Nat) : isNegative (nearest negative num den) = negative := by
  by_cases hnum : num = 0
  · rw [hnum]
    exact (fields_nearest_zero negative den).1
  · exact (fields_nearest negative hnum den).1

theorem isNearestMagnitude_nearest (negative : Bool) (num : Nat) {den : Nat} (hden : den ≠ 0) :
    IsNearestMagnitude (nearest negative num den) (num / den) := by
  by_cases hnum : num = 0
  · obtain ⟨-, hexponent, hfraction⟩ := fields_nearest_zero negative den
    rw [hnum, Nat.cast_zero, zero_div]
    exact isNearestMagnitude_zero hexponent hfraction le_rfl (by positivity)
  · exact isNearestMagnitude_of_ne_zero negative hnum hden

/-- The double that is taken for a quotient is the nearest one. -/
theorem isNearest_nearest (negative : Bool) (num : Nat) {den : Nat} (hden : den ≠ 0) :
    IsNearest (nearest negative num den) (factor negative * (num / den)) := by
  have hnearest := (isNearestMagnitude_nearest negative num hden).isNearest (by positivity)
  rwa [isNegative_nearest] at hnearest

/-! #### Uniqueness -/

theorem power_le {x : Float} (hx : isFinite x = true) : power x ≤ 971 := by
  have hfield := exponentField_lt x
  have hfinite : exponentField x ≠ 2047 := of_decide_eq_true hx
  unfold power
  split <;> omega

/-- An integer of no more than 53 bits times a power is the value of a double. -/
theorem exists_exact {k p : Int} (hk : |k| < 2 ^ 53) (hleast : -1074 ≤ p) (hgreatest : p ≤ 971) :
    ∃ x, isFinite x = true ∧ exact x = k * 2 ^ p := by
  obtain ⟨q, hq⟩ : ∃ q : ℚ, q = |k| * 2 ^ p := ⟨_, rfl⟩
  have hzero : 0 ≤ q := by rw [hq]; positivity
  have hquotient : (q.num.natAbs : ℚ) / q.den = q := by
    rw [Nat.cast_natAbs, abs_of_nonneg (Rat.num_nonneg.mpr hzero), Rat.num_div_den]
  have hmagnitude := isNearestMagnitude_nearest (decide (k < 0)) q.num.natAbs q.den_nz
  rw [hquotient] at hmagnitude
  cases hmagnitude with
  | finite hx _ h =>
    have hexact := (h |k| p (by rwa [abs_abs]) hleast).1
    rw [← hq, sub_self, abs_zero, abs_nonpos_iff, sub_eq_zero] at hexact
    refine ⟨_, hx, ?_⟩
    rw [exact_eq_factor, hexact, hq, isNegative_nearest, ← mul_assoc, factor_mul_abs]
  | infinite _ _ hover =>
    refine absurd hover (not_le.mpr ?_)
    have hpower : (2 : ℚ) ^ p ≤ 2 ^ (971 : Int) := zpow_le_zpow_right₀ one_le_two hgreatest
    have hbits : ((|k| : Int) : ℚ) ≤ 2 ^ 53 - 1 := by exact_mod_cast Int.le_sub_one_of_lt hk
    rw [hq, overflow_eq]
    calc ((|k| : Int) : ℚ) * 2 ^ p ≤ (2 ^ 53 - 1) * 2 ^ (971 : Int) :=
          mul_le_mul hbits hpower (zpow_pos two_pos _).le (by norm_num)
      _ < (2 ^ 53 - 1 / 2) * 2 ^ (971 : Int) := mul_lt_mul_of_pos_right (by norm_num) (zpow_pos two_pos _)

/-- Between two doubles with even significands there is another one, nearer to what is as far from both. -/
theorem exists_between {x y : Float} (hx : isFinite x = true) (hxeven : significand x % 2 = 0)
    (hyeven : significand y % 2 = 0) (hpower : power x ≤ power y) (hne : exact x ≠ exact y) :
    ∃ z, isFinite z = true ∧ ∀ q, |exact x - q| = |exact y - q| → |exact z - q| < |exact x - q| := by
  obtain ⟨n, hn, hexact⟩ := exists_int x
  obtain ⟨n', hn', hexact'⟩ := exists_int y
  obtain ⟨k, hk⟩ := Int.eq_ofNat_of_zero_le (sub_nonneg.mpr hpower)
  obtain ⟨i, rfl⟩ : ∃ i, n = 2 * i := ⟨n / 2, by omega⟩
  obtain ⟨j, rfl⟩ : ∃ j, n' = 2 * j := ⟨n' / 2, by omega⟩
  have hbits := (significand_bounds x).1
  have hpos : (0 : ℚ) < 2 ^ power x := zpow_pos two_pos _
  rw [show power y = k + power x by omega, two_zpow_add] at hexact'
  -- One step from the first towards the second.
  obtain ⟨s, hs, hcloser⟩ : ∃ s : Int, |s| = 1 ∧ |i - j * 2 ^ k + s| < |i - j * 2 ^ k| := by
    have hapart : i - j * 2 ^ k ≠ 0 := fun h => hne <| by
      rw [hexact, hexact', sub_eq_zero.mp h]
      push_cast
      ring
    rcases lt_or_gt_of_ne hapart with h | h
    · exact ⟨1, rfl, by rw [abs_of_neg h, abs_of_nonpos (by omega)]; omega⟩
    · exact ⟨-1, rfl, by rw [abs_of_pos h, abs_of_nonneg (by omega)]; omega⟩
  have hstep : |2 * i + s| < 2 ^ 53 := by
    rw [Int.abs_eq_natAbs] at hs ⊢
    omega
  obtain ⟨z, hz, hexactz⟩ := exists_exact hstep (significand_bounds x).2.1 (power_le hx)
  refine ⟨z, hz, fun q hq => ?_⟩
  rcases abs_eq_abs.mp hq with h | h
  · exact absurd (sub_left_injective h) hne
  · have hmiddle : q = (exact x + exact y) / 2 := by linarith
    have hfirst : exact x - q = ((i - j * 2 ^ k : Int) : ℚ) * 2 ^ power x := by
      rw [hmiddle, hexact, hexact']
      push_cast
      ring
    have hsecond : exact z - q = ((i - j * 2 ^ k + s : Int) : ℚ) * 2 ^ power x := by
      rw [hmiddle, hexact, hexact', hexactz]
      push_cast
      ring
    rw [hfirst, hsecond, abs_mul, abs_mul, ← Int.cast_abs, ← Int.cast_abs]
    have hpositive : 0 < |(2 : ℚ) ^ power x| := abs_pos.mpr hpos.ne'
    gcongr

theorem IsNearest.unique {x y : Float} {q : ℚ} (hx : IsNearest x q) (hy : IsNearest y q) : place? x = place? y := by
  cases hfinite : isFinite x with
  | false =>
    have hfinite' : isFinite y = false := Bool.eq_false_iff.mpr fun h => by
      rw [hx.finite_iff.mpr (hy.finite_iff.mp h)] at hfinite
      cases hfinite
    rw [hx.infinite hfinite, hy.infinite hfinite']
  | true =>
    have hfinite' := hy.finite_iff.mpr (hx.finite_iff.mp hfinite)
    have hsame : |exact x - q| = |exact y - q| :=
      le_antisymm (hx.nearest hfinite y hfinite') (hy.nearest hfinite' x hfinite)
    suffices hexact : exact x = exact y by
      rw [place?, place?, hfinite, hfinite', hexact, if_pos rfl, if_pos rfl]
    by_contra hne
    have hxeven := (hx.even hfinite y hfinite' hsame).resolve_left (Ne.symm hne)
    have hyeven := (hy.even hfinite' x hfinite hsame.symm).resolve_left hne
    rcases le_total (power x) (power y) with hpower | hpower
    · obtain ⟨z, hz, hnearer⟩ := exists_between hfinite hxeven hyeven hpower hne
      exact (hnearer q hsame).not_ge (hx.nearest hfinite z hz)
    · obtain ⟨z, hz, hnearer⟩ := exists_between hfinite' hyeven hxeven hpower (Ne.symm hne)
      exact (hnearer q hsame.symm).not_ge (hy.nearest hfinite' z hz)

/-! #### Integers -/

theorem isNearest_integer (n : Int) : IsNearest (nearest (decide (n < 0)) n.natAbs 1) n := by
  have hinteger : factor (decide (n < 0)) * ((n.natAbs : ℚ) / (1 : Nat)) = n := by
    rw [Nat.cast_one, div_one, Nat.cast_natAbs, factor_mul_abs]
  have hnearest := isNearest_nearest (decide (n < 0)) n.natAbs one_ne_zero
  rwa [hinteger] at hnearest

theorem isNearest_ofInt? {n : Int} {x : Float} (h : ofInt? n = some x) : IsNearest x n := by
  unfold ofInt? at h
  dsimp only at h
  split at h
  · exact Option.some.inj h ▸ isNearest_integer n
  · cases h

theorem isSome_ofInt?_iff {n : Int} : (ofInt? n).isSome = true ↔ |(n : ℚ)| < 2 ^ 1024 - 2 ^ 970 := by
  rw [← (isNearest_integer n).finite_iff]
  unfold ofInt?
  dsimp only
  split
  · rename_i hx
    exact iff_of_true rfl hx
  · rename_i hx
    exact iff_of_false (by simp) hx

end Binary64

/-! ### Decimal numbers -/

namespace Reading
open Binary64

theorem two_pow_le_ten_pow (n : Nat) : (2 : ℚ) ^ (3 * n) ≤ 10 ^ n := by
  rw [pow_mul]
  gcongr
  norm_num

theorem cast_pow_ten (n : Nat) : ((Nat.pow 10 n : Nat) : ℚ) = 10 ^ n := by
  rw [Nat.pow_eq, Nat.cast_pow, Nat.cast_ofNat]

theorem cast_pow_ten_div (n : Nat) : ((Nat.pow 10 n : Nat) : ℚ) / (1 : Nat) = 10 ^ n := by
  rw [Nat.cast_one, div_one, cast_pow_ten]

theorem pow_ten_ne_zero (n : Nat) : Nat.pow 10 n ≠ 0 := by simp

/-- A number lies between powers of ten by the number of its digits. -/
theorem length_toDigits_bounds {n : Nat} (hn : n ≠ 0) : (10 : ℚ) ^ (((Nat.toDigits 10 n).length : Int) - 1) ≤ n ∧
    n < (10 : ℚ) ^ ((Nat.toDigits 10 n).length : Int) := by
  obtain ⟨k, hk⟩ := Nat.exists_eq_succ_of_ne_zero (Nat.length_toDigits_pos (b := 10) (n := n)).ne'
  have hhigh : n < 10 ^ (k + 1) := (Nat.length_toDigits_le_iff (by decide) k.succ_pos).mp hk.le
  have hlow : 10 ^ k ≤ n := by
    rcases Nat.eq_zero_or_pos k with rfl | hpos
    · exact Nat.pos_of_ne_zero hn
    · exact Nat.not_lt.mp fun h => by
        have := (Nat.length_toDigits_le_iff (by decide) hpos).mpr h
        omega
  rw [hk]
  constructor
  · rw [Nat.cast_succ, add_sub_cancel_right, zpow_natCast]
    exact_mod_cast hlow
  · rw [zpow_natCast]
    exact_mod_cast hhigh

theorem small_of_size {q : ℚ} {size : Int} (hsize : size < -400) (h : q < 10 ^ size) : q ≤ 2 ^ (-1075 : Int) := by
  have hpower : ((10 : ℚ) ^ 359)⁻¹ ≤ (2 ^ (3 * 359))⁻¹ := inv_anti₀ (by positivity) (two_pow_le_ten_pow 359)
  calc q ≤ 10 ^ size := h.le
    _ ≤ 10 ^ (-359 : Int) := zpow_le_zpow_right₀ (by norm_num) (by omega)
    _ ≤ 2 ^ (-1077 : Int) := by
      rw [zpow_neg, zpow_neg]
      exact hpower
    _ ≤ 2 ^ (-1075 : Int) := zpow_le_zpow_right₀ one_le_two (by decide)

theorem overflow_le {q : ℚ} {n : Nat} (hn : 400 ≤ n) (h : 10 ^ n ≤ q) : 2 ^ 1024 - 2 ^ 970 ≤ q := by
  calc (2 : ℚ) ^ 1024 - 2 ^ 970 ≤ 2 ^ 1024 := sub_le_self _ (by positivity)
    _ ≤ 2 ^ (3 * n) := pow_le_pow_right₀ one_le_two (by omega)
    _ ≤ 10 ^ n := two_pow_le_ten_pow n
    _ ≤ q := h

theorem isNearestMagnitude_pow_ten (negative : Bool) {q : ℚ} {n : Nat} (hn : 400 ≤ n) (hq : 2 ^ 1024 - 2 ^ 970 ≤ q) :
    IsNearestMagnitude (nearest negative (Nat.pow 10 n) 1) q :=
  (isNearestMagnitude_nearest negative (Nat.pow 10 n) one_ne_zero).of_overflow
    (overflow_le hn (cast_pow_ten_div n).ge) hq

/-- A decimal number is read as the nearest double, also where it is too small or too great for its digits to matter. -/
theorem isNearest_ofDecimal (negative : Bool) (digits : Nat) (exponent : Int) :
    IsNearest (ofDecimal negative digits exponent) (factor negative * (digits * 10 ^ exponent)) := by
  suffices hmagnitude : isNegative (ofDecimal negative digits exponent) = negative ∧
      IsNearestMagnitude (ofDecimal negative digits exponent) (digits * 10 ^ exponent) by
    have hnearest := hmagnitude.2.isNearest (by positivity)
    rwa [hmagnitude.1] at hnearest
  have hbounds : digits ≠ 0 → (10 : ℚ) ^ ((Nat.toDigits 10 digits).length + exponent - 1) ≤ digits * 10 ^ exponent ∧
      digits * 10 ^ exponent < (10 : ℚ) ^ ((Nat.toDigits 10 digits).length + exponent) := fun hdigits => by
    obtain ⟨hlow, hhigh⟩ := length_toDigits_bounds hdigits
    rw [add_sub_right_comm, zpow_add₀ (by norm_num), zpow_add₀ (by norm_num)]
    constructor <;> gcongr
  unfold ofDecimal
  dsimp only
  split
  · rename_i hsmall
    obtain ⟨hsign, hexponent, hfraction⟩ := fields_nearest_zero negative 1
    refine ⟨hsign, isNearestMagnitude_zero hexponent hfraction (by positivity) ?_⟩
    by_cases hdigits : digits = 0
    · rw [hdigits, Nat.cast_zero, zero_mul]
      positivity
    · exact small_of_size (hsmall.resolve_left hdigits) (hbounds hdigits).2
  rename_i hsmall
  have hdigits : digits ≠ 0 := fun h => hsmall (Or.inl h)
  split
  · rename_i hlarge
    have hgreat : (10 : ℚ) ^ 400 ≤ digits * 10 ^ exponent := by
      refine le_trans ?_ (hbounds hdigits).1
      rw [← zpow_natCast]
      exact zpow_le_zpow_right₀ (by norm_num) (by push_cast; omega)
    have hover := overflow_le le_rfl hgreat
    generalize hn : 400 = n
    exact ⟨isNegative_nearest .., isNearestMagnitude_pow_ten negative hn.le hover⟩
  · split
    · rename_i h
      obtain ⟨n, rfl⟩ := Int.eq_ofNat_of_zero_le h
      have hvalue : (digits : ℚ) * 10 ^ (n : Int) = (digits * Nat.pow 10 n : Nat) / (1 : Nat) := by
        rw [Nat.cast_one, div_one, Nat.cast_mul, cast_pow_ten, zpow_natCast]
      rw [hvalue]
      exact ⟨isNegative_nearest .., isNearestMagnitude_nearest negative _ one_ne_zero⟩
    · rename_i h
      obtain ⟨n, hn⟩ := Int.eq_ofNat_of_zero_le (Int.le_of_lt (Int.neg_pos_of_neg (Int.not_le.mp h)))
      obtain rfl : exponent = -n := by omega
      have hvalue : (digits : ℚ) * 10 ^ (-(n : Int)) = digits / (Nat.pow 10 (- -(n : Int)).toNat : Nat) := by
        rw [neg_neg, Int.toNat_natCast, cast_pow_ten, zpow_neg, zpow_natCast, div_eq_mul_inv]
      rw [hvalue]
      exact ⟨isNegative_nearest .., isNearestMagnitude_nearest negative digits (pow_ten_ne_zero _)⟩

end Reading

/-- The token of a decimal number holds the double that is nearest to what its digits stand for. -/
theorem Lexeme.token_decimal (lexicon : Lexicon) (opens : Bool) {whole fraction : List Char}
    (hne : whole ≠ [] ∧ fraction ≠ []) (hdigits : ∀ c ∈ whole ++ fraction, Text.isDigit c = true) :
    ∃ x, (Lexeme.decimal whole fraction hne hdigits).token lexicon opens = ⟨.numeric, .real x⟩ ∧
      Binary64.IsNearest x (Text.decimalValue (whole ++ fraction) / 10 ^ fraction.length) := by
  refine ⟨_, rfl, ?_⟩
  have hnearest := Reading.isNearest_ofDecimal false (Text.decimalValue (whole ++ fraction)) (-fraction.length)
  simpa [Binary64.factor, div_eq_mul_inv] using hnearest

end Reckoner
