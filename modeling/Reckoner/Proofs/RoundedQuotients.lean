import Reckoner.Proofs.NumberLine

/-!
# Rounded quotients

A quotient is rounded at the power of two that leaves it 53 bits (`Binary64.fits_fittingPower`). There no integer is
nearer than the rounded one, and an integer of 53 bits at a lower power is farther off than the least integer of 53 bits
(`Binary64.Fits.nearest`).
-/

namespace Reckoner
namespace Binary64

/-! ### Rounding to an integer -/

/-- The natural number is nearest to a rational one, and it is even if it is as far from it as another one. -/
structure Rounds (m : Nat) (q : ℚ) : Prop where
  error : |(m : ℚ) - q| ≤ 1 / 2
  even : |(m : ℚ) - q| = 1 / 2 → m % 2 = 0

theorem rounds_roundQuotient (num : Nat) {den : Nat} (hden : 0 < den) : Rounds (roundQuotient num den) (num / den) := by
  have hpos : (0 : ℚ) < den := Nat.cast_pos.mpr hden
  have hsplit : (num : ℚ) / den = (num / den : Nat) + (num % den : Nat) / den := by
    rw [div_eq_iff hpos.ne', add_mul, div_mul_cancel₀ _ hpos.ne']
    exact_mod_cast (Nat.div_add_mod' num den).symm
  generalize hfraction : ((num % den : Nat) : ℚ) / den = fraction at hsplit
  have below : 2 * (num % den) < den ↔ fraction < 1 / 2 := by
    rw [← hfraction, div_lt_iff₀ hpos, ← @Nat.cast_lt ℚ, Nat.cast_mul, Nat.cast_two]
    constructor <;> intro h <;> linarith
  have above : den < 2 * (num % den) ↔ 1 / 2 < fraction := by
    rw [← hfraction, lt_div_iff₀ hpos, ← @Nat.cast_lt ℚ, Nat.cast_mul, Nat.cast_two]
    constructor <;> intro h <;> linarith
  have hone : fraction < 1 := by
    rw [← hfraction, div_lt_one hpos]
    exact_mod_cast Nat.mod_lt _ hden
  have hzero : 0 ≤ fraction := by rw [← hfraction]; positivity
  rw [hsplit]
  unfold roundQuotient
  dsimp only
  split
  · rename_i h
    have hdistance : |((num / den : Nat) : ℚ) - ((num / den : Nat) + fraction)| = fraction := by
      rw [sub_add_cancel_left, abs_neg, abs_of_nonneg hzero]
    exact ⟨hdistance.trans_le (below.mp h).le, fun heq => absurd (hdistance.symm.trans heq) (below.mp h).ne⟩
  split
  · rename_i h
    have hdistance : |((num / den + 1 : Nat) : ℚ) - ((num / den : Nat) + fraction)| = 1 - fraction := by
      rw [Nat.cast_succ, add_sub_add_left_eq_sub, abs_of_pos (sub_pos.mpr hone)]
    have hhalf := above.mp h
    exact ⟨by linarith, fun heq => by linarith⟩
  · rename_i hbelow habove
    have hhalf : fraction = 1 / 2 := le_antisymm (not_lt.mp (above.not.mp habove)) (not_lt.mp (below.not.mp hbelow))
    rw [hhalf]
    split
    · rename_i heven
      refine ⟨le_of_eq ?_, fun _ => heven⟩
      rw [sub_add_cancel_left, abs_neg]
      norm_num
    · refine ⟨le_of_eq ?_, fun _ => by omega⟩
      rw [Nat.cast_succ, add_sub_add_left_eq_sub]
      norm_num

/-- No integer is nearer, and another one that is as near leaves the even choice. -/
theorem Rounds.nearest {m : Nat} {q : ℚ} (h : Rounds m q) (k : Int) :
    |(m : ℚ) - q| ≤ |k - q| ∧ (|(m : ℚ) - q| = |k - q| → k = m ∨ m % 2 = 0) := by
  by_cases hk : k = m
  · rw [hk, Int.cast_natCast]
    exact ⟨le_rfl, fun _ => Or.inl rfl⟩
  have hapart : (1 : ℚ) ≤ |(k : ℚ) - m| := by
    exact_mod_cast Int.one_le_abs (sub_ne_zero.mpr hk)
  have htriangle := abs_sub_le (k : ℚ) q m
  have herror := h.error
  rw [abs_sub_comm q] at htriangle
  exact ⟨by linarith, fun heq => Or.inr (h.even (by linarith))⟩

/-! ### Rounding at a power of two -/

/-- The quotient divided by a power of two, as numerator and denominator. -/
def scaledBy (num den : Nat) (e : Int) : Nat × Nat :=
  if 0 ≤ e then (num, den * Nat.pow 2 e.toNat) else (num * Nat.pow 2 (-e).toNat, den)

section Scaled
variable (num : Nat) {den : Nat} (hden : 0 < den) (e : Int)

theorem roundScaled_eq : roundScaled num den e = roundQuotient (scaledBy num den e).1 (scaledBy num den e).2 := by
  unfold roundScaled scaledBy
  split <;> rfl

theorem scaledBy_eq : ((scaledBy num den e).1 : ℚ) / (scaledBy num den e).2 = num / den / 2 ^ e := by
  unfold scaledBy
  split
  · rename_i h
    obtain ⟨n, rfl⟩ := Int.eq_ofNat_of_zero_le h
    simp [div_div]
  · rename_i h
    obtain ⟨n, hn⟩ := Int.eq_ofNat_of_zero_le (Int.le_of_lt (Int.neg_pos_of_neg (Int.not_le.mp h)))
    obtain rfl : e = -n := by omega
    simp [mul_div_right_comm]

include hden

theorem scaledBy_pos : 0 < (scaledBy num den e).2 := by
  unfold scaledBy
  split
  · exact Nat.mul_pos hden (Nat.pos_of_ne_zero (by simp))
  · exact hden

theorem rounds_roundScaled : Rounds (roundScaled num den e) (num / den / 2 ^ e) := by
  rw [roundScaled_eq, ← scaledBy_eq]
  exact rounds_roundQuotient _ (scaledBy_pos num hden e)

end Scaled

/-- At the power the number has 53 bits before the point, or less at the least power. -/
structure Fits (q : ℚ) (e : Int) : Prop where
  least : -1074 ≤ e
  lt : q < 2 ^ 53 * 2 ^ e
  le : e = -1074 ∨ 2 ^ 52 * 2 ^ e ≤ q

theorem log2_bounds {n : Nat} (hn : n ≠ 0) : (2 : ℚ) ^ (n.log2 : Int) ≤ n ∧ n < (2 : ℚ) ^ ((n.log2 : Int) + 1) := by
  constructor
  · exact_mod_cast Nat.log2_self_le hn
  · exact_mod_cast Nat.lt_log2_self

theorem two_zpow_add (n : Nat) (e : Int) : (2 : ℚ) ^ (n + e) = 2 ^ n * 2 ^ e := by
  rw [zpow_add₀ two_ne_zero, zpow_natCast]

theorem le_scaledBy_iff (num : Nat) {den : Nat} (hden : 0 < den) (n : Nat) (e : Int) :
    n ≤ (scaledBy num den e).1 / (scaledBy num den e).2 ↔ n * 2 ^ e ≤ (num : ℚ) / den := by
  have hpos : (0 : ℚ) < (scaledBy num den e).2 := Nat.cast_pos.mpr (scaledBy_pos num hden e)
  have hpower : (0 : ℚ) < 2 ^ e := by positivity
  rw [Nat.le_div_iff_mul_le (scaledBy_pos num hden e), ← le_div_iff₀ hpower, ← scaledBy_eq, le_div_iff₀ hpos]
  exact_mod_cast Iff.rfl

/-- The power before it is kept from falling under the least one. -/
theorem fittingPower_eq (num den : Nat) : ∃ e : Int, e = num.log2 - den.log2 - 53 ∧ fittingPower num den =
    max (-1074) (if Nat.pow 2 53 ≤ (scaledBy num den e).1 / (scaledBy num den e).2 then e + 1 else e) := by
  refine ⟨_, rfl, ?_⟩
  unfold fittingPower scaledBy
  dsimp only
  congr 3
  split <;> rfl

theorem Fits.max {q : ℚ} {e : Int} (hle : 2 ^ 52 * 2 ^ e ≤ q) (hlt : q < 2 ^ 53 * 2 ^ e) : Fits q (max (-1074) e) := by
  refine ⟨le_max_left .., ?_, ?_⟩
  · refine hlt.trans_le ?_
    gcongr
    · exact one_le_two
    · exact le_max_right ..
  · rcases le_total e (-1074) with h | h
    · exact Or.inl (max_eq_left h)
    · rw [max_eq_right h]
      exact Or.inr hle

theorem fits_fittingPower {num den : Nat} (hnum : num ≠ 0) (hden : den ≠ 0) :
    Fits (num / den) (fittingPower num den) := by
  have hpos : (0 : ℚ) < den := Nat.cast_pos.mpr (Nat.pos_of_ne_zero hden)
  obtain ⟨hnum, hnum'⟩ := log2_bounds hnum
  obtain ⟨hden, hden'⟩ := log2_bounds hden
  obtain ⟨e, he, hfitting⟩ := fittingPower_eq num den
  -- The logarithms leave two powers in question.
  have hlow : 2 ^ 52 * 2 ^ e ≤ (num : ℚ) / den := by
    rw [le_div_iff₀ hpos]
    calc (2 : ℚ) ^ 52 * 2 ^ e * den ≤ 2 ^ 52 * 2 ^ e * 2 ^ ((den.log2 : Int) + 1) := by gcongr
      _ = 2 ^ (num.log2 : Int) := by
        rw [← two_zpow_add, ← zpow_add₀ two_ne_zero]
        congr 1
        omega
      _ ≤ num := hnum
  have hhigh : (num : ℚ) / den < 2 ^ 54 * 2 ^ e := by
    rw [div_lt_iff₀ hpos]
    calc (num : ℚ) < 2 ^ ((num.log2 : Int) + 1) := hnum'
      _ = 2 ^ 54 * 2 ^ e * 2 ^ (den.log2 : Int) := by
        rw [← two_zpow_add, ← zpow_add₀ two_ne_zero]
        congr 1
        omega
      _ ≤ 2 ^ 54 * 2 ^ e * den := by gcongr
  have hnext : (2 : ℚ) ^ (e + 1) = 2 ^ e * 2 := zpow_add_one₀ two_ne_zero e
  have hwhole := le_scaledBy_iff num (Nat.cast_pos.mp hpos) (Nat.pow 2 53) e
  have hcast : ((Nat.pow 2 53 : Nat) : ℚ) = 2 ^ 53 := by norm_num
  rw [hcast] at hwhole
  rw [hfitting]
  split
  · rename_i h
    refine Fits.max ?_ ?_ <;> rw [hnext]
    · linarith [hwhole.mp h]
    · linarith
  · rename_i h
    exact Fits.max hlow (not_le.mp (hwhole.not.mp h))

/-! ### Integers of 53 bits -/

/-- The number that lies half a last place beyond the greatest double, from which on doubles are infinite. -/
theorem overflow_eq : (2 : ℚ) ^ 1024 - 2 ^ 970 = (2 ^ 53 - 1 / 2) * 2 ^ (971 : Int) := by
  have hpower : (2 : ℚ) ^ (971 : Int) = 2 ^ 970 * 2 := zpow_add_one₀ two_ne_zero 970
  have hgreat : (2 : ℚ) ^ 1024 = 2 ^ 53 * (2 ^ 970 * 2) := by rw [← pow_succ, ← pow_add]
  rw [hgreat, hpower]
  generalize (2 : ℚ) ^ 970 = half
  ring

section Fits
variable {q : ℚ} {e : Int} {m : Nat} (hfits : Fits q e) (hm : Rounds m (q / 2 ^ e))
include hfits hm

/-- No integer of 53 bits times a power is nearer than the rounded quotient. -/
theorem Fits.nearest {n p : Int} (hn : |n| < 2 ^ 53) (hp : -1074 ≤ p) : |m * 2 ^ e - q| ≤ |n * 2 ^ p - q| ∧
    (|m * 2 ^ e - q| = |n * 2 ^ p - q| → n * 2 ^ p = m * (2 : ℚ) ^ e ∨ m % 2 = 0) := by
  have hpower : (0 : ℚ) < 2 ^ e := by positivity
  have scaled : ∀ r : ℚ, |r * 2 ^ e - q| = |r - q / 2 ^ e| * 2 ^ e := fun r => by
    rw [← abs_of_pos hpower, ← abs_mul, abs_of_pos hpower, sub_mul, div_mul_cancel₀ _ hpower.ne']
  rcases le_or_gt e p with h | h
  · -- The other number is an integer at the power, too.
    obtain ⟨k, hk⟩ := Int.eq_ofNat_of_zero_le (sub_nonneg.mpr h)
    have hinteger : (n : ℚ) * 2 ^ p = ((n * 2 ^ k : Int) : ℚ) * 2 ^ e := by
      rw [show p = k + e by omega, two_zpow_add]
      push_cast
      ring
    obtain ⟨hle, htie⟩ := hm.nearest (n * 2 ^ k)
    rw [hinteger, scaled, scaled]
    refine ⟨by gcongr, fun heq => (htie (mul_right_cancel₀ hpower.ne' heq)).imp_left fun heq => ?_⟩
    rw [heq, Int.cast_natCast]
  · -- It lies under the least number that needs the power.
    have hle := hfits.le.resolve_left (by have := hfits.least; omega)
    have hbelow : (n : ℚ) * 2 ^ p < 2 ^ 52 * 2 ^ e := by
      calc (n : ℚ) * 2 ^ p < 2 ^ 53 * 2 ^ p := by
            gcongr
            exact_mod_cast lt_of_abs_lt hn
        _ = 2 ^ 52 * 2 ^ (1 + p) := by rw [← Nat.cast_one, two_zpow_add]; ring
        _ ≤ 2 ^ 52 * 2 ^ e := by
            gcongr
            · exact one_le_two
            · omega
    have hnear := (hm.nearest (2 ^ 52)).1
    have hbound : |(m : ℚ) * 2 ^ e - q| ≤ q - 2 ^ 52 * 2 ^ e := by
      have hscaled := mul_le_mul_of_nonneg_right hnear hpower.le
      rwa [← scaled, ← scaled, Int.cast_pow, Int.cast_two, abs_sub_comm (2 ^ 52 * 2 ^ e),
        abs_of_nonneg (sub_nonneg.mpr hle)] at hscaled
    have hother : |(n : ℚ) * 2 ^ p - q| = q - n * 2 ^ p := by
      rw [abs_sub_comm, abs_of_pos (by linarith)]
    rw [hother]
    exact ⟨by linarith, fun heq => by linarith⟩

theorem Fits.significand_le : m ≤ 2 ^ 53 := by
  have hlt : q / 2 ^ e < 2 ^ 53 := (div_lt_iff₀ (by positivity)).mpr hfits.lt
  have herror := (abs_le.mp hm.error).2
  have hcast : (m : ℚ) < (2 ^ 53 + 1 : Nat) := by push_cast; linarith
  exact Nat.lt_succ_iff.mp (Nat.cast_lt.mp hcast)

theorem Fits.le_significand : e = -1074 ∨ 2 ^ 52 ≤ m := by
  refine hfits.le.imp_right fun h => ?_
  have hle : 2 ^ 52 ≤ q / 2 ^ e := (le_div_iff₀ (by positivity)).mpr h
  have herror := (abs_le.mp hm.error).1
  have hcast : ((2 ^ 52 : Nat) : ℚ) < (m + 1 : Nat) := by push_cast; linarith
  exact Nat.lt_succ_iff.mp (Nat.cast_lt.mp hcast)

/-- The rounded quotient is no greater than the greatest double. -/
theorem Fits.finite_iff : e ≤ 970 ∨ (e = 971 ∧ m < 2 ^ 53) ↔ q < 2 ^ 1024 - 2 ^ 970 := by
  obtain ⟨unit, hunit⟩ : ∃ unit : ℚ, unit = 2 ^ e := ⟨_, rfl⟩
  obtain ⟨great, hgreat⟩ : ∃ great : ℚ, great = 2 ^ (971 : Int) := ⟨_, rfl⟩
  have hpos : 0 < great := hgreat ▸ zpow_pos two_pos _
  have hbelow : e ≤ 970 → unit * 2 ≤ great := fun h => by
    rw [hunit, ← zpow_add_one₀ two_ne_zero, hgreat]
    exact zpow_le_zpow_right₀ one_le_two (by omega)
  have habove : 972 ≤ e → great * 2 ≤ unit := fun h => by
    rw [hunit, hgreat, ← zpow_add_one₀ two_ne_zero]
    exact zpow_le_zpow_right₀ one_le_two (by omega)
  have hlt := hfits.lt
  have hle := hfits.le
  obtain ⟨hlow, hhigh⟩ := abs_le.mp hm.error
  have heven := hm.even
  rw [overflow_eq, ← hgreat]
  rw [← hunit] at hlt hle hlow hhigh heven
  constructor
  · rintro (h | ⟨h, hless⟩)
    · linarith only [hlt, hpos, hbelow h]
    · obtain rfl : unit = great := by rw [hunit, hgreat, h]
      have hcast : ((m + 1 : Nat) : ℚ) ≤ (2 ^ 53 : Nat) := Nat.cast_le.mpr hless
      push_cast at hcast
      rw [← div_lt_iff₀ hpos]
      refine lt_of_le_of_ne (by linarith) fun heq => ?_
      -- A tie would be broken towards the even neighbour.
      have htie : (m : ℚ) - q / unit = -(1 / 2) := le_antisymm (by linarith) hlow
      have heven := heven (by rw [htie]; norm_num)
      have hodd : ((m + 1 : Nat) : ℚ) = (2 ^ 53 : Nat) := by
        push_cast
        linarith
      have := Nat.cast_injective hodd
      omega
  · intro h
    obtain hsmall | hmiddle | hlarge : e ≤ 970 ∨ e = 971 ∨ 972 ≤ e := by omega
    · exact Or.inl hsmall
    · obtain rfl : unit = great := by rw [hunit, hgreat, hmiddle]
      refine Or.inr ⟨hmiddle, Nat.lt_of_not_le fun hm => ?_⟩
      have hcast : ((2 ^ 53 : Nat) : ℚ) ≤ m := Nat.cast_le.mpr hm
      push_cast at hcast
      rw [← div_lt_iff₀ hpos] at h
      linarith
    · linarith only [h, hpos, habove hlarge, hle.resolve_left (by omega)]

end Fits

end Binary64
end Reckoner
