import Reckoner.Text.Case

/-!
# Lower case is final

The lower case of a text is its own lower case (`Text.lower_lower`). The runs of capital letters lead to characters
that belong to no run, and neither the dotted capital I nor a capital sigma is left.
-/

namespace Reckoner.Text

/-! ### Runs of letters -/

namespace Run
variable {r r' : Run} {n : Nat}

/-- Where the run leads from a code point. -/
def image (r : Run) (n : Nat) : Nat := (n + r.shift).toNat

/-- One run leads to nothing in another one: its images lie outside of the other's bounds, or between the steps of
    two that the other goes in. -/
def misses (r r' : Run) : Bool :=
  Nat.blt (r.image r.last) r'.first || Nat.blt r'.last (r.image r.first) ||
    (Nat.beq r'.stride 2 && (Nat.beq r.stride 2 || Nat.beq r.first r.last) && Nat.beq ((r.image r.first + r'.first) % 2) 1)

/-- The images of the run are small letters of ASCII, or characters beyond ASCII. -/
def Lands (r : Run) : Prop :=
  (97 ≤ r.image r.first ∧ r.image r.last ≤ 122) ∨
    (128 ≤ r.image r.first ∧ (r.image r.last < 0xd800 ∨ (0xdfff < r.image r.first ∧ r.image r.last < 0x110000)))

instance (r : Run) : Decidable r.Lands := inferInstanceAs (Decidable (_ ∨ _))

theorem contains_iff : r.contains n = true ↔ r.first ≤ n ∧ n ≤ r.last ∧ (n - r.first) % r.stride = 0 := by
  simp only [contains, Bool.and_eq_true, decide_eq_true_eq, and_assoc]

theorem misses_iff : r.misses r' = true ↔ r.image r.last < r'.first ∨ r'.last < r.image r.first ∨
    (r'.stride = 2 ∧ (r.stride = 2 ∨ r.first = r.last) ∧ (r.image r.first + r'.first) % 2 = 1) := by
  simp only [misses, Bool.or_eq_true, Bool.and_eq_true, Nat.blt_eq, Nat.beq_eq, or_assoc, and_assoc]

theorem contains_of_misses (h : r.misses r' = true) (hland : r.Lands) (hn : r.contains n = true) :
    r'.contains (r.image n) = false := by
  have h := misses_iff.mp h
  unfold Lands at hland
  unfold image at h hland ⊢
  obtain ⟨hlo, hhi, hstep⟩ := contains_iff.mp hn
  refine Bool.eq_false_iff.mpr fun hmoved => ?_
  obtain ⟨hlo', hhi', hstep'⟩ := contains_iff.mp hmoved
  rcases h with h | h | ⟨hstride', hstride | hsingle, hodd⟩
  · omega
  · omega
  · rw [hstride] at hstep
    rw [hstride'] at hstep'
    omega
  · rw [hstride'] at hstep'
    omega

end Run

theorem misses_lowerRuns {r r' : Run} (hr : r ∈ lowerRuns) (hr' : r' ∈ lowerRuns) : r.misses r' = true := by
  have hall : lowerRuns.all (fun r => lowerRuns.all r.misses) = true := by decide +kernel
  exact List.all_eq_true.mp (List.all_eq_true.mp hall r hr) r' hr'

theorem lands_lowerRuns : ∀ r ∈ lowerRuns, r.Lands := by decide +kernel

theorem moveBy_of_absent {rs : List Run} {n : Nat} (h : ∀ r ∈ rs, r.contains n = false) : moveBy rs n = n := by
  have hnone : rs.find? (·.contains n) = none := List.find?_eq_none.mpr fun r hr => by simp [h r hr]
  rw [moveBy, hnone]

theorem moveBy_cases (rs : List Run) (n : Nat) : (∀ r ∈ rs, r.contains n = false) ∨
    ∃ r ∈ rs, r.contains n = true ∧ moveBy rs n = r.image n := by
  cases h : rs.find? (·.contains n) with
  | none => exact Or.inl fun r hr => by simpa using List.find?_eq_none.mp h r hr
  | some r => exact Or.inr ⟨r, List.mem_of_find?_eq_some h, by simpa using List.find?_some h, by rw [moveBy, h]; rfl⟩

/-! ### Characters -/

/-- The character is its own lower case wherever it stands. -/
def IsLower (c : Char) : Prop := c ≠ 'Σ' ∧ c ≠ 'İ' ∧ lowerChar c = c

instance (c : Char) : Decidable (IsLower c) := inferInstanceAs (Decidable (_ ∧ _))

theorem isLower_ascii : ∀ n < 128, IsLower (lowerChar (Char.ofNat n)) := by decide

/-- A character beyond ASCII that belongs to no run is in lower case. -/
theorem isLower_of_absent {n : Nat} (hvalid : n.isValidChar) (hn : 128 ≤ n)
    (h : ∀ r ∈ lowerRuns, r.contains n = false) : IsLower (Char.ofNat n) := by
  have hcode : (Char.ofNat n).toNat = n := by
    rw [Char.ofNat, dif_pos hvalid]
    rfl
  have hcapital : ∀ {c : Char}, lowerRuns.any (·.contains c.toNat) = true → Char.ofNat n ≠ c := by
    rintro c hc rfl
    obtain ⟨r, hr, hcontains⟩ := List.any_eq_true.mp hc
    rw [hcode, h r hr] at hcontains
    cases hcontains
  refine ⟨hcapital (by decide), hcapital (by decide), ?_⟩
  have hbeyond : ¬ n < 128 := by omega
  simp only [lowerChar, hcode, if_neg hbeyond, moveBy_of_absent h]

theorem isLower_lowerChar {c : Char} (hsigma : c ≠ 'Σ') (hdotted : c ≠ 'İ') : IsLower (lowerChar c) := by
  by_cases hascii : c.toNat < 128
  · have := isLower_ascii c.toNat hascii
    rwa [c.ofNat_toNat] at this
  have hmoved : lowerChar c = Char.ofNat (moveBy lowerRuns c.toNat) := by simp only [lowerChar, if_neg hascii]
  rcases moveBy_cases lowerRuns c.toNat with habsent | ⟨r, hr, hcontains, hmove⟩
  · have hsame : lowerChar c = c := by rw [hmoved, moveBy_of_absent habsent, c.ofNat_toNat]
    rw [hsame]
    exact ⟨hsigma, hdotted, hsame⟩
  · obtain ⟨hlo, hhi, -⟩ := Run.contains_iff.mp hcontains
    have himage := fun r' (hr' : r' ∈ lowerRuns) => Run.contains_of_misses (misses_lowerRuns hr hr') (lands_lowerRuns r hr) hcontains
    have hland := lands_lowerRuns r hr
    rw [hmoved, hmove]
    unfold Run.Lands Run.image at hland
    -- A small letter of ASCII is its own lower case in the same way as all of ASCII is.
    rcases hland with ⟨hlow, hhigh⟩ | ⟨hlow, hvalid⟩
    · have hsmall : ∀ n < 123, 97 ≤ n → lowerChar (Char.ofNat n) = Char.ofNat n := by decide
      have := isLower_ascii (r.image c.toNat) (by unfold Run.image; omega)
      rwa [hsmall _ (by unfold Run.image; omega) (by unfold Run.image; omega)] at this
    · refine isLower_of_absent ?_ (by unfold Run.image; omega) himage
      unfold Nat.isValidChar Run.image
      omega

/-! ### Texts -/

theorem isLower_of_mem_lowerAfter {d : Char} : ∀ {before cs : List Char}, d ∈ lowerAfter before cs → IsLower d
  | before, c :: cs, h => by
    rcases List.mem_append.mp h with h | h
    · unfold lowerBetween at h
      split at h
      · rw [List.mem_singleton.mp h]
        split <;> decide
      · rename_i hsigma
        split at h
        · rcases List.mem_cons.mp h with rfl | h
          · decide
          · rw [List.mem_singleton.mp h]
            decide
        · rename_i hdotted
          rw [List.mem_singleton.mp h]
          exact isLower_lowerChar (by simpa using hsigma) (by simpa using hdotted)
    · exact isLower_of_mem_lowerAfter h

theorem lowerAfter_of_isLower : ∀ {cs before : List Char}, (∀ c ∈ cs, IsLower c) → lowerAfter before cs = cs
  | [], _, _ => rfl
  | c :: cs, before, h => by
    obtain ⟨⟨hsigma, hdotted, hc⟩, hcs⟩ := List.forall_mem_cons.mp h
    have hfirst : lowerBetween before c cs = [c] := by simp [lowerBetween, hsigma, hdotted, hc]
    rw [lowerAfter, hfirst, lowerAfter_of_isLower hcs]
    rfl

theorem lower_lower (s : String) : lower (lower s) = lower s := by
  have hlower : ∀ c ∈ lowerAfter [] s.toList, IsLower c := fun c => isLower_of_mem_lowerAfter
  rw [lower, lower, String.toList_ofList, lowerAfter_of_isLower hlower]

end Reckoner.Text
