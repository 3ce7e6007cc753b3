import Reckoner.Proofs.LowerCase
import Reckoner.Text.Blank
import Reckoner.Text.Word

/-!
# The letters of names

A name in ASCII starts with a letter or the underscore and goes on with letters, digits and underscores (`Text.isName`).
Whatever is read as one of its letters, letter case aside, belongs to a word (`Text.isWord_of_sameLetter`); white space does
not, and a digit of any script does.
-/

namespace Reckoner.Text

/-- A letter or a digit of ASCII or the underscore. -/
def isNamePart (c : Char) : Bool := c.isAlphanum || c == '_'

/-- A name in ASCII: a letter or the underscore, and then letters, digits and underscores. -/
def isName : List Char → Bool
  | [] => false
  | c :: rest => isNameStart c && rest.all isNamePart

theorem lt_of_isNamePart {c : Char} (h : isNamePart c = true) : c.toNat < 128 := by
  have below : ∀ last : Char, last.toNat < 128 → c.val ≤ last.val → c.toNat < 128 := fun last hlast h =>
    Nat.lt_of_le_of_lt (UInt32.le_iff_toNat_le.mp h) hlast
  rcases Bool.or_eq_true_iff.mp h with hletter | hline
  · rcases Bool.or_eq_true_iff.mp hletter with halpha | hdigit
    · rcases Bool.or_eq_true_iff.mp halpha with hupper | hlower
      · exact below 'Z' (by decide) (of_decide_eq_true hupper).2
      · exact below 'z' (by decide) (of_decide_eq_true (Bool.and_eq_true_iff.mp hlower).2)
    · exact below '9' (by decide) (of_decide_eq_true (Bool.and_eq_true_iff.mp hdigit).2)
  · rw [beq_iff_eq.mp hline]
    decide

theorem isNamePart_of_isNameStart {c : Char} (h : isNameStart c = true) : isNamePart c = true := by
  simp only [isNameStart, isNamePart, Char.isAlphanum, Bool.or_eq_true] at h ⊢
  exact h.imp_left Or.inl

theorem isNamePart_of_isName {cs : List Char} (h : isName cs = true) : ∀ c ∈ cs, isNamePart c = true := by
  cases cs with
  | nil => exact fun _ hc => by cases hc
  | cons c cs =>
    obtain ⟨hstart, hrest⟩ := Bool.and_eq_true_iff.mp h
    exact List.forall_mem_cons.mpr ⟨isNamePart_of_isNameStart hstart, List.all_eq_true.mp hrest⟩

/-! ### Ranges -/

namespace Ranges
variable {rs qs : Ranges} {n : Nat}

/-- Every range of the first list lies in one of the second list. -/
def within (rs qs : Ranges) : Bool := rs.all fun r => qs.any fun q => Nat.ble q.1 r.1 && Nat.ble r.2 q.2

/-- No range of the first list meets one of the second list. -/
def apart (rs qs : Ranges) : Bool := rs.all fun r => qs.all fun q => Nat.blt r.2 q.1 || Nat.blt q.2 r.1

theorem contains_iff : rs.contains n = true ↔ ∃ r ∈ rs, r.1 ≤ n ∧ n ≤ r.2 := by
  simp only [contains, List.any_eq_true, Bool.and_eq_true, decide_eq_true_eq]

theorem contains_of_within (h : rs.within qs = true) (hn : rs.contains n = true) : qs.contains n = true := by
  obtain ⟨r, hr, hlo, hhi⟩ := contains_iff.mp hn
  obtain ⟨q, hq, hin⟩ := List.any_eq_true.mp (List.all_eq_true.mp h r hr)
  simp only [Bool.and_eq_true, Nat.ble_eq] at hin
  exact contains_iff.mpr ⟨q, hq, by omega, by omega⟩

theorem contains_of_apart (h : rs.apart qs = true) (hn : rs.contains n = true) : qs.contains n = false := by
  obtain ⟨r, hr, hlo, hhi⟩ := contains_iff.mp hn
  refine Bool.eq_false_iff.mpr fun hq => ?_
  obtain ⟨q, hq, hlo', hhi'⟩ := contains_iff.mp hq
  have := List.all_eq_true.mp (List.all_eq_true.mp h r hr) q hq
  simp only [Bool.or_eq_true, Nat.blt_eq] at this
  omega

end Ranges

/-! ### Blanks and digits -/

/-- The characters of white space beyond ASCII. -/
def blankRanges : Ranges :=
  [(0x85, 0x85), (0xa0, 0xa0), (0x1680, 0x1680), (0x2000, 0x200a), (0x2028, 0x2029), (0x202f, 0x202f), (0x205f, 0x205f),
   (0x3000, 0x3000)]

theorem contains_blankRanges {c : Char} (h : isBlank c = true) (hbeyond : 128 ≤ c.toNat) :
    blankRanges.contains c.toNat = true := by
  simp only [isBlank, Bool.or_eq_true, decide_eq_true_eq, beq_iff_eq] at h
  simp only [Ranges.contains, blankRanges, List.any_cons, List.any_nil, Bool.or_false, Bool.or_eq_true, Bool.and_eq_true,
    decide_eq_true_eq]
  omega

theorem isWord_of_isBlank {c : Char} (h : isBlank c = true) : isWord c = false := by
  by_cases hascii : c.toNat < 128
  · have hall : ∀ n < 128, isBlank (Char.ofNat n) = true → isWord (Char.ofNat n) = false := by decide
    have := hall c.toNat hascii
    rw [c.ofNat_toNat] at this
    exact this h
  · have hapart : blankRanges.apart wordRanges = true := by decide +kernel
    rw [isWord, if_neg hascii]
    exact Ranges.contains_of_apart hapart (contains_blankRanges h (Nat.le_of_not_lt hascii))

theorem isWord_of_isDigit {c : Char} (h : isDigit c = true) : isWord c = true := by
  unfold isDigit digitValue? at h
  dsimp only at h
  split at h
  · rename_i hascii
    split at h
    · have hall : ∀ n < 58, 48 ≤ n → isWord (Char.ofNat n) = true := by decide
      have := hall c.toNat (by omega) (by omega)
      rwa [c.ofNat_toNat] at this
    · cases h
  · rename_i hbeyond
    rw [Option.isSome_map, List.find?_isSome] at h
    obtain ⟨z, hz, hle⟩ := h
    simp only [Bool.and_eq_true, decide_eq_true_eq] at hle
    have hwithin : Ranges.within (digitZeros.map fun z => (z, z + 9)) wordRanges = true := by decide +kernel
    rw [isWord, if_neg hbeyond]
    exact Ranges.contains_of_within hwithin
      (Ranges.contains_iff.mpr ⟨(z, z + 9), List.mem_map.mpr ⟨z, hz, rfl⟩, hle⟩)

theorem isDigit_of_isBlank {c : Char} (h : isBlank c = true) : isDigit c = false := by
  refine Bool.eq_false_iff.mpr fun hdigit => ?_
  have hword := isWord_of_isDigit hdigit
  rw [isWord_of_isBlank h] at hword
  cases hword

/-! ### Lower case -/

theorem lowerChar_cases (c : Char) : (c.toNat < 128 ∧ (lowerChar c).toNat < 128) ∨ (128 ≤ c.toNat ∧ lowerChar c = c) ∨
    (128 ≤ c.toNat ∧ ∃ r ∈ lowerRuns, r.contains c.toNat = true ∧ lowerChar c = Char.ofNat (r.image c.toNat)) := by
  by_cases hascii : c.toNat < 128
  · have hlower : ∀ n < 128, (lowerChar (Char.ofNat n)).toNat < 128 := by decide
    have := hlower c.toNat hascii
    rw [c.ofNat_toNat] at this
    exact Or.inl ⟨hascii, this⟩
  have hmoved : lowerChar c = Char.ofNat (moveBy lowerRuns c.toNat) := by simp only [lowerChar, if_neg hascii]
  rcases moveBy_cases lowerRuns c.toNat with habsent | ⟨r, hr, hcontains, hmove⟩
  · exact Or.inr (Or.inl ⟨by omega, by rw [hmoved, moveBy_of_absent habsent, c.ofNat_toNat]⟩)
  · exact Or.inr (Or.inr ⟨by omega, r, hr, hcontains, by rw [hmoved, hmove]⟩)

/-- Only the dotted capital I and the Kelvin sign lead from beyond ASCII into it, and nothing leads to the letters
    beyond ASCII that are read as `i` and `s`. -/
theorem lowerRuns_image : ∀ r ∈ lowerRuns,
    (128 ≤ r.image r.first ∧ ∀ k ∈ [0x131, 0x17f], r.image r.last < k ∨ k < r.image r.first) ∨
      (r.first = r.last ∧ wordRanges.contains r.first = true) := by
  decide +kernel

/-- The lower case of a character that is a letter of a name, or is read as one, is that of a word's character. -/
theorem isWord_of_lowerChar {c : Char} (h : isNamePart (lowerChar c) = true ∨ (lowerChar c).toNat ∈ [0x131, 0x17f]) :
    isWord c = true := by
  have hascii : ∀ n < 128, isNamePart (lowerChar (Char.ofNat n)) = true → isWord (Char.ofNat n) = true := by
    decide
  have hkin : ∀ n ∈ [0x131, 0x17f], 128 ≤ n ∧ isWord (Char.ofNat n) = true := by decide
  rcases lowerChar_cases c with ⟨hc, hlow⟩ | ⟨hc, hsame⟩ | ⟨hc, r, hr, hcontains, hlow⟩
  · rcases h with h | h
    · have := hascii c.toNat hc
      rw [c.ofNat_toNat] at this
      exact this h
    · have := (hkin _ h).1
      omega
  · rw [hsame] at h
    rcases h with h | h
    · have := lt_of_isNamePart h
      omega
    · have := (hkin _ h).2
      rwa [c.ofNat_toNat] at this
  · obtain ⟨hlo, hhi, -⟩ := Run.contains_iff.mp hcontains
    rcases lowerRuns_image r hr with ⟨hbeyond, haway⟩ | ⟨hsingle, hword⟩
    · -- The image lies beyond ASCII and is none of the two letters.
      have hland := lands_lowerRuns r hr
      unfold Run.Lands at hland
      have hcode : (lowerChar c).toNat = r.image c.toNat := by
        have hvalid : (r.image c.toNat).isValidChar := by
          unfold Nat.isValidChar Run.image at *
          omega
        rw [hlow, Char.ofNat, dif_pos hvalid]
        rfl
      rcases h with h | h
      · have := lt_of_isNamePart h
        unfold Run.image at *
        omega
      · have := haway _ h
        rw [hcode] at this
        unfold Run.image at *
        omega
    · have hfirst : c.toNat = r.first := by omega
      have hbeyond : ¬ r.first < 128 := by omega
      simp only [isWord, hfirst, hbeyond, if_false, hword]

/-- What holds of the characters of ASCII one by one holds of the letters of names. -/
theorem forall_isNamePart {p : Char → Prop} (h : ∀ n < 128, p (Char.ofNat n)) {c : Char}
    (hc : isNamePart c = true) : p c := by
  have := h c.toNat (lt_of_isNamePart hc)
  rwa [c.ofNat_toNat] at this

theorem isNamePart_lowerChar {c : Char} (h : isNamePart c = true) : isNamePart (lowerChar c) = true :=
  forall_isNamePart (p := fun c => isNamePart c = true → isNamePart (lowerChar c) = true) (by decide) h h

/-- A character that is read as a letter, a digit or the underscore of ASCII belongs to a word as well. -/
theorem isWord_of_sameLetter {a c : Char} (ha : isNamePart a = true) (h : sameLetter a c = true) : isWord c = true := by
  have hlow := isNamePart_lowerChar ha
  simp only [sameLetter, Bool.or_eq_true, beq_iff_eq] at h
  rcases h with h | h
  · exact isWord_of_lowerChar (Or.inl (h ▸ hlow))
  · -- Apart from lower case, only the dotless i and the long s are read as letters of ASCII.
    have hkin : ∀ e ∈ caseKin, e.1 < 128 → ∀ k ∈ e.2, k ∈ [0x131, 0x17f] := by decide
    cases hfind : caseKin.find? (·.1 == (lowerChar a).toNat) with
    | none => simp [hfind] at h
    | some e =>
      have hkey : e.1 = (lowerChar a).toNat := by simpa using List.find?_some hfind
      have hmem : (lowerChar c).toNat ∈ e.2 := by simpa [hfind] using h
      exact isWord_of_lowerChar (Or.inr (hkin e (List.mem_of_find?_eq_some hfind)
        (hkey ▸ lt_of_isNamePart hlow) _ hmem))

/-! ### Names in lower case -/

theorem isNameStart_lowerChar {c : Char} (h : isNameStart c = true) : isNameStart (lowerChar c) = true :=
  forall_isNamePart (p := fun c => isNameStart c = true → isNameStart (lowerChar c) = true) (by decide)
    (isNamePart_of_isNameStart h) h

/-- A name is put into lower case letter by letter. -/
theorem lowerAfter_of_isNamePart : ∀ {cs before : List Char}, (∀ c ∈ cs, isNamePart c = true) →
    lowerAfter before cs = cs.map lowerChar
  | [], _, _ => rfl
  | c :: cs, before, h => by
    obtain ⟨hc, hcs⟩ := List.forall_mem_cons.mp h
    have hascii : ∀ n < 128, Char.ofNat n ≠ 'Σ' ∧ Char.ofNat n ≠ 'İ' := by decide
    obtain ⟨hsigma, hdotted⟩ := forall_isNamePart (p := fun c => c ≠ 'Σ' ∧ c ≠ 'İ') hascii hc
    have hfirst : lowerBetween before c cs = [lowerChar c] := by simp [lowerBetween, hsigma, hdotted]
    rw [lowerAfter, hfirst, lowerAfter_of_isNamePart hcs]
    rfl

theorem toList_lower_of_isName {s : String} (h : isName s.toList = true) :
    (lower s).toList = s.toList.map lowerChar := by
  rw [lower, String.toList_ofList, lowerAfter_of_isNamePart (isNamePart_of_isName h)]

theorem isName_lower {s : String} (h : isName s.toList = true) : isName (lower s).toList = true := by
  rw [toList_lower_of_isName h]
  cases hs : s.toList with
  | nil =>
    rw [hs] at h
    cases h
  | cons c cs =>
    rw [hs] at h
    obtain ⟨hstart, hrest⟩ := Bool.and_eq_true_iff.mp h
    refine Bool.and_eq_true_iff.mpr ⟨isNameStart_lowerChar hstart, List.all_eq_true.mpr fun d hd => ?_⟩
    obtain ⟨d', hd', rfl⟩ := List.mem_map.mp hd
    exact isNamePart_lowerChar (List.all_eq_true.mp hrest d' hd')

/-- A name of which all letters are small ones. -/
def isLowerName (cs : List Char) : Bool := isName cs && cs.all fun c => lowerChar c == c

theorem map_lowerChar_of_isLowerName {cs : List Char} (h : isLowerName cs = true) : cs.map lowerChar = cs := by
  have hall := List.all_eq_true.mp (Bool.and_eq_true_iff.mp h).2
  rw [List.map_congr_left fun c hc => beq_iff_eq.mp (hall c hc)]
  exact List.map_id cs

theorem lower_of_isLowerName {s : String} (h : isLowerName s.toList = true) : lower s = s := by
  refine String.toList_inj.mp ?_
  rw [toList_lower_of_isName (Bool.and_eq_true_iff.mp h).1, map_lowerChar_of_isLowerName h]

theorem isLowerName_lower {s : String} (h : isName s.toList = true) : isLowerName (lower s).toList = true := by
  refine Bool.and_eq_true_iff.mpr ⟨isName_lower h, List.all_eq_true.mpr fun c hc => ?_⟩
  rw [toList_lower_of_isName h] at hc
  obtain ⟨d, hd, rfl⟩ := List.mem_map.mp hc
  exact forall_isNamePart (p := fun c => (lowerChar (lowerChar c) == lowerChar c) = true) (by decide)
    (isNamePart_of_isName h d hd)

theorem isWord_of_isNamePart {c : Char} (h : isNamePart c = true) : isWord c = true := by
  have hascii := lt_of_isNamePart h
  rw [isWord, if_pos hascii]
  exact h

end Reckoner.Text
