import Mathlib.Data.List.Basic
import Reckoner.Number.Reading
import Reckoner.Proofs.Letters

/-!
# Reading numerals

Digits of any script are read as the integer that they write (`Reading.integer?_digits`), and digits on both sides of a
point as the float nearest to the decimal fraction (`Reading.real?_decimal`).
-/

namespace Reckoner

/-- The number that decimal digits write. -/
def Text.decimalValue (digits : List Char) : Nat := digits.foldl (fun n c => 10 * n + (digitValue? c).getD 0) 0

namespace Reading
open Text

/-! ### Digits in ASCII -/

variable {c : Char} {d : Nat} {digits whole fraction : List Char}

theorem digitValue?_cases (h : digitValue? c = some d) :
    (c.toNat < 127 ∧ c.toNat = 48 + d ∧ d < 10) ∨ (128 ≤ c.toNat ∧ d < 10) := by
  unfold digitValue? at h
  dsimp only at h
  split at h
  · split at h
    · have := Option.some.inj h
      exact Or.inl ⟨by omega, by omega, by omega⟩
    · cases h
  · obtain ⟨z, hz, hd⟩ := Option.map_eq_some_iff.mp h
    have hle := List.find?_some hz
    simp only [Bool.and_eq_true, decide_eq_true_eq] at hle
    exact Or.inr ⟨by omega, by omega⟩

theorem toAscii_digit (h : digitValue? c = some d) : toAscii c = Char.ofNat (48 + d) := by
  unfold toAscii
  rcases digitValue?_cases h with ⟨hascii, hcode, -⟩ | ⟨hbeyond, -⟩
  · rw [if_pos hascii, ← hcode, c.ofNat_toNat]
  · have hblank : isBlank c = false := Bool.eq_false_iff.mpr fun hblank => by
      have hdigit := isDigit_of_isBlank hblank
      rw [isDigit, h] at hdigit
      cases hdigit
    rw [if_neg (by omega), hblank, h]
    rfl

/-- A digit of ASCII is no blank, no sign and no underscore, and it has no case. -/
structure IsPlainDigit (c : Char) : Prop where
  digit : c.isDigit = true
  not_blank : isAsciiBlank c = false
  not_mark : c ≠ '-' ∧ c ≠ '+' ∧ c ≠ '_'
  lower : c.toLower = c

theorem isPlainDigit_toAscii (h : isDigit c = true) :
    IsPlainDigit (toAscii c) ∧ (toAscii c).toNat - 48 = (digitValue? c).getD 0 := by
  have hplain : ∀ d < 10, let c := Char.ofNat (48 + d)
      c.isDigit = true ∧ isAsciiBlank c = false ∧ (c ≠ '-' ∧ c ≠ '+' ∧ c ≠ '_') ∧ c.toLower = c ∧ c.toNat - 48 = d := by
    decide
  obtain ⟨d, hd⟩ := Option.isSome_iff_exists.mp h
  have hlt : d < 10 := by rcases digitValue?_cases hd with h | h <;> omega
  obtain ⟨hdigit, hblank, hmark, hlower, hvalue⟩ := hplain d hlt
  rw [toAscii_digit hd, hd]
  exact ⟨⟨hdigit, hblank, hmark, hlower⟩, hvalue⟩

theorem valueOf_map_toAscii (h : ∀ c ∈ digits, isDigit c = true) :
    valueOf (digits.map toAscii) = decimalValue digits := by
  rw [valueOf, decimalValue, List.foldl_map]
  exact List.foldl_ext _ _ 0 fun n c hc => by rw [(isPlainDigit_toAscii (h c hc)).2]

/-! ### What stands around the digits -/

theorem normalise_eq (h : ∀ c ∈ digits, isAsciiBlank (toAscii c) = false) : normalise digits = digits.map toAscii := by
  have hkept : ∀ s : List Char, (∀ c ∈ s, isAsciiBlank c = false) → s.dropWhile isAsciiBlank = s := by
    intro s hs
    cases s with
    | nil => rfl
    | cons c s => exact List.dropWhile_cons_of_neg (by simp [hs c])
  have hmap : ∀ c ∈ digits.map toAscii, isAsciiBlank c = false := List.forall_mem_map.mpr h
  rw [normalise, hkept _ hmap, hkept _ fun c hc => hmap c (List.mem_reverse.mp hc), List.reverse_reverse]

theorem signed_eq {body : List Char} (h : ∀ c ∈ body.head?, c ≠ '-' ∧ c ≠ '+') : signed body = (false, body) := by
  unfold signed
  split
  · exact absurd rfl (h _ rfl).1
  · exact absurd rfl (h _ rfl).2
  · rfl

theorem joinDigits?_eq : ∀ {s : List Char} {last : Char}, last ≠ '_' → (∀ c ∈ s, c ≠ '_') →
    joinDigits? last s = some s
  | [], last, hlast, _ => by simp [joinDigits?, hlast]
  | c :: s, last, hlast, h => by
    obtain ⟨hc, hs⟩ := List.forall_mem_cons.mp h
    simp [joinDigits?, hc, hlast, joinDigits?_eq hc hs]

/-! ### Integers and decimal fractions -/

theorem integer?_of_digits (hne : digits ≠ []) (h : ∀ c ∈ digits, isDigit c = true) : integer? digits =
    if digitLimit < digits.length then none else some (decimalValue digits : Int) := by
  have hplain : ∀ c ∈ digits.map toAscii, IsPlainDigit c :=
    List.forall_mem_map.mpr fun c hc => (isPlainDigit_toAscii (h c hc)).1
  have hbody : normalise digits = digits.map toAscii :=
    normalise_eq fun c hc => (isPlainDigit_toAscii (h c hc)).1.not_blank
  have hsigned : signed (digits.map toAscii) = (false, digits.map toAscii) :=
    signed_eq fun c hc => ⟨(hplain c (List.mem_of_head? hc)).not_mark.1, (hplain c (List.mem_of_head? hc)).not_mark.2.1⟩
  have hjoin : joinDigits? ' ' (digits.map toAscii) = some (digits.map toAscii) :=
    joinDigits?_eq (by decide) fun c hc => (hplain c hc).not_mark.2.2
  have hall : (digits.map toAscii).all Char.isDigit = true := List.all_eq_true.mpr fun c hc => (hplain c hc).digit
  simp [integer?, hbody, hsigned, hjoin, hall, hne, valueOf_map_toAscii h]

theorem integer?_digits (hne : digits ≠ []) (h : ∀ c ∈ digits, isDigit c = true) (hlen : digits.length ≤ digitLimit) :
    integer? digits = some (decimalValue digits : Int) := by
  rw [integer?_of_digits hne h, if_neg (Nat.not_lt.mpr hlen)]

theorem takeWhile_isDigit {ds : List Char} (rest : List Char) (h : ∀ c ∈ ds, c.isDigit = true)
    (hrest : ∀ c ∈ rest.head?, c.isDigit = false) :
    (ds ++ rest).takeWhile Char.isDigit = ds ∧ (ds ++ rest).dropWhile Char.isDigit = rest := by
  rw [List.takeWhile_append_of_pos h, List.dropWhile_append_of_pos h]
  cases rest with
  | nil => exact ⟨List.append_nil _, rfl⟩
  | cons c rest =>
    have hc : ¬ c.isDigit = true := by simp [hrest c rfl]
    rw [List.takeWhile_cons_of_neg hc, List.dropWhile_cons_of_neg hc, List.append_nil]
    exact ⟨rfl, rfl⟩

theorem decimal?_digits {ws fs : List Char} (hne : ws ≠ []) (hw : ∀ c ∈ ws, c.isDigit = true)
    (hf : ∀ c ∈ fs, c.isDigit = true) :
    decimal? false (ws ++ '.' :: fs) = some (ofDecimal false (valueOf (ws ++ fs)) (0 - fs.length)) := by
  obtain ⟨htake, hdrop⟩ := takeWhile_isDigit ('.' :: fs) hw fun c hc => Option.some.inj hc ▸ by decide
  obtain ⟨htake', hdrop'⟩ := takeWhile_isDigit [] hf fun c hc => by cases hc
  rw [List.append_nil] at htake' hdrop'
  simp [decimal?, htake, hdrop, htake', hdrop', hne, exponent?]

/-- A text that starts with a digit or a point is neither an infinity nor the NaN. -/
theorem real?_of_normalise {s ds : List Char} (hbody : normalise s = c :: ds) (hc : IsPlainDigit c ∨ c = '.')
    (hds : ∀ d ∈ ds, d ≠ '_') : real? s = decimal? false (c :: ds) := by
  have hmark : c ≠ '-' ∧ c ≠ '+' ∧ c ≠ '_' := hc.elim (·.not_mark) fun h => h ▸ by decide
  have hlower : c.toLower = c := hc.elim (·.lower) fun h => h ▸ by decide
  have hopens : (c.isDigit || c == '.') = true := hc.elim (fun h => by simp [h.digit]) fun h => by simp [h]
  have hsigned : signed (c :: ds) = (false, c :: ds) := signed_eq fun d hd => Option.some.inj hd ▸ ⟨hmark.1, hmark.2.1⟩
  have hjoin : joinDigits? ' ' (c :: ds) = some (c :: ds) :=
    joinDigits?_eq (by decide) (List.forall_mem_cons.mpr ⟨hmark.2.2, hds⟩)
  have hword : ∀ word ∈ ["inf", "infinity", "nan"], String.ofList ((c :: ds).map Char.toLower) ≠ word := by
    intro word hmem h
    have hletters : ∀ word ∈ ["inf", "infinity", "nan"],
        word.toList.head?.any (fun c => c.isDigit || c == '.') = false := by
      decide
    have hhead : word.toList.head? = some c := by
      rw [← h, String.toList_ofList, List.map_cons, hlower]
      rfl
    have hfirst := hletters word hmem
    rw [hhead, Option.any_some, hopens] at hfirst
    cases hfirst
  simp only [List.mem_cons, List.not_mem_nil, or_false, forall_eq_or_imp, forall_eq] at hword
  unfold real?
  rw [hbody]
  simp only [hsigned, Bool.or_eq_true, beq_iff_eq, hword, or_self, if_false, hjoin, Option.bind_some]

theorem real?_decimal (hne : whole ≠ []) (hw : ∀ c ∈ whole, isDigit c = true)
    (hf : ∀ c ∈ fraction, isDigit c = true) : real? (whole ++ '.' :: fraction) =
      some (ofDecimal false (decimalValue (whole ++ fraction)) (0 - fraction.length)) := by
  have hplain : ∀ {ds : List Char}, (∀ c ∈ ds, isDigit c = true) → ∀ c ∈ ds.map toAscii, IsPlainDigit c := fun h =>
    List.forall_mem_map.mpr fun c hc => (isPlainDigit_toAscii (h c hc)).1
  have hpoint : toAscii '.' = '.' := by decide
  have hbody : normalise (whole ++ '.' :: fraction) = whole.map toAscii ++ '.' :: fraction.map toAscii := by
    rw [normalise_eq, List.map_append, List.map_cons, hpoint]
    refine List.forall_mem_append.mpr ⟨fun c hc => ?_, List.forall_mem_cons.mpr ⟨by decide, fun c hc => ?_⟩⟩
    · exact (isPlainDigit_toAscii (hw c hc)).1.not_blank
    · exact (isPlainDigit_toAscii (hf c hc)).1.not_blank
  have hdecimal := decimal?_digits (by simpa using hne) (fun c hc => (hplain hw c hc).digit)
    fun c hc => (hplain hf c hc).digit
  rw [← List.map_append, valueOf_map_toAscii (List.forall_mem_append.mpr ⟨hw, hf⟩), List.length_map] at hdecimal
  obtain ⟨d, ds, rfl⟩ := List.exists_cons_of_ne_nil hne
  rw [← hdecimal]
  refine real?_of_normalise hbody (Or.inl (hplain hw _ (List.mem_cons_self ..))) ?_
  refine List.forall_mem_append.mpr ⟨fun c hc => ?_, List.forall_mem_cons.mpr ⟨by decide, fun c hc => ?_⟩⟩
  · exact (hplain hw c (List.mem_cons_of_mem _ hc)).not_mark.2.2
  · exact (hplain hf c hc).not_mark.2.2

/-- A point with digits behind it is read as a float, whether or not digits stand in front of it. -/
theorem exists_real? (hne : fraction ≠ []) (hw : ∀ c ∈ whole, isDigit c = true) (hf : ∀ c ∈ fraction, isDigit c = true) :
    ∃ x, real? (whole ++ '.' :: fraction) = some x := by
  by_cases hwhole : whole = []
  · have hplain : ∀ c ∈ fraction.map toAscii, IsPlainDigit c :=
      List.forall_mem_map.mpr fun c hc => (isPlainDigit_toAscii (hf c hc)).1
    have hpoint : toAscii '.' = '.' := by decide
    have hbody : normalise ('.' :: fraction) = '.' :: fraction.map toAscii := by
      rw [normalise_eq, List.map_cons, hpoint]
      exact List.forall_mem_cons.mpr ⟨by decide, fun c hc => (isPlainDigit_toAscii (hf c hc)).1.not_blank⟩
    obtain ⟨htake, hdrop⟩ := takeWhile_isDigit [] (fun c hc => (hplain c hc).digit) fun c hc => by cases hc
    rw [List.append_nil] at htake hdrop
    rw [hwhole, List.nil_append, real?_of_normalise hbody (Or.inr rfl) fun c hc => (hplain c hc).not_mark.2.2]
    simp [decimal?, htake, hdrop, hne, exponent?, show Char.isDigit '.' = false by decide]
  · exact ⟨_, real?_decimal hwhole hw hf⟩

end Reading
end Reckoner
