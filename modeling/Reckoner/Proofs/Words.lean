import Mathlib.Data.List.TakeWhile
import Reckoner.Proofs.Seams

/-!
# Words

How a word of ASCII is read, that is followed by white space or nothing: as a keyword, as the name of a function if a call
is opened behind it, or else as an identifier (`Lexicon.takes_word`). Unless letter case counts it is read in lower case.
-/

namespace Reckoner
open Text

/-- All names of functions are names in small letters. -/
def Lexicon.IsLower (lexicon : Lexicon) : Prop := ∀ name ∈ lexicon.functionNames, isLowerName name.toList = true

theorem Lexicon.isLower_make {names : List String} {caseSensitive : Bool}
    (h : ∀ name ∈ names, isName name.toList = true) :
    (Lexicon.make names caseSensitive).IsLower := by
  have hbuiltin : ∀ name ∈ builtinFunctions, isLowerName name.toList = true := by decide
  refine List.forall_mem_append.mpr ⟨hbuiltin, fun name hname => ?_⟩
  obtain ⟨name', hname', rfl⟩ := List.mem_map.mp (List.mem_filter.mp hname).1
  exact isLowerName_lower (h name' hname')

theorem Lexicon.IsLower.isAscii {lexicon : Lexicon} (h : lexicon.IsLower) : lexicon.IsAscii :=
  fun name hname => (Bool.and_eq_true_iff.mp (h name hname)).1

/-- A word as it is compared: in lower case, unless letter case counts. -/
def Lexicon.shown (lexicon : Lexicon) (cs : List Char) : String :=
  if lexicon.caseSensitive then String.ofList cs else lower (String.ofList cs)

namespace Scanner

variable {lexicon : Lexicon} {word cs rest : List Char} {name : String} {names : List String}

/-! ### Letters of small words -/

/-- Among the characters of ASCII a small letter is read in its two cases only. -/
theorem letters_eq {w c : Char} (hw : isNamePart w = true) (hlower : lowerChar w = w) (hc : isNamePart c = true) :
    letters lexicon w c = (w == if lexicon.caseSensitive then c else lowerChar c) := by
  unfold letters
  split
  · rfl
  · have hkin : ∀ e ∈ caseKin, e.1 < 128 → ∀ k ∈ e.2, 128 ≤ k := by decide
    rw [sameLetter, hlower]
    cases hfind : caseKin.find? (·.1 == w.toNat) with
    | none => simp [Bool.beq_comm]
    | some e =>
      have hkey : e.1 = w.toNat := by simpa using List.find?_some hfind
      have hfar : (lowerChar c).toNat ∉ e.2 := fun hmem => by
        have := hkin e (List.mem_of_find?_eq_some hfind) (hkey ▸ lt_of_isNamePart hw) _ hmem
        have := lt_of_isNamePart (isNamePart_lowerChar hc)
        omega
      simp [hfar, Bool.beq_comm]

theorem toList_shown (h : isName cs = true) :
    (lexicon.shown cs).toList = cs.map fun c => if lexicon.caseSensitive then c else lowerChar c := by
  unfold Lexicon.shown
  split
  · rw [String.toList_ofList]
    exact (List.map_id cs).symm
  · rw [toList_lower_of_isName (by rwa [String.toList_ofList]), String.toList_ofList]

theorem startsWith_eq : ∀ {word cs : List Char}, (∀ w ∈ word, isNamePart w = true ∧ lowerChar w = w) →
    (∀ c ∈ cs, isNamePart c = true) → startsWith (letters lexicon) word cs =
      word.isPrefixOf (cs.map fun c => if lexicon.caseSensitive then c else lowerChar c)
  | [], _, _, _ => by simp only [startsWith, List.isPrefixOf_nil_left]
  | _ :: _, [], _, _ => rfl
  | w :: word, c :: cs, hword, hcs => by
    obtain ⟨⟨hw, hlower⟩, hword⟩ := List.forall_mem_cons.mp hword
    obtain ⟨hc, hcs⟩ := List.forall_mem_cons.mp hcs
    rw [startsWith, letters_eq hw hlower hc, startsWith_eq hword hcs]
    rfl

/-! ### Where a word ends -/

theorem wordEndsAt_length (hne : cs ≠ []) (h : ∀ c ∈ cs, isWord c = true) : wordEndsAt cs.length cs = true := by
  unfold wordEndsAt
  rw [List.take_length, List.getLast?_eq_some_getLast hne, List.drop_length]
  show (isWord _ != false) = true
  rw [h _ (List.getLast_mem hne)]
  rfl

/-- No word ends inside of a word. -/
theorem length_le_of_wordEndsAt {n : Nat} (h : ∀ c ∈ cs, isWord c = true) (hends : wordEndsAt n cs = true) :
    cs.length ≤ n := by
  refine Nat.le_of_not_lt fun hlt => ?_
  unfold wordEndsAt at hends
  cases hlast : (cs.take n).getLast? with
  | none => simp [hlast] at hends
  | some c =>
    have hc : isWord c = true := h c (List.mem_of_mem_take (List.mem_of_getLast? hlast))
    have hnext : (cs.drop n).head? = some cs[n] := by rw [List.head?_drop, List.getElem?_eq_getElem hlt]
    simp [hlast, endsWord, hc, hnext, h cs[n] (List.getElem_mem hlt)] at hends

/-- A small word stands at the front of a name if it is the whole name. -/
theorem spells_iff (hname : isLowerName name.toList = true) (hcs : isName cs = true) :
    Spells lexicon name cs ↔ name = lexicon.shown cs := by
  have hparts := isNamePart_of_isName hcs
  have hwords : ∀ c ∈ cs, isWord c = true := fun c hc => isWord_of_isNamePart (hparts c hc)
  have hsmall : ∀ w ∈ name.toList, isNamePart w = true ∧ lowerChar w = w := by
    obtain ⟨hname, hlower⟩ := Bool.and_eq_true_iff.mp hname
    exact fun w hw => ⟨isNamePart_of_isName hname w hw, beq_iff_eq.mp (List.all_eq_true.mp hlower w hw)⟩
  have hlength : (lexicon.shown cs).toList.length = cs.length := by rw [toList_shown hcs, List.length_map]
  have hne : cs ≠ [] := by
    rintro rfl
    cases hcs
  rw [Spells, startsWith_eq hsmall hparts, ← toList_shown hcs, List.isPrefixOf_iff_prefix]
  constructor
  · rintro ⟨hfront, hends⟩
    have hle := length_le_of_wordEndsAt hwords hends
    rw [← String.length_toList, ← hlength] at hle
    exact String.toList_inj.mp (hfront.eq_of_length_le hle)
  · rintro rfl
    rw [← String.length_toList, hlength]
    exact ⟨List.prefix_refl _, wordEndsAt_length hne hwords⟩

/-! ### What the scanners recognise in a word -/

section Gap
variable (hcs : isName cs = true) (hgap : AtGap rest)
include hcs

theorem length_shown : (lexicon.shown cs).length = cs.length := by
  rw [← String.length_toList, toList_shown hcs, List.length_map]

include hgap

theorem spells_append_iff (hname : isLowerName name.toList = true) :
    Spells lexicon name (cs ++ rest) ↔ name = lexicon.shown cs := by
  have hparts := isNamePart_of_isName (Bool.and_eq_true_iff.mp hname).1
  rw [← spells_iff hname hcs, Spells, Spells, ← Bool.and_eq_true_iff, ← Bool.and_eq_true_iff, spells_gap hgap hparts]

theorem wordLength_word (hnames : ∀ name ∈ names, isLowerName name.toList = true) :
    wordLength lexicon names (cs ++ rest) = if lexicon.shown cs ∈ names then cs.length else 0 := by
  have hfits : ∀ name ∈ names, (startsWith (letters lexicon) name.toList (cs ++ rest) &&
      wordEndsAt name.length (cs ++ rest)) = (name == lexicon.shown cs) := by
    intro name hname
    rw [Bool.eq_iff_iff, Bool.and_eq_true_iff, beq_iff_eq]
    exact spells_append_iff hcs hgap (hnames name hname)
  unfold wordLength
  dsimp only
  rw [List.find?_congr hfits]
  split
  · rename_i hmem
    cases hfind : names.find? (· == lexicon.shown cs) with
    | none => exact absurd (beq_self_eq_true _) (List.find?_eq_none.mp hfind _ hmem)
    | some name =>
      have hname : name = lexicon.shown cs := by simpa using List.find?_some hfind
      rw [hname, Option.map_some, Option.getD_some, length_shown hcs]
  · rename_i hmem
    have hnone : names.find? (· == lexicon.shown cs) = none :=
      List.find?_eq_none.mpr fun name hname h => hmem (beq_iff_eq.mp h ▸ hname)
    rw [hnone]
    rfl

theorem functionLength_word (hlower : lexicon.IsLower) : functionLength lexicon (cs ++ rest) =
    if lexicon.shown cs ∈ lexicon.functionNames ∧ opensCall rest = true then cs.length else 0 := by
  have hopens : ∀ name ∈ lexicon.functionNames, OpensCall lexicon (cs ++ rest) name ↔
      name = lexicon.shown cs ∧ opensCall rest = true := by
    intro name hname
    rw [OpensCall, spells_append_iff hcs hgap (hlower name hname)]
    refine and_congr_right fun h => ?_
    rw [h, length_shown hcs, List.drop_left]
  by_cases hpos : 0 < functionLength lexicon (cs ++ rest)
  · obtain ⟨name, hname, hcall, hlen⟩ := functionLength_pos hpos
    obtain ⟨rfl, hrest⟩ := (hopens name hname).mp hcall
    rw [hlen, length_shown hcs, if_pos ⟨hname, hrest⟩]
  · rw [if_neg, Nat.eq_zero_of_not_pos hpos]
    rintro ⟨hname, hrest⟩
    have hle := le_functionLength hname ((hopens _ hname).mpr ⟨rfl, hrest⟩)
    rw [length_shown hcs] at hle
    have hne : 0 < cs.length := List.length_pos_iff.mpr (by rintro rfl; cases hcs)
    omega

theorem identifierLength_word : identifierLength (cs ++ rest) = cs.length := by
  cases cs with
  | nil => cases hcs
  | cons c cs =>
    obtain ⟨hstart, hparts⟩ := Bool.and_eq_true_iff.mp hcs
    have hwords : ∀ d ∈ cs, isWord d = true := fun d hd => isWord_of_isNamePart (List.all_eq_true.mp hparts d hd)
    rw [List.cons_append, identifierLength, if_pos hstart, hgap.takeWhile_append fun _ => isWord_of_isBlank,
      List.takeWhile_eq_self_iff.mpr hwords]
    rfl

end Gap
end Scanner

/-! ### The token of a word -/

namespace Lexicon
open Scanner
variable {lexicon : Lexicon} {cs rest : List Char}

/-- The token of a word, behind which a call is opened or not. -/
def wordToken (lexicon : Lexicon) (cs : List Char) (opens : Bool) : Token :=
  let word := lexicon.shown cs
  if word ∈ ["and", "or"] then ⟨.combinator, .text word⟩
  else if word ∈ ["true", "false"] then ⟨.logical, .bool (word == "true")⟩
  else if word ∈ lexicon.functionNames ∧ opens = true then ⟨.function, .text word⟩
  else ⟨.identifier, .text word⟩

theorem lower_ofList (h : isLowerName (lexicon.shown cs).toList = true) :
    lower (String.ofList cs) = lexicon.shown cs := by
  have hlower := lower_of_isLowerName h
  unfold shown at hlower ⊢
  split at hlower
  · rename_i hcase
    rw [if_pos hcase, hlower]
  · rename_i hcase
    rw [if_neg hcase]

/-- No symbol, number or quotation starts as a name does. -/
theorem length_of_isName (hlower : lexicon.IsLower) (hcs : isName cs = true) (rest : List Char) :
    ∀ s ∈ Scanner.combinator.above, s.length lexicon (cs ++ rest) = 0 := by
  cases cs with
  | nil => cases hcs
  | cons c cs =>
    intro s hs
    have hstart := (Bool.and_eq_true_iff.mp hcs).1
    have hother : ∀ s ∈ Scanner.combinator.above, ∀ n < 128, isNameStart (Char.ofNat n) = true →
        s.starts (Char.ofNat n) = false := by decide
    have hno := forall_isNamePart (p := fun c => isNameStart c = true → s.starts c = false) (hother s hs)
      (isNamePart_of_isNameStart hstart) hstart
    refine Nat.eq_zero_of_not_pos fun hpos => ?_
    rw [starts_of_length hlower.isAscii hpos] at hno
    cases hno

/-- A word is taken as a keyword, as the name of a function that is called, or else as an identifier. -/
theorem takes_word (hlower : lexicon.IsLower) (hcs : isName cs = true) (hgap : AtGap rest) :
    ∃ s, lexicon.Takes s cs rest ∧ s.token lexicon cs = .ok (some (lexicon.wordToken cs (opensCall rest))) := by
  have hne : cs ≠ [] := by rintro rfl; cases hcs
  have hbefore := length_of_isName hlower hcs rest
  have hcombinators : ∀ word ∈ combinatorWords, isLowerName word.toList = true := by decide
  have hlogicals : ∀ word ∈ logicalWords, isLowerName word.toList = true := by decide
  have hcombinator : Scanner.combinator.length lexicon (cs ++ rest) =
      if lexicon.shown cs ∈ combinatorWords then cs.length else 0 :=
    wordLength_word hcs hgap hcombinators
  have hlogical : Scanner.logical.length lexicon (cs ++ rest) =
      if lexicon.shown cs ∈ logicalWords then cs.length else 0 :=
    wordLength_word hcs hgap hlogicals
  have hfunction : Scanner.function.length lexicon (cs ++ rest) =
      if lexicon.shown cs ∈ lexicon.functionNames ∧ opensCall rest = true then cs.length else 0 :=
    functionLength_word hcs hgap hlower
  -- The scanners of words, as they stand behind the others.
  have above : ∀ {s : Scanner} (ss : List Scanner), s.above = Scanner.combinator.above ++ ss →
      (∀ s' ∈ ss, s'.length lexicon (cs ++ rest) = 0) → ∀ s' ∈ s.above, s'.length lexicon (cs ++ rest) = 0 :=
    fun _ hsplit hss => hsplit ▸ List.forall_mem_append.mpr ⟨hbefore, hss⟩
  by_cases hand : lexicon.shown cs ∈ combinatorWords
  · have htoken : lexicon.wordToken cs (opensCall rest) = ⟨.combinator, .text (lexicon.shown cs)⟩ := if_pos hand
    refine ⟨.combinator, ⟨hne, by rw [hcombinator, if_pos hand], hbefore⟩, ?_⟩
    rw [htoken, ← lower_ofList (hcombinators _ hand)]
    rfl
  rw [if_neg hand] at hcombinator
  by_cases htrue : lexicon.shown cs ∈ logicalWords
  · have htoken : lexicon.wordToken cs (opensCall rest) = ⟨.logical, .bool (lexicon.shown cs == "true")⟩ :=
      (if_neg hand).trans (if_pos htrue)
    refine ⟨.logical, ⟨hne, by rw [hlogical, if_pos htrue], above [.combinator] rfl (by simp [hcombinator])⟩, ?_⟩
    rw [htoken, ← lower_ofList (hlogicals _ htrue)]
    rfl
  rw [if_neg htrue] at hlogical
  by_cases hcall : lexicon.shown cs ∈ lexicon.functionNames ∧ opensCall rest = true
  · have htoken : lexicon.wordToken cs (opensCall rest) = ⟨.function, .text (lexicon.shown cs)⟩ :=
      (if_neg hand).trans ((if_neg htrue).trans (if_pos hcall))
    refine ⟨.function, ⟨hne, by rw [hfunction, if_pos hcall],
      above [.combinator, .logical] rfl (by simp [hcombinator, hlogical])⟩, ?_⟩
    rw [htoken, ← lower_ofList (hlower _ hcall.1)]
    rfl
  · rw [if_neg hcall] at hfunction
    have htoken : lexicon.wordToken cs (opensCall rest) = ⟨.identifier, .text (lexicon.shown cs)⟩ :=
      (if_neg hand).trans ((if_neg htrue).trans (if_neg hcall))
    refine ⟨.identifier, ⟨hne, identifierLength_word hcs hgap,
      above [.combinator, .logical, .function] rfl (by simp [hcombinator, hlogical, hfunction])⟩, ?_⟩
    rw [htoken]
    rfl

end Lexicon
end Reckoner
