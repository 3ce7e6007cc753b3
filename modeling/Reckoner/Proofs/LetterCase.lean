import Mathlib.Data.List.TakeWhile
import Reckoner.Proofs.Assignments
import Reckoner.Proofs.Tiling

/-!
# Letter case

A calculator that does not tell names apart by letter case reads a text without quotes as the one in which every letter
of ASCII is a small one, and finds the values given with it under keys in any letter case and in any order
(`Calculator.evaluate_sameButCase`). What is about the text itself stays so: an unreadable text is reported as it was
given.
-/

namespace Reckoner

/-! ### Capital and small letters -/

namespace Text
variable {cs : List Char}

/-- The letters of ASCII. -/
def letterRanges : Ranges := [(65, 90), (97, 122)]

/-- The text with small letters in place of the capital ones of ASCII. -/
def small (cs : List Char) : List Char := cs.map Char.toLower

/-- The two texts differ at most in the case of letters of ASCII. -/
def SameButCase (s t : String) : Prop := small s.toList = small t.toList

theorem toLower_cases (c : Char) : c.toLower = c ∨ (65 ≤ c.toNat ∧ c.toNat ≤ 90) := by
  unfold Char.toLower
  split
  · rename_i hcapital
    exact Or.inr ⟨hcapital.1, hcapital.2⟩
  · exact Or.inl rfl

/-- What is the same for both cases of every letter of ASCII is so for all characters. -/
theorem apply_toLower {α : Type} {f : Char → α} (h : ∀ n < 128, f (Char.ofNat n).toLower = f (Char.ofNat n)) (c : Char) :
    f c.toLower = f c := by
  rcases toLower_cases c with hsame | ⟨-, hcapital⟩
  · rw [hsame]
  · have := h c.toNat (by omega)
    rwa [c.ofNat_toNat] at this

theorem isBlank_toLower (c : Char) : isBlank c.toLower = isBlank c := apply_toLower (by decide) c

theorem isDigit_toLower (c : Char) : isDigit c.toLower = isDigit c := apply_toLower (by decide) c

theorem isWord_toLower (c : Char) : isWord c.toLower = isWord c := apply_toLower (by decide) c

theorem isNameStart_toLower (c : Char) : isNameStart c.toLower = isNameStart c := apply_toLower (by decide) c

theorem lowerChar_toLower (c : Char) : lowerChar c.toLower = lowerChar c := apply_toLower (by decide) c

theorem toLower_of_not_isAlpha {c : Char} (h : c.isAlpha = false) : c.toLower = c := by
  rcases toLower_cases c with hsame | ⟨hlow, hhigh⟩
  · exact hsame
  · have hcapital : ∀ n < 91, 65 ≤ n → (Char.ofNat n).isAlpha = true := by decide
    have := hcapital c.toNat (by omega) hlow
    rw [c.ofNat_toNat, h] at this
    cases this

/-- A character that is no letter of ASCII is told from the small letters as from the capital ones. -/
theorem beq_toLower {w : Char} (h : w.isAlpha = false) (c : Char) : (w == c.toLower) = (w == c) := by
  cases hc : c.isAlpha with
  | false => rw [toLower_of_not_isAlpha hc]
  | true =>
    have hsmall : c.toLower.isAlpha = true := (apply_toLower (f := Char.isAlpha) (by decide) c).trans hc
    have hne : ∀ d : Char, d.isAlpha = true → (w == d) = false := fun d hd => beq_eq_false_iff_ne.mpr fun hwd => by
      rw [hwd, hd] at h
      cases h
    rw [hne _ hsmall, hne c hc]

theorem toLower_beq {w : Char} (h : w.isAlpha = false) (c : Char) : (c.toLower == w) = (c == w) := by
  rw [Bool.beq_comm, beq_toLower h, Bool.beq_comm]

theorem not_isAlpha_of_isDigit {c : Char} (h : isDigit c = true) : c.isAlpha = false := by
  refine Bool.eq_false_iff.mpr fun hletter => ?_
  have hdigit : ∀ n < 128, (Char.ofNat n).isAlpha = true → isDigit (Char.ofNat n) = false := by decide
  have hascii : c.toNat < 128 := lt_of_isNamePart (isNamePart_of_isNameStart (by rw [isNameStart, hletter, Bool.true_or]))
  have := hdigit c.toNat hascii
  rw [c.ofNat_toNat, h] at this
  exact Bool.true_eq_false.mp (this hletter)

theorem small_cons (c : Char) (cs : List Char) : small (c :: cs) = c.toLower :: small cs := rfl

theorem small_append (cs ds : List Char) : small (cs ++ ds) = small cs ++ small ds := List.map_append

theorem small_eq_nil : small cs = [] ↔ cs = [] := List.map_eq_nil_iff

theorem take_small (n : Nat) (cs : List Char) : (small cs).take n = small (cs.take n) := List.map_take.symm

theorem drop_small (n : Nat) (cs : List Char) : (small cs).drop n = small (cs.drop n) := List.map_drop.symm

theorem head?_small_iff {w : Char} (h : w.isAlpha = false) : (small cs).head? = some w ↔ cs.head? = some w := by
  cases cs with
  | nil => exact Iff.rfl
  | cons c cs => rw [small_cons, List.head?_cons, List.head?_cons, Option.some_inj, Option.some_inj, ← beq_iff_eq,
      toLower_beq h, beq_iff_eq]

section Scans
variable {α : Type} {p : Char → Bool} {f : Char → α}

theorem takeWhile_small (h : ∀ c, p c.toLower = p c) : (small cs).takeWhile p = small (cs.takeWhile p) := by
  rw [small, List.takeWhile_map, show p ∘ Char.toLower = p from funext h]
  rfl

theorem dropWhile_small (h : ∀ c, p c.toLower = p c) : (small cs).dropWhile p = small (cs.dropWhile p) := by
  rw [small, List.dropWhile_map, show p ∘ Char.toLower = p from funext h]
  rfl

theorem head?_small (h : ∀ c, f c.toLower = f c) : (small cs).head?.map f = cs.head?.map f := by
  rw [small, List.head?_map, Option.map_map, show f ∘ Char.toLower = f from funext h]

end Scans

theorem length_small (cs : List Char) : (small cs).length = cs.length := List.length_map _

theorem small_of_forall (h : ∀ c ∈ cs, c.toLower = c) : small cs = cs := by
  rw [small, List.map_congr_left h, List.map_id']

theorem mem_small {w : Char} (h : w.isAlpha = false) : w ∈ small cs ↔ w ∈ cs := by
  rw [small, List.mem_map]
  refine ⟨fun ⟨c, hc, hw⟩ => ?_, fun hw => ⟨w, hw, toLower_of_not_isAlpha h⟩⟩
  have hsame := beq_toLower h c
  rw [hw, beq_self_eq_true] at hsame
  exact beq_iff_eq.mp hsame.symm ▸ hc

/-! #### Lower case -/

theorem toLower_letters (c : Char) :
    c.toLower = c ∨ (letterRanges.contains c.toNat = true ∧ letterRanges.contains c.toLower.toNat = true) := by
  rcases toLower_cases c with hsame | ⟨hlow, hhigh⟩
  · exact Or.inl hsame
  · have hletters : ∀ n < 91, 65 ≤ n → letterRanges.contains (Char.ofNat n).toNat = true ∧
        letterRanges.contains (Char.ofNat n).toLower.toNat = true := by decide
    have := hletters c.toNat (by omega) hlow
    rw [c.ofNat_toNat] at this
    exact Or.inr this

theorem nextToCased_small (cs : List Char) : nextToCased (small cs) = nextToCased cs := by
  -- The tables are long: they are gone through once for all letters.
  have hignorable : ∀ c : Char, caseIgnorableRanges.contains c.toLower.toNat = caseIgnorableRanges.contains c.toNat := by
    have hapart : letterRanges.apart caseIgnorableRanges = true := by decide +kernel
    intro c
    rcases toLower_letters c with hsame | ⟨hc, hlower⟩
    · rw [hsame]
    · rw [Ranges.contains_of_apart hapart hc, Ranges.contains_of_apart hapart hlower]
  have hcased : ∀ c : Char, casedRanges.contains c.toLower.toNat = casedRanges.contains c.toNat := by
    have hwithin : letterRanges.within casedRanges = true := by decide +kernel
    intro c
    rcases toLower_letters c with hsame | ⟨hc, hlower⟩
    · rw [hsame]
    · rw [Ranges.contains_of_within hwithin hc, Ranges.contains_of_within hwithin hlower]
  unfold nextToCased
  rw [dropWhile_small hignorable]
  cases cs.dropWhile fun c => caseIgnorableRanges.contains c.toNat with
  | nil => rfl
  | cons c rest => exact hcased c

theorem lowerAfter_small : ∀ cs before : List Char, lowerAfter (small before) (small cs) = lowerAfter before cs
  | [], _ => rfl
  | c :: cs, before => by
    have hsigma : (c.toLower == 'Σ') = (c == 'Σ') := toLower_beq (by decide) c
    have hdotted : (c.toLower == 'İ') = (c == 'İ') := toLower_beq (by decide) c
    have hfirst : lowerBetween (small before) c.toLower (small cs) = lowerBetween before c cs := by
      rw [lowerBetween, lowerBetween, hsigma, hdotted, nextToCased_small, nextToCased_small, lowerChar_toLower]
    exact congrArg₂ (· ++ ·) hfirst (lowerAfter_small cs (c :: before))

theorem lower_small (cs : List Char) : lower (String.ofList (small cs)) = lower (String.ofList cs) := by
  rw [lower, lower, String.toList_ofList, String.toList_ofList]
  exact congrArg String.ofList (lowerAfter_small cs [])

theorem SameButCase.lower {s t : String} (h : SameButCase s t) : lower s = lower t := by
  rw [← s.ofList_toList, ← t.ofList_toList, ← lower_small, ← lower_small t.toList, h]

end Text

/-! ### Pieces -/

namespace Scanner
open Text
variable {lexicon : Lexicon} {s : Scanner} {cs piece rest : List Char}

theorem startsWith_small {fits : Char → Char → Bool} : ∀ {word : List Char} (cs : List Char),
    (∀ w ∈ word, ∀ c : Char, fits w c.toLower = fits w c) → startsWith fits word (small cs) = startsWith fits word cs
  | [], _, _ => by rw [startsWith, startsWith]
  | _ :: _, [], _ => rfl
  | w :: word, c :: cs, h => by
    obtain ⟨hw, hword⟩ := List.forall_mem_cons.mp h
    exact congrArg₂ (· && ·) (hw c) (startsWith_small cs hword)

theorem letters_toLower (h : lexicon.caseSensitive = false) (w c : Char) :
    letters lexicon w c.toLower = letters lexicon w c := by
  simp only [letters, h, Bool.false_eq_true, if_false, sameLetter, lowerChar_toLower]

theorem wordEndsAt_small (n : Nat) (cs : List Char) : wordEndsAt n (small cs) = wordEndsAt n cs := by
  unfold wordEndsAt
  rw [take_small, drop_small, small, List.getLast?_map]
  cases (cs.take n).getLast? with
  | none => rfl
  | some c =>
    dsimp only [Option.map_some]
    rw [endsWord, endsWord, isWord_toLower, head?_small isWord_toLower]

theorem opensCall_small (cs : List Char) : opensCall (small cs) = opensCall cs := by
  have hopening : ∀ c : Char, (c.toLower == '(') = (c == '(') := toLower_beq (by decide)
  unfold opensCall
  rw [dropWhile_small isBlank_toLower]
  cases cs.dropWhile isBlank with
  | nil => rfl
  | cons c rest => exact hopening c

theorem symbolLength_small {table : List (String × String)}
    (h : (table.all fun e => e.1.toList.all fun w => !w.isAlpha) = true) (cs : List Char) :
    symbolLength table (small cs) = symbolLength table cs := by
  have hletterless : ∀ e ∈ table, ∀ w ∈ e.1.toList, w.isAlpha = false := fun e he w hw =>
    (Bool.not_eq_true' _).mp (List.all_eq_true.mp (List.all_eq_true.mp h e he) w hw)
  have hfits : ∀ e ∈ table, e.1.toList.isPrefixOf (small cs) = e.1.toList.isPrefixOf cs := fun e he => by
    rw [isPrefixOf_eq_startsWith, isPrefixOf_eq_startsWith,
      startsWith_small cs fun w hw => beq_toLower (hletterless e he w hw)]
  rw [symbolLength, symbolLength, List.find?_congr hfits]

theorem wordLength_small (h : lexicon.caseSensitive = false) (words : List String) (cs : List Char) :
    wordLength lexicon words (small cs) = wordLength lexicon words cs := by
  unfold wordLength
  simp only [startsWith_small cs fun w _ => letters_toLower h w, wordEndsAt_small]

theorem functionLength_small (h : lexicon.caseSensitive = false) (cs : List Char) :
    functionLength lexicon (small cs) = functionLength lexicon cs := by
  have hlonger : longer lexicon (small cs) = longer lexicon cs := by
    funext n name
    rw [longer, longer, startsWith_small cs fun w _ => letters_toLower h w, wordEndsAt_small, drop_small, opensCall_small]
  rw [functionLength_eq, functionLength_eq, hlonger]

theorem quotedLength_small {quote : Char} (h : quote.isAlpha = false) : ∀ cs : List Char,
    quotedLength quote (small cs) = quotedLength quote cs
  | [] => rfl
  | c :: cs => by
    have hcontent : (small cs).takeWhile (· != quote) = small (cs.takeWhile (· != quote)) :=
      takeWhile_small fun c => congrArg not (toLower_beq h c)
    simp only [small_cons, quotedLength, toLower_beq h, hcontent, Text.length_small]

theorem quotedLength_eq_zero {quote : Char} (h : quote ∉ cs) : quotedLength quote cs = 0 := by
  cases cs with
  | nil => rfl
  | cons c cs =>
    have hc : (c == quote) = false := beq_eq_false_iff_ne.mpr fun hc => h (hc ▸ List.mem_cons_self ..)
    simp [quotedLength, hc]

theorem identifierLength_small : ∀ cs : List Char, identifierLength (small cs) = identifierLength cs
  | [] => rfl
  | c :: cs => by
    simp only [small_cons, identifierLength, isNameStart_toLower, takeWhile_small isWord_toLower, Text.length_small]

theorem numberLength_small (cs : List Char) : numberLength (small cs) = numberLength cs := by
  have htake : (small cs).takeWhile isDigit = small (cs.takeWhile isDigit) := takeWhile_small isDigit_toLower
  have hdrop : (small cs).dropWhile isDigit = small (cs.dropWhile isDigit) := dropWhile_small isDigit_toLower
  by_cases hpoint : (cs.dropWhile isDigit).head? = some '.'
  · obtain ⟨behind, hbehind⟩ := List.head?_eq_some_iff.mp hpoint
    have hbehind' : (small cs).dropWhile isDigit = '.' :: small behind := by
      rw [hdrop, hbehind, small_cons, toLower_of_not_isAlpha (by decide)]
    rw [numberLength_point hbehind, numberLength_point hbehind', htake, takeWhile_small isDigit_toLower]
    simp only [Text.length_small, wordEndsAt_small]
  · have hpoint' : ((small cs).dropWhile isDigit).head? ≠ some '.' := by
      rwa [hdrop, ne_eq, head?_small_iff (by decide)]
    rw [numberLength_whole hpoint, numberLength_whole hpoint', htake, Text.length_small, wordEndsAt_small]

/-- The pieces of a text stand at the same places in small letters. -/
theorem length_small (h : lexicon.caseSensitive = false) (cs : List Char) (s : Scanner) :
    s.length lexicon (small cs) = s.length lexicon cs := by
  cases s with
  | blank =>
    rw [Scanner.length, Scanner.length, takeWhile_small isBlank_toLower, Text.length_small]
  | number => exact numberLength_small cs
  | doubleQuoted | singleQuoted => exact quotedLength_small (by decide) cs
  | operator | grouping | comma | comparator => exact symbolLength_small (by decide) cs
  | combinator | logical => exact wordLength_small h _ cs
  | function => exact functionLength_small h cs
  | identifier => exact identifierLength_small cs

/-! #### Their tokens -/

theorem small_number (hne : piece ≠ []) (h : numberLength (piece ++ rest) = piece.length) : small piece = piece := by
  have hpos := List.length_pos_iff.mpr hne
  have hdigit : ∀ {c : Char}, isDigit c = true → c.toLower = c := fun hc =>
    toLower_of_not_isAlpha (not_isAlpha_of_isDigit hc)
  rcases numberLength_cases (piece ++ rest) with hzero | ⟨digits, behind, hcs, hdigits, hlen⟩ |
    ⟨whole, fraction, behind, hcs, -, hw, hf, hlen⟩
  · omega
  · obtain rfl := List.append_inj_left hcs (h.symm.trans hlen)
    exact small_of_forall fun c hc => hdigit (hdigits c hc)
  · obtain rfl := List.append_inj_left hcs (h.symm.trans hlen)
    refine small_of_forall (List.forall_mem_append.mpr ⟨fun c hc => hdigit (hw c hc), ?_⟩)
    exact List.forall_mem_cons.mpr ⟨by decide, fun c hc => hdigit (hf c hc)⟩

theorem small_symbol {table : List (String × String)} (htable : ∀ e ∈ table, small e.1.toList = e.1.toList)
    (hne : piece ≠ []) (h : symbolLength table (piece ++ rest) = piece.length) : small piece = piece := by
  obtain ⟨e, he, rfl⟩ := symbol_of_length h hne
  exact htable e he

/-- A piece that is not quoted has the token of its small letters. -/
theorem token_small (hcase : lexicon.caseSensitive = false) (hquoted : s ≠ .doubleQuoted ∧ s ≠ .singleQuoted)
    (hne : piece ≠ []) (h : s.length lexicon (piece ++ rest) = piece.length) :
    s.token lexicon (small piece) = s.token lexicon piece := by
  cases s with
  | blank => rfl
  | number => rw [small_number hne h]
  | doubleQuoted => exact absurd rfl hquoted.1
  | singleQuoted => exact absurd rfl hquoted.2
  | operator | grouping | comma | comparator => rw [small_symbol (by decide) hne h]
  | combinator | logical | function => simp only [token, lower_small]
  | identifier => simp only [token, hcase, Bool.false_eq_true, if_false, lower_small]

end Scanner

/-! ### Texts -/

/-- The failure of a text as that of another text, which is unreadable at the same place. -/
def Failure.about (text : String) : Failure → Failure
  | .unreadable _ position => .unreadable text position
  | f => f

theorem Failure.movedTo_zero (text : String) : Failure.movedTo text 0 = Failure.about text := by
  funext f
  cases f with
  | unreadable text' position => exact congrArg (Failure.unreadable text) (Nat.zero_add position)
  | _ => rfl

namespace Lexicon
open Text
variable {lexicon : Lexicon} {cs : List Char}

theorem first?_small (h : lexicon.caseSensitive = false) (cs : List Char) :
    lexicon.first? (small cs) = lexicon.first? cs := by
  simp only [first?, Scanner.length_small h]

theorem Takes.small {s : Scanner} {piece rest : List Char} (htakes : lexicon.Takes s piece rest)
    (h : lexicon.caseSensitive = false) : lexicon.Takes s (small piece) (small rest) := by
  refine ⟨fun hnil => htakes.ne_nil (small_eq_nil.mp hnil), ?_, fun s' hs' => ?_⟩
  · rw [← small_append, Scanner.length_small h, htakes.length, length_small]
  · rw [← small_append, Scanner.length_small h, htakes.above s' hs']

/-- No quotes stand in the text. -/
def IsUnquoted (cs : List Char) : Prop := '"' ∉ cs ∧ '\'' ∉ cs

theorem Takes.not_quoted {s : Scanner} {piece rest : List Char} (htakes : lexicon.Takes s piece rest)
    (h : IsUnquoted (piece ++ rest)) : s ≠ .doubleQuoted ∧ s ≠ .singleQuoted := by
  have hpos := htakes.length ▸ List.length_pos_iff.mpr htakes.ne_nil
  constructor
  · rintro rfl
    rw [Scanner.length, Scanner.quotedLength_eq_zero h.1] at hpos
    exact absurd hpos (Nat.lt_irrefl 0)
  · rintro rfl
    rw [Scanner.length, Scanner.quotedLength_eq_zero h.2] at hpos
    exact absurd hpos (Nat.lt_irrefl 0)

theorem tokenizeFrom_small (h : lexicon.caseSensitive = false) (text : String) (position : Nat) (cs : List Char)
    (hunquoted : IsUnquoted cs) :
    lexicon.tokenizeFrom text position (small cs) = lexicon.tokenizeFrom text position cs := by
  induction position, cs using tokenizeFrom_induction lexicon with
  | nil position => rfl
  | stuck position cs hne hfirst =>
    have hne' : small cs ≠ [] := fun hnil => hne (small_eq_nil.mp hnil)
    rw [tokenizeFrom_stuck hne hfirst, tokenizeFrom_stuck hne' (by rw [first?_small h, hfirst])]
  | piece position s piece rest htakes ih =>
    have hrest : IsUnquoted rest :=
      ⟨fun hmem => hunquoted.1 (List.mem_append_right _ hmem), fun hmem => hunquoted.2 (List.mem_append_right _ hmem)⟩
    have htoken := Scanner.token_small h (htakes.not_quoted hunquoted) htakes.ne_nil htakes.length
    rw [small_append, (htakes.small h).tokenizeFrom, htakes.tokenizeFrom, htoken, length_small, ih hrest]

theorem tokenize_sameButCase (h : lexicon.caseSensitive = false) {s t : String} (hunquoted : IsUnquoted s.toList)
    (hst : SameButCase s t) : lexicon.tokenize t = (lexicon.tokenize s).mapError (Failure.about t) := by
  have hmem : ∀ {w : Char}, w.isAlpha = false → w ∈ t.toList → w ∈ s.toList := fun hw hmem => by
    rw [← mem_small hw, ← hst, mem_small hw] at hmem
    exact hmem
  have hunquoted' : IsUnquoted t.toList :=
    ⟨fun h => hunquoted.1 (hmem (by decide) h), fun h => hunquoted.2 (hmem (by decide) h)⟩
  -- The failures of `s` are about `t` once its characters are read as a part of `t`.
  have hplace := tokenizeFrom_movedTo lexicon s t 0 0 s.toList
  rw [Failure.movedTo_zero] at hplace
  rw [tokenize, tokenize, ← hplace, ← tokenizeFrom_small h t _ _ hunquoted, ← tokenizeFrom_small h t _ _ hunquoted', hst]

theorem text_of_identifier {text : String} {position : Nat} {ts : List Token}
    (h : lexicon.tokenizeFrom text position cs = .ok ts) :
    ∀ t ∈ ts, t.category = .identifier → ∃ u, t.value = .text u := by
  intro t ht hcategory
  obtain ⟨front, back, rfl⟩ := List.append_of_mem ht
  obtain ⟨s, piece, rest, position', -, -, htoken, -⟩ := tokenizeFrom_split h
  obtain rfl : s = .identifier := Scanner.eq_of_category htoken hcategory (by decide)
  cases htoken
  exact ⟨_, rfl⟩

end Lexicon

/-! ### Values under keys -/

namespace Bindings
variable {b b' : Bindings} {t : String} {v : Value} {es es' : List (String × Value)}

/-- The two tables have the same value under every text. -/
def Agree (b b' : Bindings) : Prop := ∀ t : String, b.get? (.text t) = b'.get? (.text t)

theorem has_eq (b : Bindings) (name : Value) : b.has name = (b.get? name).isSome := by
  rw [has, get?, Option.isSome_map, List.isSome_find?]

/-- Entries under texts. -/
def named (es : List (String × Value)) : List (Value × Value) := es.map fun e => (.text e.1, e.2)

theorem get?_putAll_of_not_mem : ∀ {es : List (String × Value)} {b : Bindings}, (∀ e ∈ es, e.1 ≠ t) →
    (b.putAll (named es)).get? (.text t) = b.get? (.text t)
  | [], _, _ => rfl
  | e :: es, b, h => by
    obtain ⟨he, hes⟩ := List.forall_mem_cons.mp h
    have hput : (b.put (.text e.1) e.2).get? (.text t) = b.get? (.text t) := (get?_put ..).trans (if_neg he)
    exact (get?_putAll_of_not_mem (b := b.put (.text e.1) e.2) hes).trans hput

theorem get?_putAll_of_mem : ∀ {es : List (String × Value)} {b : Bindings}, es.Pairwise (fun e e' => e.1 ≠ e'.1) →
    (t, v) ∈ es → (b.putAll (named es)).get? (.text t) = some v
  | e :: es, b, hdistinct, h => by
    obtain ⟨hfirst, hrest⟩ := List.pairwise_cons.mp hdistinct
    rcases List.mem_cons.mp h with rfl | h
    · have hput : (b.put (.text t) v).get? (.text t) = some v := (get?_put ..).trans (if_pos rfl)
      exact (get?_putAll_of_not_mem (b := b.put (.text t) v) fun e he => (hfirst e he).symm).trans hput
    · exact get?_putAll_of_mem (b := b.put (.text e.1) e.2) hrest h

/-- Entries under different texts can be put in in any order. -/
theorem agree_of_perm (h : es.Perm es') (hdistinct : es.Pairwise fun e e' => e.1 ≠ e'.1) :
    Agree (b.putAll (named es)) (b.putAll (named es')) := by
  intro t
  have hdistinct' : es'.Pairwise fun e e' => e.1 ≠ e'.1 := (h.pairwise_iff fun hne => hne.symm).mp hdistinct
  by_cases hmem : ∃ v, (t, v) ∈ es
  · obtain ⟨v, hv⟩ := hmem
    rw [get?_putAll_of_mem hdistinct hv, get?_putAll_of_mem hdistinct' (h.mem_iff.mp hv)]
  · have habsent : ∀ e ∈ es, e.1 ≠ t := fun e he ht => hmem ⟨e.2, ht ▸ he⟩
    rw [get?_putAll_of_not_mem habsent, get?_putAll_of_not_mem fun e he => habsent e (h.mem_iff.mpr he)]

end Bindings

/-- The two keys are the same, or they are texts that differ only in letter case. -/
def Value.SameButCase (k k' : Value) : Prop := k = k' ∨ ∃ s t, k = .text s ∧ k' = .text t ∧ Text.SameButCase s t

/-- The same values stand under the same keys, in any letter case and in any order. -/
def Bindings.SameButCase (data data' : List (Value × Value)) : Prop :=
  ∃ d, d.Perm data ∧ List.Forall₂ (fun e e' => e.1.SameButCase e'.1 ∧ e.2 = e'.2) d data'

/-- No two keys are the same in lower case. -/
def Bindings.AreApart (data : List (Value × Value)) : Prop :=
  data.Pairwise fun e e' => Text.lower e.1.display ≠ Text.lower e'.1.display

theorem Value.SameButCase.key {k k' : Value} (h : k.SameButCase k') :
    k.isWritable = k'.isWritable ∧ Text.lower k.display = Text.lower k'.display := by
  rcases h with rfl | ⟨s, t, rfl, rfl, hst⟩
  · exact ⟨rfl, rfl⟩
  · exact ⟨rfl, hst.lower⟩

namespace Calculator
open Bindings
variable {c : Calculator} {data data' : List (Value × Value)} {b b' : Bindings} {ts : Stream}

theorem bindings_eq (h : c.lexicon.caseSensitive = false) (data : List (Value × Value)) : c.bindings data =
    if data.all (·.1.isWritable) then .ok (c.memory.putAll (lowered data)) else .error .longInteger := by
  unfold bindings
  generalize c.memory = b
  induction data generalizing b with
  | nil => rfl
  | cons e data ih =>
    rw [List.foldlM_cons, List.all_cons]
    cases hwritable : e.1.isWritable with
    | false =>
      have hkey : c.key e.1 = .error .longInteger := by simp [key, h, hwritable]
      rw [hkey]
      rfl
    | true =>
      have hkey : c.key e.1 = .ok (.text (Text.lower e.1.display)) := by simp [key, h, hwritable]
      rw [hkey]
      exact ih _

theorem lowered_of_forall₂ (h : List.Forall₂ (fun e e' => e.1.SameButCase e'.1 ∧ e.2 = e'.2) data data') :
    lowered data = lowered data' ∧ data.all (·.1.isWritable) = data'.all (·.1.isWritable) := by
  induction h with
  | nil => exact ⟨rfl, rfl⟩
  | cons he _ ih =>
    obtain ⟨hwritable, hlower⟩ := he.1.key
    rw [lowered, List.map_cons, hlower, he.2, List.all_cons, hwritable, ih.2]
    exact ⟨congrArg (_ :: ·) ih.1, rfl⟩

/-- Keys that cannot be formed fail on both sides; otherwise what is given is found in the same way. -/
theorem bindings_sameButCase (h : c.lexicon.caseSensitive = false) (hapart : AreApart data)
    (hdata : Bindings.SameButCase data data') :
    (c.bindings data = .error .longInteger ∧ c.bindings data' = .error .longInteger) ∨
      ∃ b b', c.bindings data = .ok b ∧ c.bindings data' = .ok b' ∧ b.Agree b' := by
  obtain ⟨d, hperm, hkeys⟩ := hdata
  have hsame := lowered_of_forall₂ hkeys
  rw [bindings_eq h, bindings_eq h, ← hsame.1, ← hsame.2, hperm.all_eq]
  cases data.all (·.1.isWritable) with
  | false => exact Or.inl ⟨rfl, rfl⟩
  | true =>
    refine Or.inr ⟨_, _, rfl, rfl, ?_⟩
    have hnamed : ∀ es : List (Value × Value), lowered es = named (es.map fun e => (Text.lower e.1.display, e.2)) := by
      intro es
      rw [named, List.map_map]
      rfl
    rw [hnamed, hnamed]
    exact agree_of_perm (hperm.symm.map _) (List.pairwise_map.mpr hapart)

/-! ### Variables -/

theorem unbound_congr (h : b.Agree b') (hts : ∀ t ∈ ts, t.category = .identifier → ∃ u, t.value = .text u) :
    unbound b ts = unbound b' ts := by
  refine List.filter_congr fun v hv => ?_
  obtain ⟨t, ht, rfl⟩ := List.mem_map.mp hv
  obtain ⟨ht, hcategory⟩ := List.mem_filter.mp ht
  obtain ⟨u, hu⟩ := hts t ht (beq_iff_eq.mp hcategory)
  rw [hu, has_eq, has_eq, h u]

theorem mapM_bindToken_congr (h : b.Agree b') {ts : Stream}
    (hts : ∀ t ∈ ts, t.category = .identifier → ∃ u, t.value = .text u) : ts.mapM (bindToken b) = ts.mapM (bindToken b') := by
  refine Outcome.mapM_congr fun t ht => ?_
  unfold bindToken
  split
  · rename_i hcategory
    obtain ⟨u, hu⟩ := hts t ht (beq_iff_eq.mp hcategory)
    rw [hu, h u]
  · rfl

theorem bind_congr (hts : ∀ t ∈ ts, t.category = .identifier → ∃ u, t.value = .text u)
    (h : (c.bindings data = .error .longInteger ∧ c.bindings data' = .error .longInteger) ∨
      ∃ b b', c.bindings data = .ok b ∧ c.bindings data' = .ok b' ∧ b.Agree b') : c.bind ts data = c.bind ts data' := by
  rcases h with ⟨herror, herror'⟩ | ⟨b, b', hb, hb', hagree⟩
  · rw [bind, bind, herror, herror']
  · rw [bind, bind, hb, hb']
    simp only [Bind.bind, Except.bind, unbound_congr hagree hts, mapM_bindToken_congr hagree hts]

/-- Letter case does not count outside of quotes: a text gives the same tokens, the same unbound variables and the same
outcome in any letter case, or is unreadable at the same place; and so do the keys of the values that are given with
it. -/
theorem evaluate_sameButCase {e e' : String} (h : c.lexicon.caseSensitive = false)
    (hunquoted : Lexicon.IsUnquoted e.toList) (htext : Text.SameButCase e e') (hapart : AreApart data)
    (hdata : Bindings.SameButCase data data') :
    c.tokenize e' = (c.tokenize e).mapError (Failure.about e') ∧
      c.dependencies e' data' = (c.dependencies e data).mapError (Failure.about e') ∧
      (c.evaluate e' data').outcome =
        match c.tokenize e with
        | .ok _ => (c.evaluate e data).outcome
        | .error f => .error (f.about e') := by
  have htokens : c.tokenize e' = (c.tokenize e).mapError (Failure.about e') :=
    Lexicon.tokenize_sameButCase h hunquoted htext
  have hbindings := bindings_sameButCase h hapart hdata
  have hidentifiers : ∀ ts, c.tokenize e = .ok ts → ∀ t ∈ ts, t.category = .identifier → ∃ u, t.value = .text u :=
    fun ts hts => Lexicon.text_of_identifier hts
  refine ⟨htokens, ?_, ?_⟩
  · rw [dependencies, dependencies, htokens]
    rcases hbindings with ⟨herror, herror'⟩ | ⟨b, b', hb, hb', hagree⟩
    · rw [herror, herror']
      rfl
    · rw [hb, hb']
      cases hts : c.tokenize e with
      | error f => rfl
      | ok ts =>
        show Except.ok (distinct (unbound b' ts)) = Except.ok (distinct (unbound b ts))
        rw [unbound_congr hagree (hidentifiers ts hts)]
  · simp only [evaluate, Traced.outcome_bind, Traced.outcome_ofOutcome, htokens]
    cases hts : c.tokenize e with
    | error f => rfl
    | ok ts =>
      show (c.bind ts data').bind _ = (c.bind ts data).bind _
      rw [bind_congr (hidentifiers ts hts) hbindings]

/-- A call of `round` and a condition in other letters, with the two values given in the other order. -/
theorem evaluate_other_letters :
    (({} : Calculator).evaluate "IF(RATE > x, Round(2.5), 1)" [(.text "rate", .int 2), (.text "X", .int 1)]).outcome =
      (({} : Calculator).evaluate "if(Rate > X, ROUND(2.5), 1)"
        [(.text "x", .int 1), (.text "RATE", .int 2)]).outcome := by
  have htext : Text.SameButCase "if(Rate > X, ROUND(2.5), 1)" "IF(RATE > x, Round(2.5), 1)" := by
    unfold Text.SameButCase
    decide +kernel
  have hletters : ∀ {s t : String}, Text.small s.toList = Text.small t.toList → (Value.text s).SameButCase (.text t) :=
    fun h => Or.inr ⟨_, _, rfl, rfl, h⟩
  have hapart : AreApart [(.text "x", .int 1), (.text "RATE", .int 2)] := by
    unfold AreApart
    decide +kernel
  have hdata : Bindings.SameButCase [(.text "x", .int 1), (.text "RATE", .int 2)]
      [(.text "rate", .int 2), (.text "X", .int 1)] :=
    ⟨_, List.Perm.swap .., .cons ⟨hletters (by decide), rfl⟩ (.cons ⟨hletters (by decide), rfl⟩ .nil)⟩
  have hread : (({} : Calculator).tokenize "if(Rate > X, ROUND(2.5), 1)").isOk = true := by decide +kernel
  have hsame := (evaluate_sameButCase (c := {}) rfl (by unfold Lexicon.IsUnquoted; decide) htext hapart hdata).2.2
  cases hts : ({} : Calculator).tokenize "if(Rate > X, ROUND(2.5), 1)" with
  | ok ts => rwa [hts] at hsame
  | error f =>
    rw [hts] at hread
    cases hread

/-- The outcome is that the text is unreadable at the position. -/
def isUnreadable {α : Type} (o : Outcome α) (text : String) (position : Nat) : Bool :=
  match o with
  | .error (.unreadable text' position') => text' == text && position' == position
  | _ => false

theorem eq_unreadable {α : Type} {o : Outcome α} {text : String} {position : Nat}
    (h : isUnreadable o text position = true) : o = .error (.unreadable text position) := by
  unfold isUnreadable at h
  split at h
  · obtain ⟨htext, hposition⟩ := Bool.and_eq_true_iff.mp h
    rw [beq_iff_eq.mp htext, beq_iff_eq.mp hposition]
  · cases h

/-- A failure is about the text as it was given; and a letter beyond ASCII is not read as the small letter that it has. -/
theorem evaluate_text_as_given :
    (Text.SameButCase "x ? y" "X ? Y" ∧
      (({} : Calculator).evaluate "x ? y" []).outcome = .error (.unreadable "x ? y" 2) ∧
      (({} : Calculator).evaluate "X ? Y" []).outcome = .error (.unreadable "X ? Y" 2) ∧
      (Failure.unreadable "x ? y" 2).message ≠ (Failure.unreadable "X ? Y" 2).message) ∧
    (Text.lower "\u212a" = Text.lower "k" ∧
      (∃ v, (({} : Calculator).evaluate "k" [(.text "k", .int 1)]).outcome = .ok v) ∧
      (({} : Calculator).evaluate "\u212a" [(.text "k", .int 1)]).outcome = .error (.unreadable "\u212a" 0)) := by
  refine ⟨⟨?_, eq_unreadable (by decide +kernel), eq_unreadable (by decide +kernel), by decide +kernel⟩,
    by decide +kernel, ?_, eq_unreadable (by decide +kernel)⟩
  · unfold Text.SameButCase
    decide +kernel
  · have hok : (({} : Calculator).evaluate "k" [(.text "k", .int 1)]).outcome.isOk = true := by decide +kernel
    cases h : (({} : Calculator).evaluate "k" [(.text "k", .int 1)]).outcome with
    | ok v => exact ⟨v, rfl⟩
    | error f =>
      rw [h] at hok
      cases hok

end Calculator
end Reckoner
