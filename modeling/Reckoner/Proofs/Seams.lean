import Mathlib.Data.List.Find
import Mathlib.Data.List.Basic
import Reckoner.Proofs.OrdinaryFailures
import Reckoner.Proofs.Scanning

/-!
# Texts with white space between them

No scanner looks past white space, except that the name of a function has an opening bracket behind it. So where a text
goes on with white space and no call is opened (`Text.AtGap`, `Scanner.opensCall`), each piece is taken as if the text
ended there (`Lexicon.Takes.append`), and two texts with white space between them have the tokens of one and then those of
the other, or the failure of the second one at its place (`Lexicon.tokenize_append`).
-/

namespace Reckoner

namespace Text

/-- The text ends here or goes on with white space. -/
def AtGap (rest : List Char) : Prop := ∀ c ∈ rest.head?, isBlank c = true

variable {p : Char → Bool} {u rest : List Char}

theorem atGap_append (hne : u ≠ []) (h : ∀ c ∈ u, isBlank c = true) (rest : List Char) : AtGap (u ++ rest) := by
  obtain ⟨c, u, rfl⟩ := List.exists_cons_of_ne_nil hne
  exact fun d hd => Option.some.inj hd ▸ h c (List.mem_cons_self ..)

theorem AtGap.takeWhile_append (h : AtGap rest) (hp : ∀ c, isBlank c = true → p c = false) :
    (u ++ rest).takeWhile p = u.takeWhile p := by
  rw [List.takeWhile_append]
  split
  · rename_i hall
    have hrest : rest.takeWhile p = [] := by
      cases rest with
      | nil => rfl
      | cons c rest => exact List.takeWhile_cons_of_neg (by simp [hp c (h c rfl)])
    rw [hrest, List.append_nil, (List.takeWhile_prefix p).eq_of_length hall]
  · rfl

theorem AtGap.head?_isWord (h : AtGap rest) : (rest.head?.map isWord).getD false = false := by
  cases rest with
  | nil => rfl
  | cons c rest => exact isWord_of_isBlank (h c rfl)

theorem AtGap.endsWord_append (h : AtGap rest) (last : Char) : endsWord last (u ++ rest) = endsWord last u := by
  unfold endsWord
  cases u with
  | nil => rw [List.nil_append, h.head?_isWord]; rfl
  | cons c u => rfl

end Text

namespace Scanner
open Text

/-- White space does not fit a letter of a name. -/
theorem letters_blank {lexicon : Lexicon} {w c : Char} (hw : isNamePart w = true) (hc : isBlank c = true) :
    letters lexicon w c = false := by
  refine Bool.eq_false_iff.mpr fun h => ?_
  have hword := isWord_of_sameLetter hw (sameLetter_of_letters h)
  rw [isWord_of_isBlank hc] at hword
  cases hword

theorem opensCall_blanks {u : List Char} (h : ∀ c ∈ u, isBlank c = true) (rest : List Char) :
    opensCall (u ++ rest) = opensCall rest := by
  rw [opensCall, opensCall, List.dropWhile_append_of_pos h]

theorem opensCall_append {u rest : List Char} (hcall : opensCall rest = false) :
    opensCall (u ++ rest) = opensCall u := by
  unfold opensCall at hcall ⊢
  rw [List.dropWhile_append]
  split
  · rename_i hblank
    rw [hcall, List.isEmpty_iff.mp hblank]
    rfl
  · rename_i hblank
    obtain ⟨c, u', hu'⟩ := List.exists_cons_of_ne_nil fun hnil => hblank (List.isEmpty_iff.mpr hnil)
    rw [hu']
    rfl

/-- A closed quotation is recognised whatever follows, and so is that there is none. -/
theorem quotedLength_append {quote c : Char} {u : List Char} (rest : List Char)
    (h : 0 < quotedLength quote (c :: u) ∨ (c == quote) = false) :
    quotedLength quote (c :: u ++ rest) = quotedLength quote (c :: u) := by
  unfold quotedLength at h ⊢
  dsimp only [List.cons_append] at h ⊢
  cases hquote : c == quote with
  | false => simp only [Bool.false_and, Bool.false_eq_true, if_false]
  | true =>
    rw [hquote] at h
    simp only [Bool.true_and, decide_eq_true_eq, Bool.true_eq_false, or_false] at h ⊢
    split at h
    · rename_i hshort
      have hlonger : (u.takeWhile (· != quote)).length < (u ++ rest).length := by
        rw [List.length_append]
        omega
      rw [List.takeWhile_append, if_neg (Nat.ne_of_lt hshort), if_pos hshort, if_pos hlonger]
    · cases h

/-! ### What a scanner recognises in front of a gap -/

section Gap
variable {lexicon : Lexicon} {fits : Char → Char → Bool} {u rest : List Char} (hgap : AtGap rest)
include hgap

theorem startsWith_gap : ∀ {word u : List Char}, (∀ w ∈ word, ∀ c, isBlank c = true → fits w c = false) →
    startsWith fits word (u ++ rest) = startsWith fits word u
  | [], _, _ => by simp only [startsWith]
  | w :: word, [], hword => by
    cases hrest : rest with
    | nil => rfl
    | cons c rest =>
      rw [hrest] at hgap
      simp [startsWith, hword w (List.mem_cons_self ..) c (hgap c rfl)]
  | w :: word, c :: u, hword => by
    rw [List.cons_append, startsWith, startsWith, startsWith_gap fun w hw => hword w (List.mem_cons_of_mem _ hw)]

theorem wordEndsAt_gap {n : Nat} (hn : n ≤ u.length) : wordEndsAt n (u ++ rest) = wordEndsAt n u := by
  unfold wordEndsAt
  rw [List.take_append_of_le_length hn, List.drop_append_of_le_length hn]
  cases (u.take n).getLast? with
  | none => rfl
  | some c => exact hgap.endsWord_append c

theorem symbolLength_gap {table : List (String × String)} (htable : ∀ e ∈ table, e.1.toList.any isBlank = false) :
    symbolLength table (u ++ rest) = symbolLength table u := by
  have hfits : ∀ e ∈ table, e.1.toList.isPrefixOf (u ++ rest) = e.1.toList.isPrefixOf u := by
    intro e he
    rw [isPrefixOf_eq_startsWith, isPrefixOf_eq_startsWith]
    refine startsWith_gap hgap fun w hw c hc => beq_eq_false_iff_ne.mpr ?_
    rintro rfl
    exact List.any_eq_false.mp (htable e he) w hw hc
  rw [symbolLength, symbolLength, List.find?_congr hfits]

theorem spells_gap {word : String} (hword : ∀ w ∈ word.toList, isNamePart w = true) :
    (startsWith (letters lexicon) word.toList (u ++ rest) && wordEndsAt word.length (u ++ rest)) =
      (startsWith (letters lexicon) word.toList u && wordEndsAt word.length u) := by
  rw [startsWith_gap hgap fun w hw c hc => letters_blank (hword w hw) hc]
  cases hstarts : startsWith (letters lexicon) word.toList u with
  | false => rfl
  | true =>
    have hlen := length_le_of_startsWith hstarts
    rw [String.length_toList] at hlen
    rw [wordEndsAt_gap hgap hlen]

theorem wordLength_gap {words : List String} (hwords : ∀ w ∈ words, w.toList.all isNamePart = true) :
    wordLength lexicon words (u ++ rest) = wordLength lexicon words u := by
  unfold wordLength
  dsimp only
  rw [List.find?_congr fun w hw => spells_gap hgap (List.all_eq_true.mp (hwords w hw))]

theorem functionLength_gap (hnames : ∀ name ∈ lexicon.functionNames, ∀ l ∈ name.toList, isNamePart l = true)
    (hcall : opensCall rest = false) : functionLength lexicon (u ++ rest) = functionLength lexicon u := by
  rw [functionLength_eq, functionLength_eq]
  refine List.foldl_ext _ _ 0 fun best name hname => ?_
  unfold longer
  rw [startsWith_gap hgap fun w hw c hc => letters_blank (hnames name hname w hw) hc]
  cases hstarts : startsWith (letters lexicon) name.toList u with
  | false => simp
  | true =>
    have hlen := length_le_of_startsWith hstarts
    rw [String.length_toList] at hlen
    rw [wordEndsAt_gap hgap hlen, List.drop_append_of_le_length hlen, opensCall_append hcall]

theorem numberLength_gap : numberLength (u ++ rest) = numberLength u := by
  have hdigits : ∀ {u : List Char}, (u ++ rest).takeWhile isDigit = u.takeWhile isDigit :=
    hgap.takeWhile_append fun _ => isDigit_of_isBlank
  have hdrop : (u ++ rest).dropWhile isDigit = u.dropWhile isDigit ++ rest := by
    rw [← drop_takeWhile_length, hdigits, List.drop_append_of_le_length (List.takeWhile_prefix _).length_le,
      drop_takeWhile_length]
  by_cases hpoint : (u.dropWhile isDigit).head? = some '.'
  · obtain ⟨fraction, hfraction⟩ := List.head?_eq_some_iff.mp hpoint
    have hlen : (u.takeWhile isDigit).length + 1 + (fraction.takeWhile isDigit).length ≤ u.length := by
      have hsplit := congrArg List.length (List.takeWhile_append_dropWhile (p := isDigit) (l := u))
      have hle := (List.takeWhile_prefix isDigit (l := fraction)).length_le
      rw [List.length_append, hfraction, List.length_cons] at hsplit
      omega
    rw [numberLength_point hfraction, numberLength_point (by rw [hdrop, hfraction, List.cons_append])]
    simp only [hdigits, wordEndsAt_gap hgap hlen]
  · have hpoint' : ((u ++ rest).dropWhile isDigit).head? ≠ some '.' := by
      rw [hdrop, List.head?_append]
      cases hhead : (u.dropWhile isDigit).head? with
      | some c => rwa [hhead] at hpoint
      | none =>
        -- Behind the digits there is the gap.
        intro h
        have := hgap '.' h
        revert this
        decide
    rw [numberLength_whole hpoint, numberLength_whole hpoint', hdigits,
      wordEndsAt_gap hgap (List.takeWhile_prefix _).length_le]

theorem identifierLength_gap (hne : u ≠ []) : identifierLength (u ++ rest) = identifierLength u := by
  obtain ⟨c, u, rfl⟩ := List.exists_cons_of_ne_nil hne
  simp only [List.cons_append, identifierLength, hgap.takeWhile_append fun _ => isWord_of_isBlank]

/-- What a scanner recognises does not change in front of a gap, unless there is a quotation that is not closed. -/
theorem length_gap (hascii : lexicon.IsAscii) (hcall : opensCall rest = false) {s : Scanner} {c : Char}
    (hc : isBlank c = false)
    (hclosed : s = .doubleQuoted ∨ s = .singleQuoted → 0 < s.length lexicon (c :: u) ∨ s.starts c = false) :
    s.length lexicon (c :: u ++ rest) = s.length lexicon (c :: u) := by
  have hsymbols : ∀ table : List (String × String), table ∈ [operatorSymbols, groupingSymbols, [(",", "comma")],
      comparatorSymbols] → ∀ e ∈ table, e.1.toList.any isBlank = false := by decide
  cases s with
  | blank => simp only [Scanner.length, List.cons_append, List.takeWhile_cons, hc, Bool.false_eq_true, if_false]
  | number => exact numberLength_gap hgap
  | doubleQuoted => exact quotedLength_append rest (hclosed (Or.inl rfl))
  | singleQuoted => exact quotedLength_append rest (hclosed (Or.inr rfl))
  | operator | grouping | comma | comparator => exact symbolLength_gap hgap (hsymbols _ (by simp))
  | combinator | logical => exact wordLength_gap hgap (by decide)
  | function => exact functionLength_gap hgap (fun name hname => isNamePart_of_isName (hascii name hname)) hcall
  | identifier => exact identifierLength_gap hgap (List.cons_ne_nil _ _)

end Gap
end Scanner

/-! ### Pieces in front of a gap -/

namespace Lexicon
open Scanner

variable {lexicon : Lexicon} {s : Scanner} {piece rest u w cs : List Char} {text : String} {position : Nat}

/-- A quotation mark starts a quotation only. -/
theorem eq_of_starts_quote {s' : Scanner} {c : Char} (hs' : s' = .doubleQuoted ∨ s' = .singleQuoted)
    (h' : s'.starts c = true) (h : s.starts c = true) : s = s' := by
  rcases hs' with rfl | rfl
  · rw [beq_iff_eq.mp h'] at h
    revert h
    cases s <;> decide
  · rw [beq_iff_eq.mp h'] at h
    revert h
    cases s <;> decide

/-- A piece is taken in front of a gap as it is at the end of the text. -/
theorem Takes.append (h : lexicon.Takes s piece u) (hs : s ≠ .blank) (hascii : lexicon.IsAscii) (hgap : Text.AtGap rest)
    (hcall : opensCall rest = false) : lexicon.Takes s piece (u ++ rest) := by
  obtain ⟨c, cs, rfl⟩ := List.exists_cons_of_ne_nil h.ne_nil
  have hpos : 0 < s.length lexicon (c :: (cs ++ u)) := by
    rw [← List.cons_append, h.length]
    exact Nat.succ_pos _
  have hc : Text.isBlank c = false := by
    have hblank : Scanner.blank ∈ s.above := by
      cases s <;> first | exact absurd rfl hs | decide
    have hzero := h.above _ hblank
    by_contra hc
    rw [Bool.not_eq_false] at hc
    rw [List.cons_append, Scanner.length, List.takeWhile_cons_of_pos hc] at hzero
    cases hzero
  have hkept : ∀ s' : Scanner, s'.length lexicon (c :: cs ++ (u ++ rest)) = s'.length lexicon (c :: cs ++ u) := by
    intro s'
    rw [← List.append_assoc]
    refine length_gap hgap hascii hcall hc fun hquoted => ?_
    cases hstarts : s'.starts c with
    | false => exact Or.inr rfl
    | true =>
      rw [← eq_of_starts_quote hquoted hstarts (starts_of_length hascii hpos)]
      exact Or.inl hpos
  exact ⟨h.ne_nil, by rw [hkept, h.length], fun s' hs' => by rw [hkept, h.above s' hs']⟩

/-! ### White space in front of a text -/

theorem tokenizeFrom_dropWhile (text : String) (position : Nat) (cs : List Char) :
    lexicon.tokenizeFrom text position cs =
      lexicon.tokenizeFrom text (position + (cs.takeWhile Text.isBlank).length) (cs.dropWhile Text.isBlank) := by
  by_cases hblank : cs.takeWhile Text.isBlank = []
  · have hsame : cs.dropWhile Text.isBlank = cs := by
      have := List.takeWhile_append_dropWhile (p := Text.isBlank) (l := cs)
      rwa [hblank, List.nil_append] at this
    rw [hblank, hsame]
    rfl
  · have htakes : lexicon.Takes .blank (cs.takeWhile Text.isBlank) (cs.dropWhile Text.isBlank) :=
      ⟨hblank, by rw [List.takeWhile_append_dropWhile]; rfl, fun s' hs' => by cases hs'⟩
    have h : lexicon.tokenizeFrom text position (cs.takeWhile Text.isBlank ++ cs.dropWhile Text.isBlank) = _ :=
      htakes.tokenizeFrom
    rw [List.takeWhile_append_dropWhile] at h
    rw [h]
    cases lexicon.tokenizeFrom text (position + (cs.takeWhile Text.isBlank).length) (cs.dropWhile Text.isBlank) <;> rfl

/-- White space in front of a text moves its tokens only. -/
theorem tokenizeFrom_blanks (hw : ∀ c ∈ w, Text.isBlank c = true) :
    lexicon.tokenizeFrom text position (w ++ cs) = lexicon.tokenizeFrom text (position + w.length) cs := by
  rw [tokenizeFrom_dropWhile, tokenizeFrom_dropWhile text (position + w.length) cs, List.takeWhile_append_of_pos hw,
    List.dropWhile_append_of_pos hw, List.length_append, Nat.add_assoc]

end Lexicon

/-! ### Places in a longer text -/

/-- The failure of a text as one of a longer text, in which it stands at a place. -/
def Failure.movedTo (text : String) (place : Nat) : Failure → Failure
  | .unreadable _ position => .unreadable text (place + position)
  | f => f

/-- A piece has no token only if it is a number that is not read. -/
theorem Scanner.isOfValue_token (lexicon : Lexicon) (piece : List Char) (s : Scanner) :
    Outcome.IsOfValue (s.token lexicon piece) := by
  cases s with
  | number =>
    refine Outcome.IsOfValue.map ?_
    unfold numberValue
    repeat' split
    all_goals simp
  | _ => exact Outcome.isOfValue_ok _

theorem Failure.IsOrdinary.movedTo {f : Failure} (h : f.IsOrdinary) (text : String) (place : Nat) :
    f.movedTo text place = f := by
  cases f with
  | unreadable => exact absurd rfl h.1
  | _ => rfl

namespace Lexicon
open Scanner

variable {lexicon : Lexicon} {s t w : List Char} {ss : List Token}

theorem tokenizeFrom_movedTo (lexicon : Lexicon) (text longer : String) (place position : Nat) (cs : List Char) :
    lexicon.tokenizeFrom longer (place + position) cs =
      (lexicon.tokenizeFrom text position cs).mapError (Failure.movedTo longer place) := by
  refine tokenizeFrom_induction lexicon (motive := fun position cs =>
    lexicon.tokenizeFrom longer (place + position) cs =
      (lexicon.tokenizeFrom text position cs).mapError (Failure.movedTo longer place)) ?nil ?stuck ?piece position cs
  case nil =>
    intro position
    rw [tokenizeFrom_nil, tokenizeFrom_nil]
    rfl
  case stuck =>
    intro position cs hne hfirst
    rw [tokenizeFrom_stuck hne hfirst, tokenizeFrom_stuck hne hfirst]
    rfl
  case piece =>
    intro position s piece rest htakes ih
    rw [htakes.tokenizeFrom, htakes.tokenizeFrom, Nat.add_assoc, ih]
    cases htoken : s.token lexicon piece with
    | error f =>
      have hordinary := (s.isOfValue_token lexicon piece).isOrdinary f htoken
      exact congrArg Except.error (hordinary.movedTo longer place).symm
    | ok t => cases lexicon.tokenizeFrom text (position + piece.length) rest <;> rfl

theorem Takes.isBlank {piece rest : List Char} (h : lexicon.Takes .blank piece rest) :
    ∀ c ∈ piece, Text.isBlank c = true := by
  have hlen : ((piece ++ rest).takeWhile Text.isBlank).length = piece.length := h.length
  have hpiece : (piece ++ rest).takeWhile Text.isBlank = piece :=
    List.append_inj_left (List.takeWhile_append_dropWhile (p := Text.isBlank) (l := piece ++ rest)) hlen
  exact List.all_eq_true.mp (hpiece ▸ List.all_takeWhile)

/-- Behind a text that is read and white space the reading goes on as at the start of a text. -/
theorem tokenizeFrom_append (hascii : lexicon.IsAscii) (hw : ∀ c ∈ w, Text.isBlank c = true) (hne : w ≠ [])
    (hcall : opensCall t = false) (text text' : String) (position : Nat) (s : List Char) : ∀ position' ss,
    lexicon.tokenizeFrom text position s = .ok ss → lexicon.tokenizeFrom text' position' (s ++ (w ++ t)) =
      (lexicon.tokenizeFrom text' (position' + s.length + w.length) t).map (ss ++ ·) := by
  have hgap := Text.atGap_append hne hw t
  have hcall' : opensCall (w ++ t) = false := (opensCall_blanks hw t).trans hcall
  refine tokenizeFrom_induction lexicon (motive := fun position s => ∀ position' ss,
    lexicon.tokenizeFrom text position s = .ok ss → lexicon.tokenizeFrom text' position' (s ++ (w ++ t)) =
      (lexicon.tokenizeFrom text' (position' + s.length + w.length) t).map (ss ++ ·)) ?nil ?stuck ?piece position s
  case nil =>
    intro position position' ss h
    rw [tokenizeFrom_nil] at h
    rw [← Except.ok.inj h, List.nil_append, tokenizeFrom_blanks hw, List.length_nil, Nat.add_zero]
    cases lexicon.tokenizeFrom text' (position' + w.length) t <;> rfl
  case stuck =>
    intro position s hne hfirst position' ss h
    rw [tokenizeFrom_stuck hne hfirst] at h
    cases h
  case piece =>
    intro position s piece rest htakes ih position' ss h
    rw [htakes.tokenizeFrom] at h
    obtain ⟨token, htoken, h⟩ := Outcome.bind_eq_ok h
    obtain ⟨ts, hts, rfl⟩ := Outcome.map_eq_ok h
    have hrest := ih (position' + piece.length) ts hts
    have hplace : position' + (piece ++ rest).length + w.length =
        position' + piece.length + rest.length + w.length := by
      rw [List.length_append]
      omega
    rw [List.append_assoc, hplace]
    by_cases hs : s = .blank
    · -- The gap goes on behind the blanks at the end of the first text.
      subst hs
      rw [tokenizeFrom_blanks htakes.isBlank, hrest, ← Except.ok.inj htoken]
      rfl
    · rw [(htakes.append hs hascii hgap hcall').tokenizeFrom, htoken, hrest]
      cases lexicon.tokenizeFrom text' (position' + piece.length + rest.length + w.length) t with
      | error f => rfl
      | ok us => exact congrArg Except.ok (List.append_assoc ..).symm

/-- Behind a text that is read and white space, a text that does not open a call has the tokens that it has alone, and
    what is unreadable in it is so at its place in the whole text. -/
theorem tokenize_append {names : List String} {caseSensitive : Bool}
    (hnames : ∀ name ∈ names, Text.isName name.toList = true) {s w t : String} {ss : List Token}
    (hblank : ∀ c ∈ w.toList, Text.isBlank c = true) (hne : w ≠ "")
    (hcall : (t.toList.dropWhile Text.isBlank).head? ≠ some '(') (hs : (make names caseSensitive).tokenize s = .ok ss) :
    (make names caseSensitive).tokenize (s ++ w ++ t) =
      match (make names caseSensitive).tokenize t with
      | .ok ts => .ok (ss ++ ts)
      | .error (.unreadable _ position) => .error (.unreadable (s ++ w ++ t) (s.length + w.length + position))
      | .error f => .error f := by
  have hne : w.toList ≠ [] := fun h => hne (String.toList_eq_nil_iff.mp h)
  have hcall : opensCall t.toList = false := beq_eq_false_iff_ne.mpr hcall
  have happend := tokenizeFrom_append (isAscii_make hnames) hblank hne hcall s (s ++ w ++ t) 0 s.toList 0 ss hs
  have hplace := tokenizeFrom_movedTo (make names caseSensitive) t (s ++ w ++ t) (s.length + w.length) 0 t.toList
  simp only [String.length_toList, Nat.zero_add] at happend
  rw [Nat.add_zero] at hplace
  simp only [tokenize, String.toList_append, List.append_assoc]
  rw [happend, hplace]
  cases (make names caseSensitive).tokenizeFrom t 0 t.toList with
  | ok ts => rfl
  | error f => cases f <;> rfl

/-- The bracket in the first text is quoted, and that in the second one does not stand in front. -/
theorem tokenize_append_quotation :
    ∃ ss text, (make ["max"] false).tokenize "1 < max '(' " = .ok ss ∧
      (make ["max"] false).tokenize ("1 < max '(' " ++ "\t" ++ "max (2) ?") = .error (.unreadable text 21) := by
  have hfirst : ((make ["max"] false).tokenize "1 < max '(' ").isOk = true := by decide +kernel
  have hsecond : (match (make ["max"] false).tokenize "max (2) ?" with
      | .error (.unreadable _ position) => position == 8
      | _ => false) = true := by decide +kernel
  cases hs : (make ["max"] false).tokenize "1 < max '(' " with
  | error f =>
    rw [hs] at hfirst
    cases hfirst
  | ok ss =>
    have hblank : ∀ c ∈ "\t".toList, Text.isBlank c = true := List.all_eq_true.mp (by decide)
    have happend := tokenize_append (t := "max (2) ?") (by decide) hblank (by decide) (by decide) hs
    split at hsecond
    · rename_i position ht
      rw [ht, beq_iff_eq.mp hsecond] at happend
      exact ⟨ss, _, rfl, happend⟩
    · cases hsecond

end Lexicon
end Reckoner
