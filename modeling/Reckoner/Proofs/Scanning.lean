import Reckoner.Proofs.Contraction
import Reckoner.Proofs.Letters
import Reckoner.Tokenizer.Tokenize

/-!
# Reading a text piece by piece

At each place of a text the first scanner that recognises anything takes its piece (`Lexicon.Takes`), and the tokens of a
text are those of its pieces (`Lexicon.Takes.tokenizeFrom`, `Lexicon.tokenizeFrom_induction`). Symbols, keywords and the
names of functions are recognised letter by letter.
-/

namespace Reckoner

/-! ### Letter by letter -/

namespace Scanner
open Text

variable {fits : Char → Char → Bool} {lexicon : Lexicon}

theorem startsWith_append (rest : List Char) : ∀ {word u : List Char}, word.length ≤ u.length →
    startsWith fits word (u ++ rest) = startsWith fits word u
  | [], _, _ => rfl
  | w :: word, c :: u, h => by
    rw [List.cons_append, startsWith, startsWith, startsWith_append rest (Nat.le_of_succ_le_succ h)]

theorem length_le_of_startsWith : ∀ {word text : List Char}, startsWith fits word text = true →
    word.length ≤ text.length
  | [], _, _ => Nat.zero_le _
  | _ :: _, _ :: _, h => Nat.succ_le_succ (length_le_of_startsWith (Bool.and_eq_true_iff.mp h).2)

theorem isPrefixOf_eq_startsWith : ∀ word text : List Char, word.isPrefixOf text = startsWith (· == ·) word text
  | [], _ => rfl
  | _ :: _, [] => rfl
  | w :: word, c :: text => by rw [startsWith, List.isPrefixOf_cons_cons, isPrefixOf_eq_startsWith]

theorem sameLetter_of_letters {w c : Char} (h : letters lexicon w c = true) : sameLetter w c = true := by
  unfold letters at h
  split at h
  · rw [beq_iff_eq.mp h]
    simp [sameLetter]
  · exact h

/-! ### What is recognised -/

/-- The word stands at the front of the text, and a word ends behind it. -/
def Spells (lexicon : Lexicon) (word : String) (text : List Char) : Prop :=
  startsWith (letters lexicon) word.toList text = true ∧ wordEndsAt word.length text = true

variable {text : List Char}

theorem symbolLength_pos {table : List (String × String)} (h : 0 < symbolLength table text) :
    ∃ e ∈ table, e.1.toList <+: text ∧ symbolLength table text = e.1.length := by
  unfold symbolLength at h ⊢
  cases hfind : table.find? fun s => s.1.toList.isPrefixOf text with
  | none => simp [hfind] at h
  | some e =>
    have hfront := List.find?_some hfind
    exact ⟨e, List.mem_of_find?_eq_some hfind, List.isPrefixOf_iff_prefix.mp hfront, rfl⟩

theorem wordLength_pos {words : List String} (h : 0 < wordLength lexicon words text) :
    ∃ w ∈ words, Spells lexicon w text ∧ wordLength lexicon words text = w.length := by
  unfold wordLength at h ⊢
  dsimp only at h ⊢
  cases hfind : words.find? fun w => startsWith (letters lexicon) w.toList text && wordEndsAt w.length text with
  | none => simp [hfind] at h
  | some w =>
    have hfits := List.find?_some hfind
    exact ⟨w, List.mem_of_find?_eq_some hfind, Bool.and_eq_true_iff.mp hfits, rfl⟩

/-- The name stands at the front of the text, and a call is opened behind it. -/
def OpensCall (lexicon : Lexicon) (text : List Char) (name : String) : Prop :=
  Spells lexicon name text ∧ opensCall (text.drop name.length) = true

/-- The longer one of a length and that of a name, if the name opens a call. -/
def longer (lexicon : Lexicon) (text : List Char) (best : Nat) (name : String) : Nat :=
  if best < name.length && startsWith (letters lexicon) name.toList text && wordEndsAt name.length text &&
    opensCall (text.drop name.length) then name.length else best

theorem functionLength_eq : functionLength lexicon text = lexicon.functionNames.foldl (longer lexicon text) 0 := rfl

theorem longer_cases (n : Nat) (name : String) :
    longer lexicon text n name = n ∧ (OpensCall lexicon text name → name.length ≤ n) ∨
      n < name.length ∧ OpensCall lexicon text name ∧ longer lexicon text n name = name.length := by
  by_cases h : (decide (n < name.length) && startsWith (letters lexicon) name.toList text &&
      wordEndsAt name.length text && opensCall (text.drop name.length)) = true
  · have hlonger : longer lexicon text n name = name.length := if_pos h
    simp only [Bool.and_eq_true, decide_eq_true_eq] at h
    exact Or.inr ⟨h.1.1.1, ⟨⟨h.1.1.2, h.1.2⟩, h.2⟩, hlonger⟩
  · refine Or.inl ⟨if_neg h, fun hcall => Nat.le_of_not_lt fun hlt => h ?_⟩
    simp only [Bool.and_eq_true, decide_eq_true_eq]
    exact ⟨⟨⟨hlt, hcall.1.1⟩, hcall.1.2⟩, hcall.2⟩

/-- Along the names the length grows to that of the longest one that opens a call. -/
theorem foldl_longer (lexicon : Lexicon) (text : List Char) : ∀ (names : List String) (n : Nat),
    n ≤ names.foldl (longer lexicon text) n ∧
    (∀ name ∈ names, OpensCall lexicon text name → name.length ≤ names.foldl (longer lexicon text) n) ∧
    (names.foldl (longer lexicon text) n = n ∨
      ∃ name ∈ names, OpensCall lexicon text name ∧ names.foldl (longer lexicon text) n = name.length)
  | [], n => ⟨Nat.le_refl n, by simp, Or.inl rfl⟩
  | name :: names, n => by
    obtain ⟨hle, hall, hreached⟩ := foldl_longer lexicon text names (longer lexicon text n name)
    rw [List.foldl_cons]
    rcases longer_cases n name with ⟨hsame, hshort⟩ | ⟨hlt, hcall, hlonger⟩
    · rw [hsame] at hle hall hreached ⊢
      refine ⟨hle, List.forall_mem_cons.mpr ⟨fun h => Nat.le_trans (hshort h) hle, hall⟩, hreached.imp_right ?_⟩
      exact fun ⟨other, hmem, h⟩ => ⟨other, List.mem_cons_of_mem _ hmem, h⟩
    · rw [hlonger] at hle hall hreached ⊢
      refine ⟨by omega, List.forall_mem_cons.mpr ⟨fun _ => hle, hall⟩, Or.inr ?_⟩
      rcases hreached with hreached | ⟨other, hmem, h⟩
      · exact ⟨name, List.mem_cons_self .., hcall, hreached⟩
      · exact ⟨other, List.mem_cons_of_mem _ hmem, h⟩

theorem le_functionLength {name : String} (hmem : name ∈ lexicon.functionNames) (h : OpensCall lexicon text name) :
    name.length ≤ functionLength lexicon text :=
  (foldl_longer lexicon text lexicon.functionNames 0).2.1 name hmem h

/-- What is recognised as a function is one of the names that open a call. -/
theorem functionLength_pos (h : 0 < functionLength lexicon text) : ∃ name ∈ lexicon.functionNames,
    OpensCall lexicon text name ∧ functionLength lexicon text = name.length := by
  rcases (foldl_longer lexicon text lexicon.functionNames 0).2.2 with hzero | hreached
  · exact absurd h (Nat.not_lt.mpr (Nat.le_of_eq hzero))
  · exact hreached

theorem drop_takeWhile_length (p : Char → Bool) : text.drop (text.takeWhile p).length = text.dropWhile p := by
  have h : (text.takeWhile p ++ text.dropWhile p).drop (text.takeWhile p).length = text.dropWhile p := List.drop_left
  rwa [List.takeWhile_append_dropWhile] at h

/-- Without a point behind its digits a number is what stands in front of it. -/
theorem numberLength_whole (h : (text.dropWhile isDigit).head? ≠ some '.') : numberLength text =
    if wordEndsAt (text.takeWhile isDigit).length text then (text.takeWhile isDigit).length else 0 := by
  unfold numberLength
  dsimp only
  rw [drop_takeWhile_length]
  split
  · rename_i rest hrest
    simp [hrest] at h
  · rfl

/-- Behind a point a number goes on with its fraction, if there is one that ends a word. -/
theorem numberLength_point {rest : List Char} (h : text.dropWhile isDigit = '.' :: rest) : numberLength text =
    let whole := (text.takeWhile isDigit).length
    let fraction := (rest.takeWhile isDigit).length
    if fraction ≠ 0 ∧ wordEndsAt (whole + 1 + fraction) text then whole + 1 + fraction else whole := by
  unfold numberLength
  dsimp only
  rw [drop_takeWhile_length, h]
  rfl

theorem length_le_of_spells {word : String} (h : Spells lexicon word text) : word.length ≤ text.length := by
  have := length_le_of_startsWith h.1
  rwa [String.length_toList] at this

/-- What is recognised is a part of the text. -/
theorem length_le (s : Scanner) (lexicon : Lexicon) (text : List Char) : s.length lexicon text ≤ text.length := by
  have symbols : ∀ table, symbolLength table text ≤ text.length := by
    intro table
    by_cases h : 0 < symbolLength table text
    · obtain ⟨e, -, hfront, hlength⟩ := symbolLength_pos h
      rw [hlength, ← String.length_toList]
      exact hfront.length_le
    · omega
  have words : ∀ words, wordLength lexicon words text ≤ text.length := by
    intro words
    by_cases h : 0 < wordLength lexicon words text
    · obtain ⟨w, -, hw, hlength⟩ := wordLength_pos h
      rw [hlength]
      exact length_le_of_spells hw
    · omega
  have quotes : ∀ quote, quotedLength quote text ≤ text.length := by
    intro quote
    cases text with
    | nil => exact Nat.le_refl 0
    | cons c rest =>
      unfold quotedLength
      dsimp only
      split
      · rename_i h
        have := (Bool.and_eq_true_iff.mp h).2
        simp only [decide_eq_true_eq] at this
        rw [List.length_cons]
        omega
      · exact Nat.zero_le _
  cases s with
  | blank => exact (List.takeWhile_prefix _).length_le
  | number =>
    have hwhole := (List.takeWhile_prefix isDigit (l := text)).length_le
    show numberLength text ≤ text.length
    unfold numberLength
    dsimp only
    split
    · rename_i rest hrest
      have hfraction := (List.takeWhile_prefix isDigit (l := rest)).length_le
      have hdrop := congrArg List.length hrest
      rw [List.length_drop, List.length_cons] at hdrop
      split <;> omega
    · split <;> omega
  | doubleQuoted => exact quotes _
  | singleQuoted => exact quotes _
  | operator | grouping | comma | comparator => exact symbols _
  | combinator | logical => exact words _
  | function =>
    by_cases h : 0 < functionLength lexicon text
    · obtain ⟨name, -, ⟨hname, -⟩, hlength⟩ := functionLength_pos h
      show functionLength lexicon text ≤ text.length
      rw [hlength]
      exact length_le_of_spells hname
    · exact Nat.le_trans (Nat.le_of_not_lt h) (Nat.zero_le _)
  | identifier =>
    cases text with
    | nil => exact Nat.le_refl 0
    | cons c rest =>
      show (if isNameStart c then _ else _) ≤ _
      split
      · exact Nat.succ_le_succ (List.takeWhile_prefix _).length_le
      · exact Nat.zero_le _

end Scanner

/-- All names of functions are names in ASCII. -/
def Lexicon.IsAscii (lexicon : Lexicon) : Prop := ∀ name ∈ lexicon.functionNames, Text.isName name.toList = true

theorem Lexicon.isAscii_make {names : List String} {caseSensitive : Bool}
    (h : ∀ name ∈ names, Text.isName name.toList = true) :
    (Lexicon.make names caseSensitive).IsAscii := by
  have hbuiltin : ∀ name ∈ builtinFunctions, Text.isName name.toList = true := by decide
  refine List.forall_mem_append.mpr ⟨hbuiltin, fun name hname => ?_⟩
  obtain ⟨name', hname', rfl⟩ := List.mem_map.mp (List.mem_filter.mp hname).1
  exact Text.isName_lower (h name' hname')

namespace Scanner
open Text
variable {fits : Char → Char → Bool} {lexicon : Lexicon} {text : List Char}

/-- What the pieces of a scanner can start with. -/
def starts : Scanner → Char → Bool
  | .blank, c => isBlank c
  | .number, c => isDigit c || c == '.'
  | .doubleQuoted, c => c == '"'
  | .singleQuoted, c => c == '\''
  | .operator, c => operatorSymbols.any fun e => e.1.toList.head? == some c
  | .grouping, c => groupingSymbols.any fun e => e.1.toList.head? == some c
  | .comma, c => c == ','
  | .comparator, c => comparatorSymbols.any fun e => e.1.toList.head? == some c
  | .combinator, c | .logical, c | .function, c => isWord c
  | .identifier, c => isNameStart c

theorem isWord_of_startsWith {word : String} {c : Char} (hword : ∀ l ∈ word.toList, isNamePart l = true)
    (hpos : 0 < word.length) (h : startsWith (letters lexicon) word.toList (c :: text) = true) : isWord c = true := by
  rw [← String.length_toList] at hpos
  obtain ⟨l, ls, hl⟩ := List.exists_cons_of_ne_nil (List.length_pos_iff.mp hpos)
  rw [hl] at h
  exact isWord_of_sameLetter (hword l (by simp [hl])) (sameLetter_of_letters (Bool.and_eq_true_iff.mp h).1)

theorem starts_of_length (hascii : lexicon.IsAscii) {s : Scanner} {c : Char} (h : 0 < s.length lexicon (c :: text)) :
    s.starts c = true := by
  have symbols : ∀ table, 0 < symbolLength table (c :: text) →
      (table.any fun e => e.1.toList.head? == some c) = true := by
    intro table h
    obtain ⟨e, he, ⟨behind, hfront⟩, hlen⟩ := symbolLength_pos h
    rw [hlen, ← String.length_toList] at h
    obtain ⟨d, ds, hd⟩ := List.exists_cons_of_ne_nil (List.length_pos_iff.mp h)
    rw [hd] at hfront
    exact List.any_eq_true.mpr ⟨e, he, by rw [hd, (List.cons.inj hfront).1]; exact beq_self_eq_true _⟩
  have words : ∀ words : List String, (∀ w ∈ words, w.toList.all isNamePart = true) →
      0 < wordLength lexicon words (c :: text) → isWord c = true := by
    intro words hwords h
    obtain ⟨w, hw, hspells, hlen⟩ := wordLength_pos h
    exact isWord_of_startsWith (List.all_eq_true.mp (hwords w hw)) (hlen ▸ h) hspells.1
  have quotes : ∀ quote, 0 < quotedLength quote (c :: text) → (c == quote) = true := by
    intro quote h
    unfold quotedLength at h
    dsimp only at h
    split at h
    · rename_i hclosed
      exact (Bool.and_eq_true_iff.mp hclosed).1
    · cases h
  cases s with
  | blank =>
    by_cases hc : isBlank c = true
    · exact hc
    · rw [Scanner.length, List.takeWhile_cons_of_neg hc] at h
      cases h
  | number =>
    refine Bool.or_eq_true_iff.mpr (Classical.byContradiction fun hno => ?_)
    simp only [beq_iff_eq, not_or] at hno
    rw [Scanner.length, numberLength_whole (by simp [List.dropWhile_cons_of_neg hno.1, hno.2]),
      List.takeWhile_cons_of_neg hno.1] at h
    cases h
  | doubleQuoted => exact quotes _ h
  | singleQuoted => exact quotes _ h
  | operator | grouping | comparator => exact symbols _ h
  | comma =>
    have hcomma : ',' = c := by simpa using symbols _ h
    exact beq_iff_eq.mpr hcomma.symm
  | combinator | logical => exact words _ (by decide) h
  | function =>
    obtain ⟨name, hname, ⟨hspells, -⟩, hlen⟩ := functionLength_pos h
    exact isWord_of_startsWith (isNamePart_of_isName (hascii name hname)) (hlen ▸ h) hspells.1
  | identifier =>
    by_cases hc : isNameStart c = true
    · exact hc
    · rw [Scanner.length, identifierLength, if_neg hc] at h
      cases h

/-! ### The letters of a piece -/

section Piece
variable {piece rest : List Char}

/-- A symbol is recognised as it stands in its table. -/
theorem symbol_of_length {table : List (String × String)} (h : symbolLength table (piece ++ rest) = piece.length)
    (hne : piece ≠ []) : ∃ e ∈ table, piece = e.1.toList := by
  have hpos := List.length_pos_iff.mpr hne
  obtain ⟨e, he, ⟨behind, hfront⟩, hlen⟩ := symbolLength_pos (h ▸ hpos)
  refine ⟨e, he, (List.append_inj_left hfront ?_).symm⟩
  rw [String.length_toList, ← hlen, h]

/-- A keyword is recognised letter by letter. -/
theorem word_of_length {words : List String} (h : wordLength lexicon words (piece ++ rest) = piece.length)
    (hne : piece ≠ []) :
    ∃ w ∈ words, w.toList.length = piece.length ∧ startsWith (letters lexicon) w.toList piece = true := by
  have hpos := List.length_pos_iff.mpr hne
  obtain ⟨w, hw, ⟨hspelled, -⟩, hlen⟩ := wordLength_pos (h ▸ hpos)
  have hlen : w.toList.length = piece.length := by rw [String.length_toList, ← hlen, h]
  rw [startsWith_append rest (Nat.le_of_eq hlen)] at hspelled
  exact ⟨w, hw, hlen, hspelled⟩

end Piece

/-- The scanners that are tried before this one. -/
def above (s : Scanner) : List Scanner := all.takeWhile (· != s)

/-! ### Categories -/

/-- The category of the tokens that a scanner gives. -/
def category? : Scanner → Option Category
  | .blank => none
  | .number => some .numeric
  | .doubleQuoted | .singleQuoted => some .string
  | .operator => some .operator
  | .grouping => some .grouping
  | .comma => some .comma
  | .comparator => some .comparator
  | .combinator => some .combinator
  | .logical => some .logical
  | .function => some .function
  | .identifier => some .identifier

theorem category_of_token {s : Scanner} {piece : List Char} {t : Token} (h : s.token lexicon piece = .ok (some t)) :
    s.category? = some t.category := by
  cases s with
  | blank => cases h
  | number =>
    obtain ⟨v, -, hv⟩ := Outcome.map_eq_ok h
    cases hv
    rfl
  | _ =>
    cases h
    rfl

/-- Where only one scanner gives tokens of a category, a token of it comes from that scanner. -/
theorem eq_of_category {s s' : Scanner} {piece : List Char} {t : Token} {category : Category}
    (h : s.token lexicon piece = .ok (some t)) (ht : t.category = category)
    (honly : ∀ s ∈ all, s.category? = some category → s = s') : s = s' :=
  honly s (by cases s <;> decide) (ht ▸ category_of_token h)

end Scanner

/-! ### Pieces -/

namespace Lexicon
variable {lexicon : Lexicon} {s : Scanner} {n position : Nat} {text : String} {piece rest cs : List Char}

/-- The scanner takes the piece in front of the rest: it is the first that recognises anything. -/
structure Takes (lexicon : Lexicon) (s : Scanner) (piece rest : List Char) : Prop where
  ne_nil : piece ≠ []
  length : s.length lexicon (piece ++ rest) = piece.length
  above : ∀ s' ∈ s.above, s'.length lexicon (piece ++ rest) = 0

theorem exists_takes (h : lexicon.first? cs = some (s, n)) :
    ∃ piece rest, cs = piece ++ rest ∧ piece.length = n + 1 ∧ lexicon.Takes s piece rest := by
  obtain ⟨above, s', below, hall, hfound, hnone⟩ := List.findSome?_eq_some_iff.mp h
  split at hfound
  · cases hfound
  · rename_i m hm
    obtain ⟨rfl, rfl⟩ := Prod.mk.inj (Option.some.inj hfound)
    have hle := s'.length_le lexicon cs
    have hpiece : (cs.take (m + 1)).length = m + 1 := by rw [List.length_take]; omega
    refine ⟨cs.take (m + 1), cs.drop (m + 1), (List.take_append_drop ..).symm, hpiece, ?_, ?_, ?_⟩
    · exact List.ne_nil_of_length_eq_add_one hpiece
    · rw [List.take_append_drop, hpiece, hm]
    · rw [List.take_append_drop]
      intro s'' hs''
      -- The scanner stands once in the list, so that those above it are those that have found nothing.
      have habove : s'' ∈ above := by
        have hnot : s' ∉ above := fun hmem => by
          have := hnone s' hmem
          rw [hm] at this
          cases this
        have hsplit : s'.above = above := by
          rw [Scanner.above, hall, List.takeWhile_append_of_pos, List.takeWhile_cons_of_neg (by simp), List.append_nil]
          exact fun a ha => bne_iff_ne.mpr fun hsame => hnot (hsame ▸ ha)
        rwa [← hsplit]
      have := hnone s'' habove
      split at this
      · assumption
      · cases this

theorem Takes.first? (h : lexicon.Takes s piece rest) :
    lexicon.first? (piece ++ rest) = some (s, piece.length - 1) := by
  have hpos := List.length_pos_iff.mpr h.ne_nil
  obtain ⟨below, hall⟩ : ∃ below, Scanner.all = s.above ++ s :: below := by
    cases s <;> exact ⟨_, rfl⟩
  refine List.findSome?_eq_some_iff.mpr ⟨s.above, s, below, hall, ?_, fun s' hs' => ?_⟩
  · rw [h.length]
    obtain ⟨m, hm⟩ := Nat.exists_eq_add_of_lt hpos
    rw [Nat.zero_add] at hm
    simp only [hm, Nat.add_sub_cancel]
  · rw [h.above s' hs']

/-! ### The tokens of a text -/

theorem tokenizeFrom_nil : lexicon.tokenizeFrom text position [] = .ok [] := by
  rw [tokenizeFrom.eq_def]

theorem tokenizeFrom_stuck (hne : cs ≠ []) (h : lexicon.first? cs = none) :
    lexicon.tokenizeFrom text position cs = .error (.unreadable text position) := by
  cases cs with
  | nil => exact absurd rfl hne
  | cons c cs =>
    rw [tokenizeFrom.eq_def]
    dsimp only
    rw [h]

/-- The token of a piece stands in front of those of the rest. -/
theorem Takes.tokenizeFrom (h : lexicon.Takes s piece rest) : lexicon.tokenizeFrom text position (piece ++ rest) =
    (s.token lexicon piece).bind fun t =>
      (lexicon.tokenizeFrom text (position + piece.length) rest).map (t.toList ++ ·) := by
  have hfirst := h.first?
  obtain ⟨c, piece, rfl⟩ := List.exists_cons_of_ne_nil h.ne_nil
  rw [List.cons_append, List.length_cons, Nat.add_sub_cancel] at hfirst
  rw [List.cons_append, tokenizeFrom.eq_def]
  dsimp only
  rw [hfirst]
  dsimp only
  rw [List.take_left, List.drop_left, List.length_cons, Nat.add_assoc]
  refine Outcome.bind_congr fun t _ => ?_
  cases lexicon.tokenizeFrom text (position + (piece.length + 1)) rest <;> rfl

/-- Properties of a text follow its pieces: it ends, no scanner recognises anything, or a piece is taken. -/
theorem tokenizeFrom_induction (lexicon : Lexicon) {motive : Nat → List Char → Prop}
    (nil : ∀ position, motive position [])
    (stuck : ∀ position cs, cs ≠ [] → lexicon.first? cs = none → motive position cs)
    (piece : ∀ position s piece rest, lexicon.Takes s piece rest → motive (position + piece.length) rest →
      motive position (piece ++ rest)) (position : Nat) (cs : List Char) : motive position cs := by
  induction hlen : cs.length using Nat.strongRecOn generalizing position cs with
  | ind length ih =>
    cases hfirst : lexicon.first? cs with
    | none =>
      by_cases hne : cs = []
      · exact hne ▸ nil position
      · exact stuck position cs hne hfirst
    | some found =>
      obtain ⟨taken, rest, hsplit, hpos, htakes⟩ := exists_takes hfirst
      have hshort : rest.length < length := by rw [← hlen, hsplit, List.length_append]; omega
      exact hsplit ▸ piece position _ taken rest htakes (ih _ hshort _ rest rfl)

/-- Each token is that of a piece, and those behind it are read from what is behind the piece. -/
theorem tokenizeFrom_split {front back : List Token} {t : Token}
    (h : lexicon.tokenizeFrom text position cs = .ok (front ++ t :: back)) :
    ∃ s piece rest position', lexicon.Takes s piece rest ∧ piece ++ rest <:+ cs ∧
      s.token lexicon piece = .ok (some t) ∧ lexicon.tokenizeFrom text position' rest = .ok back := by
  induction position, cs using tokenizeFrom_induction lexicon generalizing front with
  | nil position =>
    rw [tokenizeFrom_nil] at h
    exact absurd (Except.ok.inj h).symm (by simp)
  | stuck position cs hne hfirst =>
    rw [tokenizeFrom_stuck hne hfirst] at h
    cases h
  | piece position s piece rest htakes ih =>
    rw [htakes.tokenizeFrom] at h
    obtain ⟨t?, htoken, h⟩ := Outcome.bind_eq_ok h
    obtain ⟨us, hus, hts⟩ := Outcome.map_eq_ok h
    have behind : ∀ front', us = front' ++ t :: back → ∃ s' piece' rest' position', lexicon.Takes s' piece' rest' ∧
        piece' ++ rest' <:+ piece ++ rest ∧ s'.token lexicon piece' = .ok (some t) ∧
        lexicon.tokenizeFrom text position' rest' = .ok back := by
      rintro front' rfl
      obtain ⟨s', piece', rest', position', htakes', hsuffix, hread⟩ := ih hus
      exact ⟨s', piece', rest', position', htakes', hsuffix.trans (List.suffix_append ..), hread⟩
    -- The token is that of this piece, or it stands behind it.
    cases t? with
    | none => exact behind front hts
    | some u =>
      cases front with
      | nil =>
        obtain ⟨rfl, rfl⟩ := List.cons.inj hts
        exact ⟨s, piece, rest, _, htakes, List.suffix_refl _, htoken, hus⟩
      | cons v front => exact behind front (List.cons.inj hts).2

end Lexicon
end Reckoner
