import Mathlib.Data.List.TakeWhile
import Reckoner.Proofs.Lexemes

/-!
# The pieces of a text

A text is read in pieces that stand one behind the other (`Lexicon.Tiles`): each is what the first scanner that matches
there reads, none of them is empty, and all but the blank ones give one token. The reading goes on to the end of the
text, to a place where no scanner matches, or to a number with more digits than an integer may have.
-/

namespace Reckoner

namespace Scanner
open Text
variable {lexicon : Lexicon} {s : Scanner} {position n : Nat} {text : String} {piece rest cs : List Char} {f : Failure}

/-! ### The tokens of pieces -/

/-- A number is nothing but digits, or it has a point with digits behind it. -/
theorem numberLength_cases (cs : List Char) : numberLength cs = 0 ∨
    (∃ digits rest, cs = digits ++ rest ∧ (∀ c ∈ digits, isDigit c = true) ∧ numberLength cs = digits.length) ∨
    ∃ whole fraction rest, cs = (whole ++ '.' :: fraction) ++ rest ∧ fraction ≠ [] ∧
      (∀ c ∈ whole, isDigit c = true) ∧ (∀ c ∈ fraction, isDigit c = true) ∧
      numberLength cs = (whole ++ '.' :: fraction).length := by
  have hsplit := (List.takeWhile_append_dropWhile (p := isDigit) (l := cs)).symm
  have hwhole : ∀ c ∈ cs.takeWhile isDigit, isDigit c = true := fun c hc => List.mem_takeWhile_imp hc
  by_cases hpoint : (cs.dropWhile isDigit).head? = some '.'
  · obtain ⟨behind, hbehind⟩ := List.head?_eq_some_iff.mp hpoint
    have hlength := numberLength_point hbehind
    dsimp only at hlength
    split at hlength
    · rename_i hfraction
      refine Or.inr (Or.inr ⟨cs.takeWhile isDigit, behind.takeWhile isDigit, behind.dropWhile isDigit, ?_,
        List.length_pos_iff.mp (Nat.pos_of_ne_zero hfraction.1), hwhole, fun c hc => List.mem_takeWhile_imp hc, ?_⟩)
      · rw [List.append_assoc, List.cons_append, List.takeWhile_append_dropWhile, ← hbehind, ← hsplit]
      · rw [hlength, List.length_append, List.length_cons]
        omega
    · exact Or.inr (Or.inl ⟨_, _, hsplit, hwhole, hlength⟩)
  · have hlength := numberLength_whole hpoint
    split at hlength
    · exact Or.inr (Or.inl ⟨_, _, hsplit, hwhole, hlength⟩)
    · exact Or.inl hlength

theorem numberValue_of_digits (hne : piece ≠ []) (h : ∀ c ∈ piece, isDigit c = true) : numberValue piece =
    if Reading.digitLimit < piece.length then .error .longInteger else .ok (.int (decimalValue piece)) := by
  rw [numberValue, Lexeme.not_isDigit_point h, if_neg Bool.false_ne_true, Reading.integer?_of_digits hne h]
  by_cases hlong : Reading.digitLimit < piece.length
  · rw [if_pos hlong, if_pos hlong]
  · rw [if_neg hlong, if_neg hlong]

/-- A number with too many digits fails; every other piece gives a token unless it is blank. -/
theorem token_of_length (hne : piece ≠ []) (h : s.length lexicon (piece ++ rest) = piece.length) :
    (s = .number ∧ (∀ c ∈ piece, isDigit c = true) ∧ Reading.digitLimit < piece.length) ∨
      ∃ t, s.token lexicon piece = .ok t ∧ (t = none ↔ s = .blank) := by
  have hpos := List.length_pos_iff.mpr hne
  cases s with
  | number =>
    rw [Scanner.length] at h
    rcases numberLength_cases (piece ++ rest) with hzero | ⟨digits, behind, hcs, hdigits, hlen⟩ |
      ⟨whole, fraction, behind, hcs, hfraction, hw, hf, hlen⟩
    · omega
    · obtain rfl := List.append_inj_left hcs (h.symm.trans hlen)
      by_cases hlong : Reading.digitLimit < piece.length
      · exact Or.inl ⟨rfl, hdigits, hlong⟩
      · refine Or.inr ⟨some ⟨.numeric, .int (decimalValue piece)⟩, ?_, by simp⟩
        rw [token, numberValue_of_digits hne hdigits, if_neg hlong]
        rfl
    · obtain rfl := List.append_inj_left hcs (h.symm.trans hlen)
      obtain ⟨x, hx⟩ := Reading.exists_real? hfraction hw hf
      have hpoint : (whole ++ '.' :: fraction).contains '.' = true := List.contains_iff_mem.mpr (by simp)
      refine Or.inr ⟨some ⟨.numeric, .real x⟩, ?_, by simp⟩
      rw [token, numberValue, hpoint, if_pos rfl, hx]
      rfl
  | _ => exact Or.inr ⟨_, rfl, by simp⟩

/-! ### Scanners at a place of a text -/

theorem scanAt_eq_none_iff (hcs : text.toList.drop position = cs) :
    s.scanAt lexicon text position = .ok none ↔ s.length lexicon cs = 0 := by
  unfold scanAt
  rw [hcs]
  dsimp only
  split
  · rename_i hzero
    exact iff_of_true rfl hzero
  · rename_i n hne
    refine iff_of_false (fun h => ?_) hne
    obtain ⟨t, -, ht⟩ := Outcome.map_eq_ok h
    cases ht

theorem scanAt_piece (hcs : text.toList.drop position = piece ++ rest) (hne : piece ≠ [])
    (h : s.length lexicon (piece ++ rest) = piece.length) : s.scanAt lexicon text position =
      (s.token lexicon piece).map fun t => some (t, position + piece.length) := by
  unfold scanAt
  dsimp only
  rw [hcs, h]
  split
  · rename_i hzero
    exact absurd (List.length_eq_zero_iff.mp hzero) hne
  · rw [List.take_left]

end Scanner

/-! ### Tilings -/

namespace Lexicon

/-- A part of a text as a scanner reads it: its token, if it gives one, and the place behind it. -/
structure Piece where
  scanner : Scanner
  token : Option Token
  stop : Nat

variable {lexicon : Lexicon} {text : String} {position stop : Nat} {p : Piece} {pieces : List Piece} {f : Failure}

/-- The piece is what the first scanner that matches at the place reads there; only a blank one gives no token. -/
structure Reads (lexicon : Lexicon) (text : String) (position : Nat) (p : Piece) : Prop where
  lt : position < p.stop
  above : ∀ s ∈ p.scanner.above, s.scanAt lexicon text position = .ok none
  scan : p.scanner.scanAt lexicon text position = .ok (some (p.token, p.stop))
  token : p.token = none ↔ p.scanner = .blank

/-- The pieces stand one behind the other from the first place to the second. -/
inductive Tiles (lexicon : Lexicon) (text : String) : Nat → List Piece → Nat → Prop where
  | done (position : Nat) : Tiles lexicon text position [] position
  | piece {position stop : Nat} {p : Piece} {pieces : List Piece} (head : lexicon.Reads text position p)
      (tail : Tiles lexicon text p.stop pieces stop) : Tiles lexicon text position (p :: pieces) stop

/-- What fails at a place inside the text: no scanner matches, or the first that does reads too many digits. -/
inductive FailsAt (lexicon : Lexicon) (text : String) (position : Nat) : Failure → Prop where
  | unreadable (inside : position < text.length)
      (stuck : ∀ s ∈ Scanner.all, s.scanAt lexicon text position = .ok none) :
      FailsAt lexicon text position (.unreadable text position)
  | longInteger {digits rest : List Char} (split : text.toList.drop position = digits ++ rest)
      (above : ∀ s ∈ Scanner.number.above, s.scanAt lexicon text position = .ok none)
      (length : Scanner.number.length lexicon (digits ++ rest) = digits.length)
      (digit : ∀ c ∈ digits, Text.isDigit c = true) (long : Reading.digitLimit < digits.length) :
      FailsAt lexicon text position .longInteger

/-- What a piece is in the characters of the text. -/
theorem Reads.takes (h : lexicon.Reads text position p) : ∃ piece rest, text.toList.drop position = piece ++ rest ∧
    lexicon.Takes p.scanner piece rest ∧ p.scanner.token lexicon piece = .ok p.token ∧
    p.stop = position + piece.length := by
  obtain ⟨cs, hcs⟩ : ∃ cs, text.toList.drop position = cs := ⟨_, rfl⟩
  -- The piece has as many characters as the scanner matches.
  have hmatches : p.scanner.length lexicon cs ≠ 0 := fun hzero => by
    have hscan := h.scan
    rw [(Scanner.scanAt_eq_none_iff hcs).mpr hzero] at hscan
    cases hscan
  have hlength : (cs.take (p.scanner.length lexicon cs)).length = p.scanner.length lexicon cs :=
    List.length_take_of_le (p.scanner.length_le lexicon cs)
  have hsplit := (List.take_append_drop (p.scanner.length lexicon cs) cs).symm
  have hne : cs.take (p.scanner.length lexicon cs) ≠ [] := List.length_pos_iff.mp (by omega)
  have hscan := h.scan
  rw [Scanner.scanAt_piece (hcs.trans hsplit) hne (by rw [← hsplit, hlength])] at hscan
  obtain ⟨t, htoken, ht⟩ := Outcome.map_eq_ok hscan
  obtain ⟨rfl, hstop⟩ := Prod.mk.inj (Option.some.inj ht)
  refine ⟨_, _, hcs.trans hsplit, ⟨hne, by rw [← hsplit, hlength], fun s hs => ?_⟩, htoken, hstop.symm⟩
  rw [← hsplit]
  exact (Scanner.scanAt_eq_none_iff hcs).mp (h.above s hs)

theorem drop_behind {piece rest : List Char} (h : text.toList.drop position = piece ++ rest) :
    text.toList.drop (position + piece.length) = rest := by
  rw [← List.drop_drop, h, List.drop_left]

/-- The tokens of the pieces of a tiling stand in front of those of the rest of the text. -/
theorem Tiles.tokenizeFrom (h : lexicon.Tiles text position pieces stop) :
    lexicon.tokenizeFrom text position (text.toList.drop position) =
      (lexicon.tokenizeFrom text stop (text.toList.drop stop)).map (pieces.filterMap (·.token) ++ ·) := by
  induction h with
  | done position => cases lexicon.tokenizeFrom text position (text.toList.drop position) <;> rfl
  | @piece position stop p pieces head tail ih =>
    obtain ⟨taken, rest, hcs, htakes, htoken, hstop⟩ := head.takes
    rw [hcs, htakes.tokenizeFrom, htoken, ← hstop, ← drop_behind hcs, ← hstop, ih]
    have htokens : (p :: pieces).filterMap (·.token) = p.token.toList ++ pieces.filterMap (·.token) := by
      cases htoken : p.token <;> simp [htoken]
    rw [htokens]
    cases lexicon.tokenizeFrom text stop (text.toList.drop stop) with
    | error f => rfl
    | ok tokens => exact congrArg Except.ok (List.append_assoc ..).symm

theorem FailsAt.tokenizeFrom (h : lexicon.FailsAt text position f) :
    lexicon.tokenizeFrom text position (text.toList.drop position) = .error f := by
  cases h with
  | unreadable inside stuck =>
    refine tokenizeFrom_stuck (fun hnil => ?_) (List.findSome?_eq_none_iff.mpr fun s hs => ?_)
    · rw [List.drop_eq_nil_iff, String.length_toList] at hnil
      omega
    · rw [(Scanner.scanAt_eq_none_iff rfl).mp (stuck s hs)]
  | @longInteger digits rest split above length digit long =>
    have hne : digits ≠ [] := fun hnil => by simp [hnil] at long
    have htakes : lexicon.Takes .number digits rest :=
      ⟨hne, length, fun s hs => (Scanner.scanAt_eq_none_iff split).mp (above s hs)⟩
    rw [split, htakes.tokenizeFrom, Scanner.token, Scanner.numberValue_of_digits hne digit, if_pos long]
    rfl

/-- From every place pieces follow up to the end of the text or to a place that fails. -/
theorem exists_tiles (lexicon : Lexicon) (text : String) (position : Nat) (h : position ≤ text.length) :
    ∃ pieces stop, lexicon.Tiles text position pieces stop ∧
      (stop = text.length ∨ ∃ f, lexicon.FailsAt text stop f) := by
  obtain ⟨cs, hcs⟩ : ∃ cs, text.toList.drop position = cs := ⟨_, rfl⟩
  induction position, cs using tokenizeFrom_induction lexicon with
  | nil position =>
    rw [List.drop_eq_nil_iff, String.length_toList] at hcs
    exact ⟨[], position, .done position, Or.inl (Nat.le_antisymm h hcs)⟩
  | stuck position cs hne hfirst =>
    have hinside : position < text.length := Nat.lt_of_not_le fun hle => by
      rw [← String.length_toList, ← List.drop_eq_nil_iff, hcs] at hle
      exact hne hle
    refine ⟨[], position, .done position, Or.inr ⟨_, .unreadable hinside fun s hs => ?_⟩⟩
    have hnone := List.findSome?_eq_none_iff.mp hfirst s hs
    rw [Scanner.scanAt_eq_none_iff hcs]
    split at hnone
    · assumption
    · cases hnone
  | piece position s piece rest htakes ih =>
    have habove : ∀ s' ∈ s.above, s'.scanAt lexicon text position = .ok none := fun s' hs' =>
      (Scanner.scanAt_eq_none_iff hcs).mpr (htakes.above s' hs')
    -- Too many digits end the tiling here; otherwise the piece stands in front of that of the rest.
    rcases Scanner.token_of_length htakes.ne_nil htakes.length with ⟨rfl, hdigits, hlong⟩ | ⟨t, htoken, hblank⟩
    · exact ⟨[], position, .done position, Or.inr ⟨_, .longInteger hcs habove htakes.length hdigits hlong⟩⟩
    · have hscan := Scanner.scanAt_piece hcs htakes.ne_nil htakes.length
      rw [htoken] at hscan
      have hstop : position + piece.length ≤ text.length := by
        have hlen := congrArg List.length hcs
        rw [List.length_drop, String.length_toList, List.length_append] at hlen
        omega
      have hlt : position < position + piece.length := Nat.lt_add_of_pos_right (List.length_pos_iff.mpr htakes.ne_nil)
      obtain ⟨pieces, stop, htiles, hend⟩ := ih hstop (drop_behind hcs)
      exact ⟨⟨s, t, position + piece.length⟩ :: pieces, stop, .piece ⟨hlt, habove, hscan, hblank⟩ htiles, hend⟩

theorem Tiles.tokenize (h : lexicon.Tiles text 0 pieces text.length) :
    lexicon.tokenize text = .ok (pieces.filterMap (·.token)) := by
  have htokens := h.tokenizeFrom
  rw [List.drop_eq_nil_of_le (Nat.le_of_eq String.length_toList), tokenizeFrom_nil] at htokens
  exact htokens.trans (congrArg Except.ok (List.append_nil _))

theorem FailsAt.tokenize (hfails : lexicon.FailsAt text stop f) (h : lexicon.Tiles text 0 pieces stop) :
    lexicon.tokenize text = .error f := by
  have htokens := h.tokenizeFrom
  rw [hfails.tokenizeFrom] at htokens
  exact htokens

/-- A text gives the tokens of the pieces that tile it; or it fails where the pieces in front have led, because no
scanner matches there or the piece there has too many digits. -/
theorem tokenize_tiles (lexicon : Lexicon) (text : String) :
    (∀ tokens, lexicon.tokenize text = .ok tokens ↔
      ∃ pieces, lexicon.Tiles text 0 pieces text.length ∧ tokens = pieces.filterMap (·.token)) ∧
    (∀ f, lexicon.tokenize text = .error f ↔
      ∃ pieces stop, lexicon.Tiles text 0 pieces stop ∧ lexicon.FailsAt text stop f) := by
  refine ⟨fun tokens => ⟨fun h => ?_, fun ⟨pieces, htiles, htokens⟩ => htokens ▸ htiles.tokenize⟩,
    fun f => ⟨fun h => ?_, fun ⟨pieces, stop, htiles, hfails⟩ => hfails.tokenize htiles⟩⟩
  · obtain ⟨pieces, stop, htiles, rfl | ⟨f, hfails⟩⟩ := exists_tiles lexicon text 0 (Nat.zero_le _)
    · exact ⟨pieces, htiles, (Except.ok.inj (htiles.tokenize.symm.trans h)).symm⟩
    · cases (hfails.tokenize htiles).symm.trans h
  · obtain ⟨pieces, stop, htiles, rfl | ⟨f', hfails⟩⟩ := exists_tiles lexicon text 0 (Nat.zero_le _)
    · cases htiles.tokenize.symm.trans h
    · cases (hfails.tokenize htiles).symm.trans h
      exact ⟨pieces, stop, htiles, hfails⟩

end Lexicon
end Reckoner
