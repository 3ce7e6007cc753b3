import Reckoner.Proofs.Numerals
import Reckoner.Proofs.Words

/-!
# Lexemes

The lexemes of an expression are numerals, quotations, symbols and words. Where they stand apart, a text of them is read
as one token each (`Lexicon.tokenize_spelled`).
-/

namespace Reckoner
open Text

/-! ### Lexemes and their tokens -/

namespace Scanner

/-- The symbols of a scanner and the names of their tokens. -/
def symbols : Scanner → List (String × String)
  | .operator => operatorSymbols
  | .grouping => groupingSymbols
  | .comma => [(",", "comma")]
  | .comparator => comparatorSymbols
  | _ => []

/-- The category of the tokens of symbols. -/
def symbolCategory : Scanner → Category
  | .grouping => .grouping
  | .comma => .comma
  | .comparator => .comparator
  | _ => .operator

end Scanner

/-- A piece of a text that stands for one token. -/
inductive Lexeme where
  | integer (digits : List Char) (nonempty : digits ≠ []) (all : ∀ c ∈ digits, isDigit c = true)
      (short : digits.length ≤ Reading.digitLimit)
  | decimal (whole fraction : List Char) (nonempty : whole ≠ [] ∧ fraction ≠ [])
      (all : ∀ c ∈ whole ++ fraction, isDigit c = true)
  | quoted (quote : Char) (content : List Char) (mark : quote = '"' ∨ quote = '\'') (free : quote ∉ content)
  | symbol (kind : Scanner) (entry : String × String) (mem : entry ∈ kind.symbols)
  | word (letters : List Char) (name : isName letters = true)

namespace Lexeme

/-- The lexeme as it is written. -/
def text : Lexeme → List Char
  | integer digits _ _ _ => digits
  | decimal whole fraction _ _ => whole ++ '.' :: fraction
  | quoted quote content _ _ => quote :: (content ++ [quote])
  | symbol _ entry _ => entry.1.toList
  | word letters _ => letters

/-- The token of a lexeme, behind which a call is opened or not. -/
def token (lexicon : Lexicon) (opens : Bool) : Lexeme → Token
  | integer digits _ _ _ => ⟨.numeric, .int (decimalValue digits)⟩
  | decimal whole fraction _ _ =>
    ⟨.numeric, .real (Reading.ofDecimal false (decimalValue (whole ++ fraction)) (-fraction.length))⟩
  | quoted _ content _ _ => ⟨.string, .text (String.ofList content)⟩
  | symbol kind entry _ => ⟨kind.symbolCategory, .text entry.2⟩
  | word letters _ => lexicon.wordToken letters opens

/-- The lexeme is an opening bracket. -/
def isOpening (l : Lexeme) : Bool := l.text == ['(']

/-- The tokens of lexemes in a row. -/
def tokens (lexicon : Lexicon) : List Lexeme → List Token
  | [] => []
  | l :: ls => l.token lexicon (ls.head?.any isOpening) :: tokens lexicon ls

/-- The text consists of the lexemes with white space between them. -/
inductive Spelled : List Lexeme → List Char → Prop where
  | nil : Spelled [] []
  | single (l : Lexeme) : Spelled [l] l.text
  | cons (l : Lexeme) {next : Lexeme} {ls : List Lexeme} {gap rest : List Char} : gap ≠ [] →
      (∀ c ∈ gap, isBlank c = true) → Spelled (next :: ls) rest → Spelled (l :: next :: ls) (l.text ++ (gap ++ rest))

/-! ### How a lexeme is taken -/

variable {lexicon : Lexicon} {rest : List Char}

open Scanner

theorem takes_of_starts {s : Scanner} {c : Char} {cs : List Char} (hascii : lexicon.IsAscii)
    (habove : ∀ s' ∈ s.above, s'.starts c = false) (hlen : s.length lexicon (c :: cs ++ rest) = (c :: cs).length) :
    lexicon.Takes s (c :: cs) rest := by
  refine ⟨List.cons_ne_nil _ _, hlen, fun s' hs' => Nat.eq_zero_of_not_pos fun hpos => ?_⟩
  have := habove s' hs'
  rw [starts_of_length hascii hpos] at this
  cases this

theorem numberLength_digits {digits : List Char} (hne : digits ≠ []) (h : ∀ c ∈ digits, isDigit c = true) :
    numberLength digits = digits.length := by
  have hwords : ∀ c ∈ digits, isWord c = true := fun c hc => isWord_of_isDigit (h c hc)
  rw [numberLength_whole (by simp [List.dropWhile_eq_nil_iff.mpr h]), List.takeWhile_eq_self_iff.mpr h,
    if_pos (wordEndsAt_length hne hwords)]

theorem numberLength_decimal {whole fraction : List Char} (hne : fraction ≠ []) (hw : ∀ c ∈ whole, isDigit c = true)
    (hf : ∀ c ∈ fraction, isDigit c = true) :
    numberLength (whole ++ '.' :: fraction) = (whole ++ '.' :: fraction).length := by
  have hpoint : ¬ isDigit '.' = true := by decide
  have hlen : (whole ++ '.' :: fraction).length = whole.length + 1 + fraction.length := by
    rw [List.length_append, List.length_cons]
    omega
  have hends : wordEndsAt (whole.length + 1 + fraction.length) (whole ++ '.' :: fraction) = true := by
    unfold wordEndsAt
    rw [← hlen, List.take_length, List.drop_length, List.getLast?_append, List.getLast?_cons_of_ne_nil hne,
      List.getLast?_eq_some_getLast hne]
    show (isWord _ != false) = true
    rw [isWord_of_isDigit (hf _ (List.getLast_mem hne))]
    rfl
  rw [numberLength_point (by rw [List.dropWhile_append_of_pos hw, List.dropWhile_cons_of_neg hpoint])]
  dsimp only
  rw [List.takeWhile_append_of_pos hw, List.takeWhile_cons_of_neg hpoint, List.append_nil,
    List.takeWhile_eq_self_iff.mpr hf, if_pos ⟨fun h => hne (List.length_eq_zero_iff.mp h), hends⟩, hlen]

theorem quotedLength_quoted {quote : Char} {content : List Char} (h : quote ∉ content) (rest : List Char) :
    quotedLength quote (quote :: (content ++ [quote]) ++ rest) = content.length + 2 := by
  have hcontent : ∀ c ∈ content, (c != quote) = true := fun c hc => bne_iff_ne.mpr fun hsame => h (hsame ▸ hc)
  have htake : (content ++ [quote] ++ rest).takeWhile (· != quote) = content := by
    rw [List.append_assoc, List.takeWhile_append_of_pos hcontent, List.singleton_append,
      List.takeWhile_cons_of_neg (by simp), List.append_nil]
  rw [List.cons_append, quotedLength, htake]
  simp

/-! ### The token of a lexeme -/

theorem not_isDigit_point {digits : List Char} (h : ∀ c ∈ digits, isDigit c = true) : digits.contains '.' = false := by
  refine Bool.eq_false_iff.mpr fun hpoint => ?_
  have := h '.' (List.contains_iff_mem.mp hpoint)
  revert this
  decide

theorem not_isBlank_digit {c : Char} (h : isDigit c = true) : isBlank c = false := by
  refine Bool.eq_false_iff.mpr fun hblank => ?_
  rw [isDigit_of_isBlank hblank] at h
  cases h

theorem numberValue_digits {digits : List Char} (hne : digits ≠ []) (h : ∀ c ∈ digits, isDigit c = true)
    (hlen : digits.length ≤ Reading.digitLimit) : numberValue digits = .ok (.int (decimalValue digits)) := by
  rw [numberValue, not_isDigit_point h, if_neg Bool.false_ne_true, Reading.integer?_digits hne h hlen]

theorem numberValue_decimal {whole fraction : List Char} (hne : whole ≠ []) (hw : ∀ c ∈ whole, isDigit c = true)
    (hf : ∀ c ∈ fraction, isDigit c = true) : numberValue (whole ++ '.' :: fraction) =
      .ok (.real (Reading.ofDecimal false (decimalValue (whole ++ fraction)) (-fraction.length))) := by
  have hpoint : (whole ++ '.' :: fraction).contains '.' = true := List.contains_iff_mem.mpr (by simp)
  rw [numberValue, hpoint, if_pos rfl, Reading.real?_decimal hne hw hf, Int.zero_sub]

section Symbols
variable {kind : Scanner} {entry : String × String} (h : entry ∈ kind.symbols)
include h

theorem symbol_facts : entry.1.toList ≠ [] ∧ symbolLength kind.symbols entry.1.toList = entry.1.toList.length ∧
    kind.symbols.lookup entry.1 = some entry.2 ∧ (∀ e ∈ kind.symbols, e.1.toList.any isBlank = false) ∧
    ∀ s ∈ kind.above, entry.1.toList.head?.any s.starts = false := by
  have hall : ∀ kind ∈ Scanner.all, ∀ entry ∈ kind.symbols, entry.1.toList ≠ [] ∧
      symbolLength kind.symbols entry.1.toList = entry.1.toList.length ∧
      kind.symbols.lookup entry.1 = some entry.2 ∧ (∀ e ∈ kind.symbols, e.1.toList.any isBlank = false) ∧
      ∀ s ∈ kind.above, entry.1.toList.head?.any s.starts = false := by decide
  have hkind : kind ∈ Scanner.all := by cases kind <;> decide
  exact hall kind hkind entry h

theorem length_symbol (text : List Char) : kind.length lexicon text = symbolLength kind.symbols text := by
  cases kind <;> first | rfl | cases h

theorem token_symbol : kind.token lexicon entry.1.toList = .ok (some ⟨kind.symbolCategory, .text entry.2⟩) := by
  have htoken : kind.token lexicon entry.1.toList =
      .ok (some (symbolToken kind.symbolCategory kind.symbols (String.ofList entry.1.toList))) := by
    cases kind with
    | comma =>
      rw [List.mem_singleton.mp h]
      rfl
    | operator | grouping | comparator => rfl
    | _ => cases h
  rw [htoken, String.ofList_toList, symbolToken, (symbol_facts h).2.2.1]
  rfl

end Symbols

/-- A lexeme is taken as a whole in front of a gap. -/
theorem takes (l : Lexeme) (hlower : lexicon.IsLower) (hgap : AtGap rest) :
    ∃ s, lexicon.Takes s l.text rest ∧ s.token lexicon l.text = .ok (some (l.token lexicon (opensCall rest))) := by
  have hascii := hlower.isAscii
  cases l with
  | integer digits hne hdigits hshort =>
    refine ⟨.number, ?_, ?_⟩
    · obtain ⟨c, cs, rfl⟩ := List.exists_cons_of_ne_nil hne
      refine takes_of_starts hascii (List.forall_mem_singleton.mpr (not_isBlank_digit (hdigits c (by simp)))) ?_
      exact (numberLength_gap hgap).trans (numberLength_digits hne hdigits)
    · show (numberValue digits).map _ = _
      rw [numberValue_digits hne hdigits hshort]
      rfl
  | decimal whole fraction hne hdigits =>
    obtain ⟨hw, hf⟩ := List.forall_mem_append.mp hdigits
    refine ⟨.number, ?_, ?_⟩
    · have hlen := (numberLength_gap hgap).trans (numberLength_decimal hne.2 hw hf)
      obtain ⟨c, cs, rfl⟩ := List.exists_cons_of_ne_nil hne.1
      exact takes_of_starts hascii (List.forall_mem_singleton.mpr (not_isBlank_digit (hw c (by simp)))) hlen
    · show (numberValue (whole ++ '.' :: fraction)).map _ = _
      rw [numberValue_decimal hne.1 hw hf]
      rfl
  | quoted quote content hmark hfree =>
    have htoken : String.ofList ((quote :: (content ++ [quote])).drop 1).dropLast = String.ofList content := by simp
    have hlen : quotedLength quote (quote :: (content ++ [quote]) ++ rest) = (quote :: (content ++ [quote])).length := by
      rw [quotedLength_quoted hfree, List.length_cons, List.length_append]
      rfl
    rcases hmark with rfl | rfl
    · refine ⟨.doubleQuoted, takes_of_starts hascii (by decide) hlen, ?_⟩
      exact congrArg (fun t => Except.ok (some (Token.mk .string (.text t)))) htoken
    · refine ⟨.singleQuoted, takes_of_starts hascii (by decide) hlen, ?_⟩
      exact congrArg (fun t => Except.ok (some (Token.mk .string (.text t)))) htoken
  | symbol kind entry hmem =>
    obtain ⟨hne, hlen, -, hblank, hstarts⟩ := symbol_facts hmem
    refine ⟨kind, ?_, token_symbol hmem⟩
    have hlen : kind.length lexicon (entry.1.toList ++ rest) = entry.1.toList.length := by
      rw [length_symbol hmem, symbolLength_gap hgap hblank, hlen]
    show lexicon.Takes kind entry.1.toList rest
    obtain ⟨c, cs, hcs⟩ := List.exists_cons_of_ne_nil hne
    rw [hcs] at hlen hstarts ⊢
    exact takes_of_starts hascii hstarts hlen
  | word letters hname => exact Lexicon.takes_word hlower hname hgap

/-! ### Lexemes in a row -/

/-- Only an opening bracket starts with one, and no lexeme starts with white space. -/
theorem opensCall_text (l : Lexeme) (rest : List Char) : opensCall (l.text ++ rest) = l.isOpening := by
  have other : ∀ {c : Char} {cs : List Char}, isBlank c = false → c ≠ '(' →
      opensCall (c :: cs ++ rest) = (c :: cs == ['(']) := by
    intro c cs hblank hc
    simp [opensCall, hblank, hc]
  have digit : ∀ {c : Char}, isDigit c = true → c ≠ '(' := by
    rintro c h rfl
    revert h
    decide
  cases l with
  | integer digits hne hdigits hshort =>
    obtain ⟨c, cs, rfl⟩ := List.exists_cons_of_ne_nil hne
    have hc := hdigits c (by simp)
    exact other (not_isBlank_digit hc) (digit hc)
  | decimal whole fraction hne hdigits =>
    obtain ⟨c, cs, rfl⟩ := List.exists_cons_of_ne_nil hne.1
    have hc := hdigits c (by simp)
    exact other (not_isBlank_digit hc) (digit hc)
  | quoted quote content hmark hfree => rcases hmark with rfl | rfl <;> exact other (by decide) (by decide)
  | symbol kind entry hmem =>
    have hheads : ∀ kind ∈ Scanner.all, ∀ e ∈ kind.symbols, e.1.toList.head? = some '(' → e.1.toList = ['('] := by
      decide
    obtain ⟨hne, -, -, hblanks, -⟩ := symbol_facts hmem
    obtain ⟨c, cs, hcs⟩ := List.exists_cons_of_ne_nil hne
    have hblank : ¬ isBlank c = true := List.any_eq_false.mp (hblanks entry hmem) c (by simp [hcs])
    have hopening := hheads kind (by cases kind <;> decide) entry hmem
    show opensCall (entry.1.toList ++ rest) = (entry.1.toList == ['('])
    rw [hcs] at hopening ⊢
    by_cases hc : c = '('
    · rw [hopening (hc ▸ rfl)]
      rfl
    · exact other (Bool.not_eq_true _ ▸ hblank) hc
  | word letters hname =>
    cases letters with
    | nil => cases hname
    | cons c cs =>
      have hfirst : ∀ n < 128, isNameStart (Char.ofNat n) = true →
          isBlank (Char.ofNat n) = false ∧ Char.ofNat n ≠ '(' := by decide
      have hstart := (Bool.and_eq_true_iff.mp hname).1
      obtain ⟨hblank, hc⟩ := forall_isNamePart (p := fun c => isNameStart c = true → isBlank c = false ∧ c ≠ '(') hfirst
        (isNamePart_of_isNameStart hstart) hstart
      exact other hblank hc

theorem Spelled.opensCall {next : Lexeme} {ls : List Lexeme} {cs : List Char} (h : Spelled (next :: ls) cs) :
    opensCall cs = next.isOpening := by
  cases h with
  | single => rw [← opensCall_text next [], List.append_nil]
  | cons => exact opensCall_text next _

theorem Spelled.tokenizeFrom {ls : List Lexeme} {cs : List Char} (h : Spelled ls cs) (hlower : lexicon.IsLower)
    (text : String) : ∀ position, lexicon.tokenizeFrom text position cs = .ok (tokens lexicon ls) := by
  induction h with
  | nil => exact fun position => Lexicon.tokenizeFrom_nil
  | single l =>
    intro position
    have hend : AtGap [] := fun c hc => by cases hc
    obtain ⟨s, htakes, htoken⟩ := l.takes hlower hend
    rw [← List.append_nil l.text, htakes.tokenizeFrom, htoken, Lexicon.tokenizeFrom_nil]
    rfl
  | @cons l next ls gap rest hne hblank hrest ih =>
    intro position
    -- Whether a word is called depends on what stands behind the gap.
    have hopens : Scanner.opensCall (gap ++ rest) = next.isOpening :=
      (Scanner.opensCall_blanks hblank rest).trans hrest.opensCall
    obtain ⟨s, htakes, htoken⟩ := l.takes hlower (atGap_append hne hblank rest)
    rw [htakes.tokenizeFrom, htoken, Lexicon.tokenizeFrom_blanks hblank, ih, hopens]
    rfl

end Lexeme

/-- A text of lexemes with white space between them is read as one token for each lexeme, in their order. -/
theorem Lexicon.tokenize_spelled {names : List String} {caseSensitive : Bool}
    (hnames : ∀ name ∈ names, isName name.toList = true) {text : String} {ls : List Lexeme} (h : Lexeme.Spelled ls text.toList) :
    (Lexicon.make names caseSensitive).tokenize text = .ok (Lexeme.tokens (.make names caseSensitive) ls) :=
  h.tokenizeFrom (isLower_make hnames) text 0

/-- A call in capital letters, a quotation mark that is quoted and a word that starts as a keyword. -/
theorem Lexicon.tokenize_spelled_call :
    ∃ ls, Lexeme.Spelled ls "Round ( 3.5 , 007 ) <= \"it's\" AND\tandroid".toList ∧
      (Lexicon.make ["max"] false).tokenize "Round ( 3.5 , 007 ) <= \"it's\" AND\tandroid" =
        .ok [⟨.function, .text "round"⟩, .opening, ⟨.numeric, .real (Reading.ofDecimal false 35 (-1))⟩, .comma,
          ⟨.numeric, .int 7⟩, .closing, ⟨.comparator, .text "le"⟩, ⟨.string, .text "it's"⟩, ⟨.combinator, .text "and"⟩,
          ⟨.identifier, .text "android"⟩] := by
  let opening := Lexeme.symbol .grouping ("(", "open") (by decide)
  let comma := Lexeme.symbol .comma (",", "comma") (by decide)
  let closing := Lexeme.symbol .grouping (")", "close") (by decide)
  let le := Lexeme.symbol .comparator ("<=", "le") (by decide)
  have gap : ∀ (l : Lexeme) (c : Char) {next : Lexeme} {ls : List Lexeme} {rest : List Char}, isBlank c = true →
      Lexeme.Spelled (next :: ls) rest → Lexeme.Spelled (l :: next :: ls) (l.text ++ ([c] ++ rest)) :=
    fun l c _ _ _ hc h => .cons l (List.cons_ne_nil c []) (List.forall_mem_singleton.mpr hc) h
  have h : Lexeme.Spelled _ "Round ( 3.5 , 007 ) <= \"it's\" AND\tandroid".toList :=
    gap (.word "Round".toList (by decide)) ' ' rfl <| gap opening ' ' rfl <|
    gap (.decimal ['3'] ['5'] (by decide) (List.all_eq_true.mp (by decide))) ' ' rfl <| gap comma ' ' rfl <|
    gap (.integer "007".toList (by decide) (List.all_eq_true.mp (by decide)) (by decide)) ' ' rfl <|
    gap closing ' ' rfl <| gap le ' ' rfl <|
    gap (.quoted '"' "it's".toList (by decide) (by decide)) ' ' rfl <| gap (.word "AND".toList (by decide)) '\t' rfl <|
    .single (.word "android".toList (by decide))
  exact ⟨_, h, (tokenize_spelled (by decide) h).trans rfl⟩

end Reckoner
