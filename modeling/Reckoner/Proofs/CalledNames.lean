import Reckoner.Proofs.Tiling

/-!
# Names that are called

The scanner of functions looks at what stands behind a name, past white space, and the scanners behind it read that
bracket (`Lexicon.opensCall_iff_head?`). So the token of a function is always followed by an opening bracket, whatever the
names are; and in a text of ASCII a name that is known as a function's is never left to the variables in front of one
(`Lexicon.tokenize_calls`).
-/

namespace Reckoner

/-! ### The opening bracket -/

/-- The scanners of signs, which stand above those of words, do not look at the names of functions. -/
theorem Scanner.length_congr {s : Scanner} (h : s ∈ combinator.above) (lexicon lexicon' : Lexicon) (cs : List Char) :
    s.length lexicon cs = s.length lexicon' cs := by
  cases s <;> first | rfl | exact absurd h (by decide)

namespace Lexicon
open Text Scanner
variable {lexicon : Lexicon} {s s' : Scanner} {text : String} {position : Nat} {piece piece' rest rest' cs : List Char}
  {front back ts : List Token} {t : Token}

theorem Takes.unique (h : lexicon.Takes s piece rest) (h' : lexicon.Takes s' piece' rest')
    (hcs : piece ++ rest = piece' ++ rest') : s = s' ∧ piece = piece' := by
  have hfirst := h.first?
  rw [hcs, h'.first?, Option.some.injEq, Prod.mk.injEq] at hfirst
  have hpos := List.length_pos_iff.mpr h.ne_nil
  have hpos' := List.length_pos_iff.mpr h'.ne_nil
  exact ⟨hfirst.1.symm, List.append_inj_left hcs (by omega)⟩

/-- An opening bracket is read as one whatever the names of functions are. -/
theorem takes_opening (lexicon : Lexicon) (rest : List Char) : lexicon.Takes .grouping ['('] rest := by
  refine ⟨List.cons_ne_nil _ _, by simp [Scanner.length, symbolLength, groupingSymbols]; rfl, fun s hs => ?_⟩
  have habove : ∀ s ∈ grouping.above, s ∈ combinator.above ∧ s.starts '(' = false := by decide
  obtain ⟨hsign, hstart⟩ := habove s hs
  refine Nat.eq_zero_of_not_pos fun hpos => ?_
  -- What a sign starts with is known where all names are of ASCII, as where there are none.
  have hascii : Lexicon.IsAscii (.make [] false) := isAscii_make fun _ hname => absurd hname List.not_mem_nil
  rw [length_congr hsign lexicon (.make [] false)] at hpos
  rw [starts_of_length hascii hpos] at hstart
  cases hstart

theorem Takes.token_eq_opening_iff (h : lexicon.Takes s piece rest) (ht : s.token lexicon piece = .ok (some t)) :
    t = Token.opening ↔ (piece ++ rest).head? = some '(' := by
  constructor
  · rintro rfl
    obtain rfl : s = .grouping := eq_of_category ht rfl (by decide)
    obtain ⟨e, he, rfl⟩ := symbol_of_length h.length h.ne_nil
    simp only [groupingSymbols, List.mem_cons, List.not_mem_nil, or_false] at he
    rcases he with rfl | rfl
    · rfl
    · have hname := congrArg Token.value (Option.some.inj (Except.ok.inj ht))
      exact absurd (Value.text.inj hname) (by decide)
  · intro hhead
    obtain ⟨behind, hcs⟩ := List.head?_eq_some_iff.mp hhead
    obtain ⟨rfl, rfl⟩ := h.unique (takes_opening lexicon behind) hcs
    exact (Option.some.inj (Except.ok.inj ht)).symm

theorem Takes.opensCall_iff (h : lexicon.Takes s piece rest) (hs : s ≠ .blank) :
    opensCall (piece ++ rest) = true ↔ (piece ++ rest).head? = some '(' := by
  -- The scanner of blanks is tried first, so that there are none to pass.
  have hfront : Scanner.blank ∈ s.above := by cases s <;> first | decide | exact absurd rfl hs
  have hblank : ((piece ++ rest).takeWhile Text.isBlank).length = 0 := h.above .blank hfront
  have hfirst : (piece ++ rest).dropWhile Text.isBlank = piece ++ rest := by
    have hsplit := List.takeWhile_append_dropWhile (p := Text.isBlank) (l := piece ++ rest)
    rwa [List.length_eq_zero_iff.mp hblank] at hsplit
  rw [opensCall, hfirst, beq_iff_eq]

/-! ### What is behind a token -/

/-- The next character but blanks is an opening bracket exactly if the next token is one. -/
theorem opensCall_iff_head? (h : lexicon.tokenizeFrom text position cs = .ok ts) :
    opensCall cs = true ↔ ts.head? = some .opening := by
  induction position, cs using tokenizeFrom_induction lexicon generalizing ts with
  | nil position =>
    rw [tokenizeFrom_nil] at h
    cases h
    simp [opensCall]
  | stuck position cs hne hfirst =>
    rw [tokenizeFrom_stuck hne hfirst] at h
    cases h
  | piece position s piece rest htakes ih =>
    rw [htakes.tokenizeFrom] at h
    obtain ⟨t?, htoken, h⟩ := Outcome.bind_eq_ok h
    obtain ⟨us, hus, rfl⟩ := Outcome.map_eq_ok h
    cases t? with
    | none =>
      -- A blank gives no token, and both look past it.
      obtain rfl : s = .blank := by
        rcases token_of_length htakes.ne_nil htakes.length with ⟨rfl, -, -⟩ | ⟨t', ht', hblank⟩
        · obtain ⟨v, -, hv⟩ := Outcome.map_eq_ok htoken
          cases hv
        · exact hblank.mp (Except.ok.inj (ht'.symm.trans htoken))
      rw [opensCall_blanks htakes.isBlank]
      exact ih hus
    | some u =>
      have hvisible : ¬ s = .blank := by
        rintro rfl
        cases htoken
      rw [htakes.opensCall_iff hvisible, ← htakes.token_eq_opening_iff htoken]
      exact (Option.some_inj (a := u) (b := .opening)).symm

/-! ### The tokens of names -/

theorem head?_of_function (h : lexicon.tokenizeFrom text position cs = .ok (front ++ t :: back))
    (ht : t.category = .function) : back.head? = some .opening := by
  obtain ⟨s, piece, rest, position', htakes, -, htoken, hback⟩ := tokenizeFrom_split h
  obtain rfl : s = .function := eq_of_category htoken ht (by decide)
  -- The scanner has seen the bracket, which may stand behind blanks.
  obtain ⟨name, -, hcall, hlength⟩ := functionLength_pos (htakes.length ▸ List.length_pos_iff.mpr htakes.ne_nil)
  have hname : name.length = piece.length := hlength.symm.trans htakes.length
  have hopens := hcall.2
  rw [hname, List.drop_left] at hopens
  exact (opensCall_iff_head? hback).mp hopens

/-- In ASCII an identifier is a name, and no word goes on behind it. -/
theorem Takes.isName (h : lexicon.Takes .identifier piece rest) (hascii : ∀ c ∈ piece ++ rest, c.toNat < 128) :
    isName piece = true ∧ (rest.head?.map isWord).getD false = false := by
  have hlength := h.length
  obtain ⟨c, letters, rfl⟩ := List.exists_cons_of_ne_nil h.ne_nil
  rw [List.cons_append, Scanner.length, identifierLength] at hlength
  split at hlength
  · rename_i hstart
    have hsplit := List.takeWhile_append_dropWhile (p := isWord) (l := letters ++ rest)
    obtain ⟨hletters, hrest⟩ := List.append_inj hsplit (Nat.succ.inj hlength)
    refine ⟨Bool.and_eq_true_iff.mpr ⟨hstart, List.all_eq_true.mpr fun d hd => ?_⟩, ?_⟩
    · have hword : isWord d = true := List.mem_takeWhile_imp (hletters ▸ hd)
      rwa [isWord, if_pos (hascii d (by simp [hd]))] at hword
    · rw [← hrest]
      have := List.head?_dropWhile_not isWord (letters ++ rest)
      cases hhead : ((letters ++ rest).dropWhile isWord).head? with
      | none => rfl
      | some d => simpa [hhead] using this
  · cases hlength

theorem Takes.not_mem_functionNames (h : lexicon.Takes .identifier piece rest) (hlower : lexicon.IsLower)
    (hascii : ∀ c ∈ piece ++ rest, c.toNat < 128) (hopens : opensCall rest = true) :
    lexicon.shown piece ∉ lexicon.functionNames := by
  intro hmem
  obtain ⟨hname, hend⟩ := h.isName hascii
  have hlen : (lexicon.shown piece).length = piece.length := length_shown hname
  obtain ⟨hstarts, hends⟩ := (spells_iff (hlower _ hmem) hname).mpr rfl
  have hspells : Spells lexicon (lexicon.shown piece) (piece ++ rest) := by
    refine ⟨?_, ?_⟩
    · rwa [startsWith_append rest (by rw [String.length_toList, hlen])]
    · rw [hlen, wordEndsAt, List.take_left, List.drop_left]
      rw [hlen, wordEndsAt, List.take_length, List.drop_length] at hends
      cases hlast : piece.getLast? with
      | none => simp [hlast] at hends
      | some c =>
        rw [hlast] at hends
        dsimp only at hends ⊢
        rw [endsWord, hend]
        exact hends
  -- The scanner of functions, which is tried first, would have taken the name.
  have hle := le_functionLength hmem ⟨hspells, by rwa [hlen, List.drop_left]⟩
  have hzero : functionLength lexicon (piece ++ rest) = 0 := h.above .function (by decide)
  have hpos := List.length_pos_iff.mpr h.ne_nil
  omega

/-- Behind the token of a function a bracket is opened; and in a text of ASCII none is opened behind a variable that has
    the name of a function. -/
theorem tokenize_calls {names : List String} {caseSensitive : Bool} {text : String} {ts : List Token}
    (h : (Lexicon.make names caseSensitive).tokenize text = .ok ts) :
    (∀ front t back, ts = front ++ t :: back → t.category = .function → back.head? = some .opening) ∧
    ((∀ c ∈ text.toList, c.toNat < 128) → (∀ name ∈ names, isName name.toList = true) →
      ∀ front t back, ts = front ++ t :: back → t.category = .identifier →
        (∃ name ∈ (Lexicon.make names caseSensitive).functionNames, t.value = .text name) →
        back.head? ≠ some .opening) := by
  refine ⟨?_, ?_⟩
  · rintro front t back rfl ht
    exact head?_of_function h ht
  · rintro hascii hnames front t back rfl ht ⟨name, hname, hvalue⟩ hhead
    obtain ⟨s, piece, rest, position', htakes, hsuffix, htoken, hback⟩ := tokenizeFrom_split h
    obtain rfl : s = .identifier := eq_of_category htoken ht (by decide)
    have hascii' : ∀ c ∈ piece ++ rest, c.toNat < 128 := fun c hc => hascii c (hsuffix.subset hc)
    have hshown : (Lexicon.make names caseSensitive).shown piece = name := by
      cases htoken
      exact Value.text.inj hvalue
    refine htakes.not_mem_functionNames (isLower_make hnames) hascii' ((opensCall_iff_head? hback).mpr hhead) ?_
    rw [hshown]
    exact hname

/-- The same name in front of a bracket and in it. -/
theorem tokenize_calls_max :
    let called := Token.mk .function (.text "max")
    let name := Token.mk .identifier (.text "max")
    (Lexicon.make ["max"] false).tokenize "Max ( max )" = .ok [called, .opening, name, .closing] ∧
      [.opening, name, .closing].head? = some Token.opening ∧ [.closing].head? ≠ some Token.opening := by
  have gap : ∀ c ∈ [' '], isBlank c = true := List.forall_mem_singleton.mpr rfl
  have hspelled : Lexeme.Spelled _ "Max ( max )".toList :=
    .cons (.word "Max".toList (by decide)) (List.cons_ne_nil _ _) gap <|
    .cons (.symbol .grouping ("(", "open") (by decide)) (List.cons_ne_nil _ _) gap <|
    .cons (.word "max".toList (by decide)) (List.cons_ne_nil _ _) gap <|
    .single (.symbol .grouping (")", "close") (by decide))
  have hnames : ∀ name ∈ ["max"], isName name.toList = true := by decide
  have h : (Lexicon.make ["max"] false).tokenize "Max ( max )" =
      .ok [⟨.function, .text "max"⟩, .opening, ⟨.identifier, .text "max"⟩, .closing] :=
    (tokenize_spelled hnames hspelled).trans rfl
  have hascii : "Max ( max )".toList.all (fun c => decide (c.toNat < 128)) = true := by decide
  obtain ⟨hcalled, hvariable⟩ := tokenize_calls h
  exact ⟨h, hcalled [] _ _ rfl rfl, hvariable (fun c hc => of_decide_eq_true (List.all_eq_true.mp hascii c hc)) hnames
    [_, _] _ _ rfl rfl ⟨"max", by decide +kernel, rfl⟩⟩

end Lexicon
end Reckoner
