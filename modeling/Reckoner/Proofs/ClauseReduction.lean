import Reckoner.Proofs.Clauses

/-!
# Reducing clauses

Of the standard rules only four apply to a stream of clauses: a range is split into two comparisons, a comparison gives
its truth value when no range is left, and two truth values are combined when no comparison is left (`Clause.Contracts`).
Each of these keeps what the stream is read as. So a stream of clauses reduces to the truth value that is read from it,
and it gets stuck if none is (`Engine.reduce_clauses`).
-/

namespace Reckoner

/-! ### Streams without operators -/

section Absent
variable {s : Stream}

/-- A pattern that asks for a token of a category is not found where there is none. -/
theorem Pattern.find?_of_category {p : Pattern} {m : Matcher} {c : Category} (hs : ∀ t ∈ s, t.category ≠ c) (hm : m ∈ p)
    (hleast : m.least = 1) (hcategories : m.categories = [c] ∧ m.inverted = false) : p.find? s = none := by
  refine find?_eq_none_of fun pre taken post hsplit hparse _ => ?_
  obtain ⟨t, ht, haccepts⟩ := exists_accepted hparse hm (by omega)
  have hmem : t ∈ s := hsplit ▸ List.mem_append_right _ (List.mem_append_left _ ht)
  exact hs t hmem (Matcher.category_of_accepts hcategories haccepts)

/-- Without brackets and operators the rules down to the negations do not apply. -/
theorem Rule.find?_of_no_operator (hopening : Token.opening ∉ s) (hs : ∀ t ∈ s, t.category ≠ .operator) :
    ∀ r ∈ Rule.brackets ++ Rule.flat.take 9, r.pattern.find? s = none := by
  intro r hr
  rcases List.mem_append.mp hr with hr | hr
  · exact Pattern.find?_brackets hopening r hr
  · have hoperator : ∀ r ∈ Rule.flat.take 9, ∃ m ∈ r.pattern, m.least = 1 ∧ m.categories = [.operator] ∧ m.inverted = false := by
      decide
    obtain ⟨m, hm, hleast, hcategories⟩ := hoperator r hr
    exact Pattern.find?_of_category hs hm hleast hcategories

end Absent

namespace Clause

theorem stream_append (ps qs : List Part) : stream (ps ++ qs) = stream ps ++ stream qs := List.map_append

/-! ### Patterns on parts -/

section Accepts
variable {p : Part}

def Part.category : Part → Category
  | .number _ => .numeric
  | .comparator _ => .comparator
  | .truth _ => .logical
  | .connective _ => .combinator

theorem Part.category_token (p : Part) : p.token.category = p.category := by
  cases p <;> rfl

theorem accepts_numeric : Matcher.numeric.accepts p.token = true ↔ ∃ a, p = .number a := by
  rw [Matcher.numeric, Matcher.accepts_category, p.category_token]
  cases p <;> simp [Part.category]

theorem accepts_logical : Matcher.logical.accepts p.token = true ↔ ∃ x, p = .truth x := by
  rw [Matcher.logical, Matcher.accepts_category, p.category_token]
  cases p <;> simp [Part.category]

theorem accepts_combinator : Matcher.combinator.accepts p.token = true ↔ ∃ k, p = .connective k := by
  rw [Matcher.combinator, Matcher.accepts_category, p.category_token]
  cases p <;> simp [Part.category]

theorem accepts_comparator : Matcher.comparator.accepts p.token = true ↔ ∃ c, p = .comparator c := by
  rw [Matcher.comparator, Matcher.accepts_category, p.category_token]
  cases p <;> simp [Part.category]

theorem accepts_ascending : Matcher.ascending.accepts p.token = true ↔ ∃ c, p = .comparator c ∧ c.isAscending = true := by
  rw [Matcher.ascending, Matcher.accepts_names (by simp)]
  cases p with
  | comparator c =>
    cases c <;> simp [Part.token, Comparator.token, Comparator.operation, Operation.name, Comparator.isAscending]
  | _ => simp [Part.token, Token.number, Token.truth, Connective.token]

theorem accepts_descending : Matcher.descending.accepts p.token = true ↔ ∃ c, p = .comparator c ∧ c.isDescending = true := by
  rw [Matcher.descending, Matcher.accepts_names (by simp)]
  cases p with
  | comparator c =>
    cases c <;> simp [Part.token, Comparator.token, Comparator.operation, Operation.name, Comparator.isDescending]
  | _ => simp [Part.token, Token.number, Token.truth, Connective.token]

end Accepts

section Parses
variable {ps : List Part} {m : Matcher} {ms : Pattern}

theorem parses_nil : Pattern.Parses [] (stream ps) ↔ ps = [] := by
  rw [Pattern.parses_nil, stream, List.map_eq_nil_iff]

theorem parses_cons (hl : m.least = 1) (hg : m.greatest = some 1) : Pattern.Parses (m :: ms) (stream ps) ↔
    ∃ p rest, ps = p :: rest ∧ m.accepts p.token = true ∧ Pattern.Parses ms (stream rest) := by
  rw [Pattern.parses_single hl hg]
  constructor
  · rintro ⟨t, ts, hts, ht, hms⟩
    obtain ⟨p, rest, rfl, rfl, rfl⟩ := List.map_eq_cons_iff.mp hts
    exact ⟨p, rest, rfl, ht, hms⟩
  · rintro ⟨p, rest, rfl, hp, hms⟩
    exact ⟨p.token, stream rest, rfl, hp, hms⟩

theorem parses_range {direction : Comparator → Bool} (hl : m.least = 1) (hg : m.greatest = some 1)
    (hm : ∀ p : Part, m.accepts p.token = true ↔ ∃ c, p = .comparator c ∧ direction c = true) :
    Pattern.Parses [.numeric, m, .numeric, m, .numeric] (stream ps) ↔ ∃ a c v d b,
      ps = [.number a, .comparator c, .number v, .comparator d, .number b] ∧ direction c = true ∧ direction d = true := by
  simp only [parses_cons (m := .numeric) rfl rfl, parses_cons hl hg, parses_nil, accepts_numeric, hm]
  constructor
  · rintro ⟨_, _, rfl, ⟨a, rfl⟩, _, _, rfl, ⟨c, rfl, hc⟩, _, _, rfl, ⟨v, rfl⟩, _, _, rfl, ⟨d, rfl, hd⟩, _, _, rfl, ⟨b, rfl⟩, rfl⟩
    exact ⟨a, c, v, d, b, rfl, hc, hd⟩
  · rintro ⟨a, c, v, d, b, rfl, hc, hd⟩
    exact ⟨_, _, rfl, ⟨a, rfl⟩, _, _, rfl, ⟨c, rfl, hc⟩, _, _, rfl, ⟨v, rfl⟩, _, _, rfl, ⟨d, rfl, hd⟩, _, _, rfl, ⟨b, rfl⟩, rfl⟩

theorem parses_comparison : Pattern.Parses .numberComparison (stream ps) ↔
    ∃ a c b, ps = [.number a, .comparator c, .number b] := by
  simp only [Pattern.numberComparison, parses_cons (m := .numeric) rfl rfl, parses_cons (m := .comparator) rfl rfl, parses_nil,
    accepts_numeric, accepts_comparator]
  constructor
  · rintro ⟨_, _, rfl, ⟨a, rfl⟩, _, _, rfl, ⟨c, rfl⟩, _, _, rfl, ⟨b, rfl⟩, rfl⟩
    exact ⟨a, c, b, rfl⟩
  · rintro ⟨a, c, b, rfl⟩
    exact ⟨_, _, rfl, ⟨a, rfl⟩, _, _, rfl, ⟨c, rfl⟩, _, _, rfl, ⟨b, rfl⟩, rfl⟩

theorem parses_combination : Pattern.Parses .combination (stream ps) ↔
    ∃ x k y, ps = [.truth x, .connective k, .truth y] := by
  simp only [Pattern.combination, parses_cons (m := .logical) rfl rfl, parses_cons (m := .combinator) rfl rfl, parses_nil,
    accepts_logical, accepts_combinator]
  constructor
  · rintro ⟨_, _, rfl, ⟨x, rfl⟩, _, _, rfl, ⟨k, rfl⟩, _, _, rfl, ⟨y, rfl⟩, rfl⟩
    exact ⟨x, k, y, rfl⟩
  · rintro ⟨x, k, y, rfl⟩
    exact ⟨_, _, rfl, ⟨x, rfl⟩, _, _, rfl, ⟨k, rfl⟩, _, _, rfl, ⟨y, rfl⟩, rfl⟩

end Parses

/-! ### Searching for a pattern -/

section Search
variable {p : Pattern} {ps : List Part} {i : Nat} {span : Stream}

/-- A search finds parts that parse, with the first parts that do. -/
theorem split_of_find? (h : p.find? (stream ps) = some (i, span)) : ∃ pre taken post, ps = pre ++ (taken ++ post) ∧
    i = pre.length ∧ span = stream taken ∧ p.FoundAt (stream pre) (stream taken) (stream post) := by
  obtain ⟨_, _, hs, rfl, hfound⟩ := Pattern.foundAt_of_find? h
  obtain ⟨pre, rest, rfl, rfl, hrest⟩ := List.map_eq_append_iff.mp hs
  obtain ⟨taken, post, rfl, rfl, rfl⟩ := List.map_eq_append_iff.mp hrest
  exact ⟨pre, taken, post, rfl, List.length_map .., rfl, hfound⟩

/-- What a search for a pattern of single tokens does not find is nowhere. -/
theorem not_parses_of_find? (hd : p.Determined) (hp : p ≠ []) (ha : p.isAnchored = false) (h : p.find? (stream ps) = none)
    {pre taken post : List Part} (hps : ps = pre ++ (taken ++ post)) : ¬ p.Parses (stream taken) := by
  intro hparse
  refine Pattern.find?_ne_none hp ha hd hparse (stream pre) (stream post) ?_
  rw [← h, hps, stream_append, stream_append]

theorem determined_range {m : Matcher} (hm : m.greatest = some m.least) :
    Pattern.Determined [.numeric, m, .numeric, m, .numeric] :=
  ⟨Or.inl rfl, Or.inl hm, Or.inl rfl, Or.inl hm, Or.inl rfl, trivial⟩

theorem determined_combination : Pattern.combination.Determined := ⟨Or.inl rfl, Or.inl rfl, Or.inl rfl, trivial⟩

theorem isRangeless_of_find? (hasc : Pattern.ascendingRange.find? (stream ps) = none)
    (hdesc : Pattern.descendingRange.find? (stream ps) = none) : IsRangeless ps := by
  intro pre a c v d b post hps
  refine Bool.eq_false_iff.mpr fun hgoes => ?_
  rcases Bool.or_eq_true_iff.mp hgoes with h | h <;> obtain ⟨hc, hd⟩ := Bool.and_eq_true_iff.mp h
  · exact not_parses_of_find? (determined_range rfl) (by simp) rfl hasc hps
      ((parses_range rfl rfl fun _ => accepts_ascending).mpr ⟨a, c, v, d, b, rfl, hc, hd⟩)
  · exact not_parses_of_find? (determined_range rfl) (by simp) rfl hdesc hps
      ((parses_range rfl rfl fun _ => accepts_descending).mpr ⟨a, c, v, d, b, rfl, hc, hd⟩)

theorem isCompareless_of_find? (h : Pattern.numberComparison.find? (stream ps) = none) : IsCompareless ps := by
  intro pre a c b post hps
  have hdetermined : Pattern.numberComparison.Determined := ⟨Or.inl rfl, Or.inl rfl, Or.inl rfl, trivial⟩
  exact not_parses_of_find? hdetermined (by simp [Pattern.numberComparison]) rfl h hps (parses_comparison.mpr ⟨a, c, b, rfl⟩)

end Search

/-! ### The topmost match -/

/-- How a stream of clauses is contracted. -/
inductive Contracts (pre post : List Part) : (span : List Part) → Step → (new : List Part) → Prop where
  | range (a v b : Figure) (c d : Comparator) : c.continues d = true →
      Contracts pre post [.number a, .comparator c, .number v, .comparator d, .number b] .expandRange
        [.number a, .comparator c, .number v, .connective .and, .number v, .comparator d, .number b]
  | comparison (a b : Figure) (c : Comparator) : IsRangeless (pre ++ ([Part.number a, .comparator c, .number b] ++ post)) →
      Contracts pre post [.number a, .comparator c, .number b] .apply [.truth (c.holds a b)]
  | combination (x y : Bool) (k : Connective) :
      IsCompareless (pre ++ ([Part.truth x, .connective k, .truth y] ++ post)) →
      (pre ≠ [] → ∀ a k' b rest, pre ++ ([Part.truth x, .connective k, .truth y] ++ post) ≠
        [Part.truth a, .connective k', .truth b] ++ rest) →
      Contracts pre post [.truth x, .connective k, .truth y] .apply [.truth (k.holds x y)]

theorem Contracts.value? {pre span post new : List Part} {step : Step} (h : Contracts pre post span step new) :
    Clause.value? (pre ++ (span ++ post)) = Clause.value? (pre ++ (new ++ post)) := by
  cases h with
  | range a v b c d hgoes => exact value?_range hgoes
  | comparison a b c hrangeless => exact value?_comparison hrangeless
  | combination x y k hcompareless hfirst => exact value?_combination hcompareless hfirst

/-- No contraction leaves a single part other than a truth value. -/
theorem Contracts.length {pre span post new : List Part} {step : Step} (h : Contracts pre post span step new) :
    2 ≤ (pre ++ (new ++ post)).length ∨ ∃ x, pre ++ (new ++ post) = [.truth x] := by
  have hsingle : ∀ x, 2 ≤ (pre ++ ([Part.truth x] ++ post)).length ∨ ∃ y, pre ++ ([.truth x] ++ post) = [.truth y] := by
    intro x
    by_cases hend : pre = [] ∧ post = []
    · exact Or.inr ⟨x, by rw [hend.1, hend.2]; rfl⟩
    · refine Or.inl ?_
      have hone : 0 < pre.length + post.length := by
        refine Nat.pos_of_ne_zero fun h => hend ?_
        exact ⟨List.length_eq_zero_iff.mp (by omega), List.length_eq_zero_iff.mp (by omega)⟩
      simp only [List.length_append, List.length_singleton]
      omega
  cases h with
  | range a v b c d _ =>
    refine Or.inl ?_
    simp only [List.length_append, List.length_cons, List.length_nil]
    omega
  | comparison a b c _ => exact hsingle _
  | combination x y k _ _ => exact hsingle _

section Match
variable {ps : List Part} {r : Rule} {i : Nat} {span : Stream}

/-- The rules on brackets and on operators do not apply. -/
theorem find?_above : ∀ r ∈ Rule.brackets ++ Rule.flat.take 9, r.pattern.find? (stream ps) = none := by
  refine Rule.find?_of_no_operator (fun hmem => ?_) fun t ht => ?_
  · obtain ⟨p, -, hp⟩ := List.mem_map.mp hmem
    have hcategory := (p.category_token).symm.trans (congrArg Token.category hp)
    cases p <;> cases hcategory
  · obtain ⟨p, -, rfl⟩ := List.mem_map.mp ht
    rw [p.category_token]
    cases p <;> simp [Part.category]

theorem find?_text : Pattern.textComparison.find? (stream ps) = none := by
  refine Pattern.find?_of_category (c := .string) (m := .string) (fun t ht => ?_) (by simp [Pattern.textComparison]) rfl
    ⟨rfl, rfl⟩
  obtain ⟨p, -, rfl⟩ := List.mem_map.mp ht
  rw [p.category_token]
  cases p <;> simp [Part.category]

theorem firstMatch?_stream : Rule.firstMatch? Rule.standard (stream ps) = Rule.firstMatch? (Rule.flat.drop 9) (stream ps) := by
  have hsplit : Rule.standard = (Rule.brackets ++ Rule.flat.take 9) ++ Rule.flat.drop 9 := rfl
  rw [hsplit, Rule.firstMatch?_append find?_above]

/-- The topmost match is one of the contractions of clauses. -/
theorem contracts_of_firstMatch? (h : Rule.firstMatch? Rule.standard (stream ps) = some (r, i, span)) :
    ∃ pre taken post step new, ps = pre ++ (taken ++ post) ∧ i = pre.length ∧ span = stream taken ∧
      r.action = .step step ∧ Contracts pre post taken step new := by
  rw [firstMatch?_stream] at h
  rcases Rule.firstMatch?_cons h with ⟨rfl, hfind⟩ | ⟨hasc, h⟩
  · obtain ⟨pre, taken, post, rfl, rfl, rfl, hfound⟩ := split_of_find? hfind
    obtain ⟨a, c, v, d, b, rfl, hc, hd⟩ := (parses_range rfl rfl fun _ => accepts_ascending).mp hfound.parses
    exact ⟨pre, _, post, _, _, rfl, rfl, rfl, rfl, .range a v b c d (by simp [Comparator.continues, hc, hd])⟩
  rcases Rule.firstMatch?_cons h with ⟨rfl, hfind⟩ | ⟨hdesc, h⟩
  · obtain ⟨pre, taken, post, rfl, rfl, rfl, hfound⟩ := split_of_find? hfind
    obtain ⟨a, c, v, d, b, rfl, hc, hd⟩ := (parses_range rfl rfl fun _ => accepts_descending).mp hfound.parses
    exact ⟨pre, _, post, _, _, rfl, rfl, rfl, rfl, .range a v b c d (by simp [Comparator.continues, hc, hd])⟩
  rcases Rule.firstMatch?_cons h with ⟨rfl, hfind⟩ | ⟨hcompare, h⟩
  · obtain ⟨pre, taken, post, rfl, rfl, rfl, hfound⟩ := split_of_find? hfind
    obtain ⟨a, c, b, rfl⟩ := parses_comparison.mp hfound.parses
    exact ⟨pre, _, post, _, _, rfl, rfl, rfl, rfl, .comparison a b c (isRangeless_of_find? hasc hdesc)⟩
  rcases Rule.firstMatch?_cons h with ⟨rfl, hfind⟩ | ⟨-, h⟩
  · rw [find?_text] at hfind
    cases hfind
  rcases Rule.firstMatch?_cons h with ⟨rfl, hfind⟩ | ⟨-, h⟩
  · obtain ⟨pre, taken, post, rfl, rfl, rfl, hfound⟩ := split_of_find? hfind
    obtain ⟨x, k, y, rfl⟩ := parses_combination.mp hfound.parses
    refine ⟨pre, _, post, _, _, rfl, rfl, rfl, rfl, .combination x y k (isCompareless_of_find? hcompare) ?_⟩
    -- A combination at the start would have been found first.
    intro hpre x' k' y' rest hsame
    have hnone := hfound.first [] (stream pre) rfl (by simpa [stream] using hpre)
    have hparse : Pattern.Parses .combination (stream [.truth x', .connective k', .truth y']) :=
      parses_combination.mpr ⟨x', k', y', rfl⟩
    have hstream : stream pre ++ (stream [.truth x, .connective k, .truth y] ++ stream post) =
        stream [.truth x', .connective k', .truth y'] ++ stream rest := by
      simp only [← stream_append, hsame]
    rw [hstream, Pattern.prefix?_of_parses determined_combination hparse] at hnone
    cases hnone
  · cases h

/-- A stream that has a truth value and is not a single one has a match. -/
theorem eq_truth_of_firstMatch? {x : Bool} (h : Rule.firstMatch? Rule.standard (stream ps) = none) (hx : value? ps = some x) :
    ps = [.truth x] := by
  have hnone := Rule.firstMatch?_eq_none.mp h
  have hcompare : Pattern.numberComparison.find? (stream ps) = none :=
    hnone ⟨.numberComparison, .step .apply⟩ (by simp [Rule.standard])
  rcases combination_of_value? (isCompareless_of_find? hcompare) hx with rfl | ⟨a, k, b, post, rfl⟩
  · rfl
  · have hcombine : Pattern.combination.find? (stream ([Part.truth a, .connective k, .truth b] ++ post)) = none :=
      hnone ⟨.combination, .step .apply⟩ (by simp [Rule.standard])
    exact absurd (parses_combination.mpr ⟨a, k, b, rfl⟩)
      (not_parses_of_find? determined_combination (by simp [Pattern.combination]) rfl hcombine (List.nil_append _).symm)

end Match

/-! ### Contractions -/

theorem isWritable_stream (ps : List Part) : (stream ps).isWritable = true := by
  refine List.all_eq_true.mpr fun t ht => ?_
  obtain ⟨p, -, rfl⟩ := List.mem_map.mp ht
  cases p with
  | number a => exact a.isWritable
  | comparator c => rfl
  | truth b => rfl
  | connective k => rfl

/-- Every contraction of clauses succeeds. -/
theorem Contracts.fire {pre span post new : List Part} {step : Step} (h : Contracts pre post span step new) (e : Engine)
    (nested : Stream → Traced Token) : e.fire nested (.step step) (stream span) = .ok (stream new) := by
  cases h with
  | range a v b c d _ =>
    have hspan := isWritable_stream [.number a, .comparator c, .number v, .comparator d, .number b]
    have hnew := isWritable_stream
      [.number a, .comparator c, .number v, .connective .and, .number v, .comparator d, .number b]
    exact if_pos (Bool.and_eq_true_iff.mpr ⟨hspan, hnew⟩)
  | comparison a b c _ =>
    have hcontracted : c.operation.contracted a.1 b.1 = .ok (.bool (c.holds a b)) :=
      Operation.contracted_of_apply (c.apply_eq a b) a.isWritable b.isWritable rfl
    refine (e.fire_operands nested c.operation .comparator (.number a.1) (.number b.1)).trans ?_
    rw [Token.number, Token.number, hcontracted, c.category_operation]
    rfl
  | combination x y k _ _ =>
    have hcontracted : k.operation.contracted (.bool x) (.bool y) = .ok (.bool (k.holds x y)) :=
      Operation.contracted_of_apply (k.apply_eq x y) rfl rfl rfl
    refine (e.fire_operands nested k.operation .combinator (.truth x) (.truth y)).trans ?_
    rw [Token.truth, Token.truth, hcontracted]
    cases k <;> rfl

end Clause

namespace Engine
open Clause
variable {e : Engine} {depth : Int}

/-- How the reduction of a stream of clauses ends: with its truth value, or with a stream that no rule matches. -/
def Concludes (ps : List Part) (o : Outcome Token) : Prop :=
  match value? ps with
  | some x => o = .ok (.truth x)
  | none => ∃ residue, o = .error (.noRuleMatched residue)

/-- A stream of clauses reduces to its truth value, and gets stuck if it has none. -/
theorem reduce_clauses (he : e.IsPlain) (hd : depth ≤ e.limit) {ps : List Part} (hlen : 2 ≤ ps.length) :
    Concludes ps (e.reduce depth (stream ps)).outcome := by
  suffices h : ∀ s, ∀ ps, s = stream ps → (2 ≤ ps.length ∨ ∃ x, ps = [.truth x]) →
      Concludes ps (e.reduce depth s).outcome from h _ ps rfl (Or.inl hlen)
  refine reduce_induction (motive := fun s o => ∀ ps, s = stream ps → (2 ≤ ps.length ∨ ∃ x, ps = [.truth x]) →
    Concludes ps o) he.isStandard he.rounds hd ?nil ?single ?stuck ?step
  case nil =>
    intro ps hs hps
    obtain rfl := List.map_eq_nil_iff.mp hs.symm
    rcases hps with hlen | ⟨x, hx⟩
    · cases hlen
    · cases hx
  case single =>
    intro t ps hs hps
    obtain ⟨p, rfl, rfl⟩ := List.map_eq_singleton_iff.mp hs.symm
    rcases hps with hlen | ⟨x, hx⟩
    · simp at hlen
    · obtain rfl := List.singleton_inj.mp hx
      rfl
  case stuck =>
    rintro _ hlen hmatch ps rfl -
    rw [he.all] at hmatch
    rw [Concludes, stuck, if_pos (isWritable_stream ps)]
    cases hx : value? ps with
    | none => exact ⟨_, rfl⟩
    | some x =>
      rw [eq_truth_of_firstMatch? hmatch hx] at hlen
      simp [stream] at hlen
  case step =>
    intro pre span post r hmatch _ ih ps hs _
    rw [he.all, hs] at hmatch
    obtain ⟨pre', taken, post', step, new, rfl, hlength, rfl, haction, hcontracts⟩ := contracts_of_firstMatch? hmatch
    rw [stream_append, stream_append] at hs
    obtain ⟨rfl, hrest⟩ := List.append_inj hs (by rw [hlength, stream, List.length_map])
    obtain rfl := List.append_cancel_left hrest
    have hfire := hcontracts.fire e (e.reduce (depth + 1))
    rw [← haction] at hfire
    have hconcludes := ih _ hfire (pre' ++ (new ++ post')) (by rw [stream_append, stream_append]) hcontracts.length
    rw [hfire, Concludes, hcontracts.value?]
    exact hconcludes

end Engine
end Reckoner
