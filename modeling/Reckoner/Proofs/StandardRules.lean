import Reckoner.Proofs.Matching

/-!
# The standard rules

What the standard rules match, said without their patterns. The first seven rules take brackets, with the name
of a function in front of them or without one (`Site`); the others take two to five tokens in a row that hold
no delimiter. `Redex` lists all spans that a standard rule takes.
-/

namespace Reckoner

/-! ### What the matchers accept -/

theorem Value.same_text (v : Value) (s : String) : v.same (.text s) = true ↔ v = .text s := by
  cases v <;> simp [Value.same, Value.number?]

theorem Value.text_same (s : String) (v : Value) : (Value.text s).same v = true ↔ v = .text s := by
  cases v with
  | text t => simpa [same] using eq_comm
  | _ => simp [same, number?]

/-- Of two values that are the same both are a text or neither is. -/
theorem Value.same_text_congr {v w : Value} (h : v.same w = true) (s : String) :
    v.same (.text s) = w.same (.text s) := by
  rw [Bool.eq_iff_iff, same_text, same_text]
  constructor
  · rintro rfl
    exact (text_same s w).mp h
  · rintro rfl
    exact (same_text v s).mp h

theorem Value.isIn_texts (v : Value) (names : List String) :
    v.isIn (names.map .text) = true ↔ ∃ n ∈ names, v = .text n := by
  simp [Value.isIn, Value.same_text]

namespace Matcher
variable {t : Token} {c : Category} {names : List String}

theorem accepts_of : (of c names).accepts t = true ↔
    t.category = c ∧ (names = [] ∨ ∃ n ∈ names, t = ⟨c, .text n⟩) := by
  obtain ⟨category, value⟩ := t
  simp only [accepts, hits, of, List.isEmpty_cons, Bool.false_or, bne_iff_ne, ne_eq, Bool.not_eq_false,
    Bool.and_eq_true, List.contains_cons, List.contains_nil, Bool.or_false, beq_iff_eq, Bool.or_eq_true,
    List.isEmpty_iff, List.map_eq_nil_iff, Value.isIn_texts, Token.mk.injEq]
  constructor
  · rintro ⟨rfl, h | ⟨n, hn, rfl⟩⟩
    · exact ⟨rfl, Or.inl h⟩
    · exact ⟨rfl, Or.inr ⟨n, hn, rfl, rfl⟩⟩
  · rintro ⟨rfl, h | ⟨n, hn, -, rfl⟩⟩
    · exact ⟨rfl, Or.inl h⟩
    · exact ⟨rfl, Or.inr ⟨n, hn, rfl⟩⟩

theorem accepts_category : (of c []).accepts t = true ↔ t.category = c := by
  rw [accepts_of]
  simp

theorem category_of_accepts {m : Matcher} (hm : m.categories = [c] ∧ m.inverted = false) (h : m.accepts t = true) :
    t.category = c := by
  simp only [accepts, hits, hm.1, hm.2] at h
  simp_all

theorem accepts_names (h : names ≠ []) : (of c names).accepts t = true ↔ ∃ n ∈ names, t = ⟨c, .text n⟩ := by
  rw [accepts_of]
  constructor
  · rintro ⟨-, hnil | hn⟩
    · exact absurd hnil h
    · exact hn
  · rintro ⟨n, hn, rfl⟩
    exact ⟨rfl, Or.inr ⟨n, hn, rfl⟩⟩

theorem accepts_nonGroup : nonGroup.accepts t = true ↔ t.isDelimiter = false := by
  obtain ⟨category, value⟩ := t
  cases category <;> simp [nonGroup, invert, accepts, hits, Token.isDelimiter]

theorem accepts_opening : opening.accepts t = true ↔ t = Token.opening := by
  rw [opening, accepts_names (by simp)]
  simp [Token.opening]

theorem accepts_closing : closing.accepts t = true ↔ t = Token.closing := by
  rw [closing, accepts_names (by simp)]
  simp [Token.closing]

theorem accepts_function {name : String} : (function name).accepts t = true ↔ t = ⟨.function, .text name⟩ := by
  rw [function, accepts_names (by simp)]
  simp

end Matcher

/-! ### Brackets -/

namespace Stream

/-- No token is a bracket or a comma. -/
def IsFlat (ts : Stream) : Prop := ∀ t ∈ ts, t.isDelimiter = false

def IsUnbracketed (ts : Stream) : Prop := ∀ t ∈ ts, t.category ≠ .grouping

def wrap (ts : Stream) : Stream := Token.opening :: (ts ++ [Token.closing])

end Stream

def Token.named (name : String) : Token := ⟨.function, .text name⟩

/-- What a standard rule on brackets takes: `head` stands in front of the brackets, `body` inside. -/
inductive Site : Step → (head body : Stream) → Prop where
  | choose {a b c u v : Token} : a.isDelimiter = false → u.category = .comma → b.isDelimiter = false →
      v.category = .comma → c.isDelimiter = false →
      Site .choose [.named "if"] [a, u, b, v, c]
  | round {xs : Stream} : xs.IsFlat → Site .round [.named "round"] xs
  | roundTo {xs ys : Stream} {u : Token} : xs.IsFlat → u.category = .comma → ys.IsFlat →
      Site .round [.named "round"] (xs ++ u :: ys)
  | roundUp {xs : Stream} : xs.IsFlat → Site .roundInt [.named "roundup"] xs
  | roundDown {xs : Stream} : xs.IsFlat → Site .roundInt [.named "rounddown"] xs
  | not {xs : Stream} : xs.IsFlat → Site .not [.named "not"] xs
  | group {xs : Stream} : xs.IsFlat → Site .evaluateGroup [] xs

namespace Rule

/-- The standard rules on brackets behind the name of a function. -/
def calls : List Rule := standard.take 6

def brackets : List Rule := standard.take 7

def flat : List Rule := standard.drop 7

theorem brackets_append_flat : brackets ++ flat = standard := List.take_append_drop 7 standard

theorem calls_append_group : calls ++ [⟨.group, .step .evaluateGroup⟩] = brackets := rfl

theorem pattern_ne_group : ∀ r ∈ calls, r.pattern ≠ .group := by
  have hlength : ∀ r ∈ calls, r.pattern.length ≠ 3 := by decide
  exact fun r hr h => hlength r hr (h ▸ rfl)

end Rule

namespace Pattern
open Matcher

variable {ts : Stream}

theorem parses_nonGroup {ms : Pattern} : Parses (nonGroup :: ms) ts ↔
    ∃ t rest, ts = t :: rest ∧ t.isDelimiter = false ∧ Parses ms rest := by
  rw [parses_single rfl rfl]
  simp only [accepts_nonGroup]

theorem parses_comma {ms : Pattern} : Parses (comma :: ms) ts ↔
    ∃ t rest, ts = t :: rest ∧ t.category = .comma ∧ Parses ms rest := by
  rw [parses_single rfl rfl]
  simp only [comma, accepts_category]

theorem parses_flat {ms : Pattern} : Parses (nonGroup.star :: ms) ts ↔
    ∃ xs rest : Stream, ts = xs ++ rest ∧ xs.IsFlat ∧ Parses ms rest := by
  have hacc : ∀ t, nonGroup.star.accepts t = nonGroup.accepts t := fun _ => rfl
  rw [parses_star rfl rfl]
  simp only [hacc, accepts_nonGroup, Stream.IsFlat]

theorem parses_append {q : Pattern} : ∀ {p : Pattern} {ts : Stream}, Parses (p ++ q) ts ↔
    ∃ xs ys, ts = xs ++ ys ∧ Parses p xs ∧ Parses q ys
  | [], ts => by
    constructor
    · exact fun h => ⟨[], ts, rfl, .nil, h⟩
    · rintro ⟨xs, ys, rfl, hp, hq⟩
      rw [parses_nil.mp hp]
      exact hq
  | m :: p, ts => by
    constructor
    · intro h
      cases h with
      | @cons _ _ block rest hacc hadm htail =>
        obtain ⟨xs, ys, rfl, hp, hq⟩ := parses_append.mp htail
        exact ⟨block ++ xs, ys, (List.append_assoc ..).symm, .cons hacc hadm hp, hq⟩
    · rintro ⟨xs, ys, rfl, hp, hq⟩
      cases hp with
      | @cons _ _ block rest hacc hadm htail =>
        rw [List.append_assoc]
        exact .cons hacc hadm (parses_append.mpr ⟨rest, ys, rfl, htail, hq⟩)

theorem parses_closing : Parses [closing] ts ↔ ts = [Token.closing] := by
  simp only [parses_single (m := closing) rfl rfl, accepts_closing, parses_nil]
  constructor
  · rintro ⟨_, _, rfl, rfl, rfl⟩
    rfl
  · rintro rfl
    exact ⟨_, _, rfl, rfl, rfl⟩

theorem parses_wrap {p : Pattern} : Parses (opening :: (p ++ [closing])) ts ↔
    ∃ body : Stream, ts = body.wrap ∧ Parses p body := by
  simp only [parses_single (m := opening) rfl rfl, accepts_opening, parses_append, parses_closing]
  constructor
  · rintro ⟨_, _, rfl, rfl, body, _, rfl, hp, rfl⟩
    exact ⟨body, rfl, hp⟩
  · rintro ⟨body, rfl, hp⟩
    exact ⟨_, _, rfl, rfl, body, _, rfl, hp, rfl⟩

theorem parses_call {name : String} {p : Pattern} : Parses (call name p) ts ↔
    ∃ body : Stream, ts = [.named name] ++ body.wrap ∧ Parses p body := by
  simp only [call, parses_single (m := function name) rfl rfl, accepts_function, parses_wrap]
  constructor
  · rintro ⟨_, _, rfl, rfl, body, rfl, hp⟩
    exact ⟨body, rfl, hp⟩
  · rintro ⟨body, rfl, hp⟩
    exact ⟨_, _, rfl, rfl, body, rfl, hp⟩

theorem parses_flat_nil : Parses [nonGroup.star] ts ↔ ts.IsFlat := by
  simp [parses_flat, parses_nil]

end Pattern

open Pattern in
/-- A match of a standard rule on brackets is a site of its step. -/
theorem Site.of_parses {r : Rule} {ts : Stream} (hr : r ∈ Rule.brackets) (h : Parses r.pattern ts) :
    ∃ step head body, r.action = .step step ∧ ts = head ++ body.wrap ∧ Site step head body ∧
      (head = [] → r ∉ Rule.calls) := by
  simp only [Rule.brackets, Rule.standard, List.take_succ_cons, List.take_zero, List.mem_cons, List.not_mem_nil,
    or_false] at hr
  rcases hr with rfl | rfl | rfl | rfl | rfl | rfl | rfl
  · obtain ⟨body, rfl, hb⟩ := parses_call.mp h
    simp only [parses_nonGroup, parses_comma, parses_nil] at hb
    obtain ⟨a, _, rfl, ha, u, _, rfl, hu, b, _, rfl, hb, v, _, rfl, hv, c, _, rfl, hc, rfl⟩ := hb
    exact ⟨_, _, _, rfl, rfl, .choose ha hu hb hv hc, by simp⟩
  · obtain ⟨body, rfl, hb⟩ := parses_call.mp h
    exact ⟨_, _, _, rfl, rfl, .round (parses_flat_nil.mp hb), by simp⟩
  · obtain ⟨body, rfl, hb⟩ := parses_call.mp h
    simp only [parses_flat, parses_comma, parses_nil] at hb
    obtain ⟨xs, _, rfl, hxs, u, _, rfl, hu, ys, _, rfl, hys, rfl⟩ := hb
    rw [List.append_nil]
    exact ⟨_, _, _, rfl, rfl, .roundTo hxs hu hys, by simp⟩
  · obtain ⟨body, rfl, hb⟩ := parses_call.mp h
    exact ⟨_, _, _, rfl, rfl, .roundUp (parses_flat_nil.mp hb), by simp⟩
  · obtain ⟨body, rfl, hb⟩ := parses_call.mp h
    exact ⟨_, _, _, rfl, rfl, .roundDown (parses_flat_nil.mp hb), by simp⟩
  · obtain ⟨body, rfl, hb⟩ := parses_call.mp h
    exact ⟨_, _, _, rfl, rfl, .not (parses_flat_nil.mp hb), by simp⟩
  · obtain ⟨body, rfl, hb⟩ := (parses_wrap (p := [Matcher.nonGroup.star])).mp h
    refine ⟨_, [], _, rfl, rfl, .group (parses_flat_nil.mp hb), fun _ hcall => ?_⟩
    exact absurd rfl (Rule.pattern_ne_group _ hcall)

open Pattern in
/-- A site is a match of a standard rule on brackets, of one on calls if a name stands in front. -/
theorem Site.parses {step : Step} {head body : Stream} (h : Site step head body) :
    ∃ r ∈ Rule.brackets, r.action = .step step ∧ Parses r.pattern (head ++ body.wrap) ∧
      (head ≠ [] → r ∈ Rule.calls) := by
  have among : ∀ {r : Rule}, r ∈ Rule.calls → r ∈ Rule.brackets := fun hr =>
    Rule.calls_append_group ▸ List.mem_append_left _ hr
  have call : ∀ (k : Nat) {r : Rule}, Rule.calls[k]? = some r → r.action = .step step →
      (Parses r.pattern (head ++ body.wrap)) → ∃ r ∈ Rule.brackets, r.action = .step step ∧
        Parses r.pattern (head ++ body.wrap) ∧ (head ≠ [] → r ∈ Rule.calls) := fun k r hk haction hp =>
    ⟨r, among (List.mem_of_getElem? hk), haction, hp, fun _ => List.mem_of_getElem? hk⟩
  cases h with
  | choose ha hu hb hv hc =>
    refine call 0 rfl rfl (parses_call.mpr ⟨_, rfl, ?_⟩)
    simp only [parses_nonGroup, parses_comma, parses_nil]
    exact ⟨_, _, rfl, ha, _, _, rfl, hu, _, _, rfl, hb, _, _, rfl, hv, _, _, rfl, hc, rfl⟩
  | round hxs => exact call 1 rfl rfl (parses_call.mpr ⟨_, rfl, parses_flat_nil.mpr hxs⟩)
  | roundTo hxs hu hys =>
    refine call 2 rfl rfl (parses_call.mpr ⟨_, rfl, ?_⟩)
    simp only [parses_flat, parses_comma, parses_nil]
    exact ⟨_, _, rfl, hxs, _, _, rfl, hu, _, _, (List.append_nil _).symm, hys, rfl⟩
  | roundUp hxs => exact call 3 rfl rfl (parses_call.mpr ⟨_, rfl, parses_flat_nil.mpr hxs⟩)
  | roundDown hxs => exact call 4 rfl rfl (parses_call.mpr ⟨_, rfl, parses_flat_nil.mpr hxs⟩)
  | not hxs => exact call 5 rfl rfl (parses_call.mpr ⟨_, rfl, parses_flat_nil.mpr hxs⟩)
  | group hxs =>
    refine ⟨⟨.group, .step .evaluateGroup⟩, Rule.calls_append_group ▸ List.mem_append_right _ (List.mem_singleton_self _),
      rfl, ?_, fun h => absurd rfl h⟩
    exact (parses_wrap (p := [Matcher.nonGroup.star])).mpr ⟨_, rfl, parses_flat_nil.mpr hxs⟩

/-! ### The other rules -/

/-- What the other standard rules take, by the categories of the tokens. -/
inductive Redex : Step → Stream → Prop where
  | operation {l o r : Token} : l.category = .numeric → o.category = .operator ∨ o.category = .comparator →
      r.category = .numeric → Redex .apply [l, o, r]
  | texts {l o r : Token} : l.category = .string → o.category = .comparator → r.category = .string →
      Redex .apply [l, o, r]
  | combination {l o r : Token} : l.category = .logical → o.category = .combinator → r.category = .logical →
      Redex .apply [l, o, r]
  | negation {m t : Token} : m.category = .operator → t.category = .numeric → Redex .negate [m, t]
  | power {b o m t : Token} : b.category = .numeric → o.category = .operator → m.category = .operator →
      t.category = .numeric → Redex .powNegate [b, o, m, t]
  | product {l o m r : Token} : l.category = .numeric → o.category = .operator → m.category = .operator →
      r.category = .numeric → Redex .mulNegate [l, o, m, r]
  | percentage {t o : Token} : t.category = .numeric → o.category = .operator → Redex .percentage [t, o]
  | range {l o m u r : Token} : l.category = .numeric → o.category = .comparator → m.category = .numeric →
      u.category = .comparator → r.category = .numeric → Redex .expandRange [l, o, m, u, r]

namespace Pattern
open Matcher
variable {ts : Stream}

/-- A matcher of one token of a category in front of a pattern. -/
theorem of_parses {c : Category} {names : List String} {ms : Pattern} (h : Parses (of c names :: ms) ts) :
    ∃ t rest, ts = t :: rest ∧ t.category = c ∧ Parses ms rest := by
  obtain ⟨t, rest, rfl, ht, htail⟩ := (parses_single rfl rfl).mp h
  exact ⟨t, rest, rfl, (accepts_of.mp ht).1, htail⟩

theorem of_parses_two {c d : Category} {xs ys : List String} (h : Parses [of c xs, of d ys] ts) :
    ∃ t u, ts = [t, u] ∧ t.category = c ∧ u.category = d := by
  obtain ⟨t, _, rfl, ht, h⟩ := of_parses h
  obtain ⟨u, _, rfl, hu, h⟩ := of_parses h
  rw [parses_nil.mp h]
  exact ⟨t, u, rfl, ht, hu⟩

theorem of_parses_three {c d e : Category} {xs ys zs : List String} (h : Parses [of c xs, of d ys, of e zs] ts) :
    ∃ t u v, ts = [t, u, v] ∧ t.category = c ∧ u.category = d ∧ v.category = e := by
  obtain ⟨t, _, rfl, ht, h⟩ := of_parses h
  obtain ⟨u, v, rfl, hu, hv⟩ := of_parses_two h
  exact ⟨t, u, v, rfl, ht, hu, hv⟩

end Pattern

open Pattern Matcher in
/-- A match of a standard rule that takes no brackets is a redex of its step. -/
theorem Redex.of_parses {r : Rule} {ts : Stream} (hr : r ∈ Rule.flat) (h : Parses r.pattern ts) :
    ∃ step, r.action = .step step ∧ Redex step ts := by
  simp only [Rule.flat, Rule.standard, List.drop_succ_cons, List.drop_zero, List.mem_cons, List.not_mem_nil,
    or_false] at hr
  rcases hr with rfl | rfl | rfl | rfl | rfl | rfl | rfl | rfl | rfl | rfl | rfl | rfl | rfl | rfl
  · obtain ⟨m, _, rfl, hm, h⟩ := (parses_single (m := leadingMinus) rfl rfl).mp h
    obtain ⟨t, _, rfl, ht, h⟩ := Pattern.of_parses h
    rw [parses_nil.mp h]
    exact ⟨_, rfl, .negation (accepts_of.mp hm).1 ht⟩
  · obtain ⟨l, o, r, rfl, hl, ho, hr⟩ := of_parses_three h
    exact ⟨_, rfl, .operation hl (Or.inl ho) hr⟩
  · obtain ⟨b, _, rfl, hb, h⟩ := Pattern.of_parses h
    obtain ⟨o, m, t, rfl, ho, hm, ht⟩ := of_parses_three h
    exact ⟨_, rfl, .power hb ho hm ht⟩
  · obtain ⟨l, o, r, rfl, hl, ho, hr⟩ := of_parses_three h
    exact ⟨_, rfl, .operation hl (Or.inl ho) hr⟩
  · obtain ⟨l, o, r, rfl, hl, ho, hr⟩ := of_parses_three h
    exact ⟨_, rfl, .operation hl (Or.inl ho) hr⟩
  · obtain ⟨l, _, rfl, hl, h⟩ := Pattern.of_parses h
    obtain ⟨o, m, r, rfl, ho, hm, hr⟩ := of_parses_three h
    exact ⟨_, rfl, .product hl ho hm hr⟩
  · obtain ⟨l, o, r, rfl, hl, ho, hr⟩ := of_parses_three h
    exact ⟨_, rfl, .operation hl (Or.inl ho) hr⟩
  · obtain ⟨t, o, rfl, ht, ho⟩ := of_parses_two h
    exact ⟨_, rfl, .percentage ht ho⟩
  · obtain ⟨m, t, rfl, hm, ht⟩ := of_parses_two h
    exact ⟨_, rfl, .negation hm ht⟩
  · obtain ⟨l, _, rfl, hl, h⟩ := Pattern.of_parses h
    obtain ⟨o, _, rfl, ho, h⟩ := Pattern.of_parses h
    obtain ⟨m, u, r, rfl, hm, hu, hr⟩ := of_parses_three h
    exact ⟨_, rfl, .range hl ho hm hu hr⟩
  · obtain ⟨l, _, rfl, hl, h⟩ := Pattern.of_parses h
    obtain ⟨o, _, rfl, ho, h⟩ := Pattern.of_parses h
    obtain ⟨m, u, r, rfl, hm, hu, hr⟩ := of_parses_three h
    exact ⟨_, rfl, .range hl ho hm hu hr⟩
  · obtain ⟨l, o, r, rfl, hl, ho, hr⟩ := of_parses_three h
    exact ⟨_, rfl, .operation hl (Or.inr ho) hr⟩
  · obtain ⟨l, o, r, rfl, hl, ho, hr⟩ := of_parses_three h
    exact ⟨_, rfl, .texts hl ho hr⟩
  · obtain ⟨l, o, r, rfl, hl, ho, hr⟩ := of_parses_three h
    exact ⟨_, rfl, .combination hl ho hr⟩

end Reckoner
