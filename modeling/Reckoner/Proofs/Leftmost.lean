import Reckoner.Proofs.Matching

/-!
# Leftmost matches

Where a rule is applied, said by positions in the stream. A matcher takes the longest run that it accepts
(`Matcher.Takes`), the matchers of a pattern succeed one after the other (`Pattern.MatchesAt`), and the rule that leads
is the first one of the table that occurs anywhere, at the least position where it does (`Rule.Leads`). The
searches find exactly this: `Rule.firstMatch?_eq_some_iff` and `Rule.firstMatch?_eq_none_iff`.
-/

namespace Reckoner

/-! ### What a matcher takes -/

namespace Matcher
variable {m : Matcher} {ts : Stream} {n : Nat}

/-- The matcher takes so many tokens from the front of a stream. It accepts all of them, it admits their number, and
    it cannot go on: the greatest number is reached, or the next token is refused or missing. -/
structure Takes (m : Matcher) (ts : Stream) (n : Nat) : Prop where
  inside : n ≤ ts.length
  accepted : ∀ t ∈ ts.take n, m.accepts t = true
  admitted : m.admits n = true
  full : m.greatest = some n ∨ ∀ t ∈ ts[n]?, m.accepts t = false

theorem takeUpTo_length (m : Matcher) : ∀ ts : Stream, m.takeUpTo ts.length ts = ts.takeWhile m.accepts
  | [] => by simp [takeUpTo]
  | t :: ts => by
    by_cases ha : m.accepts t = true <;> simp [takeUpTo, ha, takeUpTo_length m ts]

theorem takeUpTo_full (m : Matcher) : ∀ (limit : Nat) (ts : Stream), (m.takeUpTo limit ts).length = limit ∨
    ∀ t ∈ ts[(m.takeUpTo limit ts).length]?, m.accepts t = false
  | 0, ts => by simp [takeUpTo]
  | limit + 1, [] => by simp [takeUpTo]
  | limit + 1, t :: ts => by
    by_cases ha : m.accepts t = true
    · simpa [takeUpTo, ha] using takeUpTo_full m limit ts
    · simp [takeUpTo, ha]

theorem takeUpTo_eq_take (m : Matcher) : ∀ (limit n : Nat) (ts : Stream), n ≤ limit → n ≤ ts.length →
    (∀ t ∈ ts.take n, m.accepts t = true) → (n = limit ∨ ∀ t ∈ ts[n]?, m.accepts t = false) →
    m.takeUpTo limit ts = ts.take n
  | 0, n, ts, hle, _, _, _ => by
    obtain rfl : n = 0 := by omega
    simp [takeUpTo]
  | limit + 1, 0, [], _, _, _, _ => by simp [takeUpTo]
  | limit + 1, 0, t :: ts, _, _, _, hfull => by
    rcases hfull with hfull | hfull
    · cases hfull
    · have ht : m.accepts t = false := hfull t (by simp)
      simp [takeUpTo, ht]
  | limit + 1, n + 1, [], _, hin, _, _ => by simp at hin
  | limit + 1, n + 1, t :: ts, hle, hin, hacc, hfull => by
    have ht : m.accepts t = true := hacc t (by simp)
    have hrest := takeUpTo_eq_take m limit n ts (by omega) (by simpa using hin)
      (fun u hu => hacc u (by simp [hu])) (by simpa using hfull)
    simp [takeUpTo, ht, hrest]

theorem run_eq_take (m : Matcher) (ts : Stream) : m.run ts = ts.take (m.run ts).length :=
  List.prefix_iff_eq_take.mp (m.run_isPrefix ts)

theorem length_run_le (m : Matcher) (ts : Stream) : (m.run ts).length ≤ ts.length :=
  (m.run_isPrefix ts).length_le

/-- A matcher takes its longest run or nothing at all. -/
theorem takes_iff : m.Takes ts n ↔ n = (m.run ts).length ∧ m.admits n = true := by
  constructor
  · rintro ⟨hin, hacc, hadm, hfull⟩
    refine ⟨?_, hadm⟩
    have hrun : m.run ts = ts.take n := by
      unfold run
      split
      · rename_i g hg
        have hle : n ≤ g := by
          simp only [admits, hg, Bool.and_eq_true, decide_eq_true_eq] at hadm
          exact hadm.2
        refine takeUpTo_eq_take m g n ts hle hin hacc (hfull.imp_left fun h => ?_)
        exact (Option.some.inj (hg.symm.trans h)).symm
      · rename_i hg
        rw [← takeUpTo_length]
        refine takeUpTo_eq_take m ts.length n ts hin hin hacc (Or.inr ?_)
        exact hfull.resolve_left (by simp [hg])
    rw [hrun, List.length_take, Nat.min_eq_left hin]
  · rintro ⟨rfl, hadm⟩
    refine ⟨m.length_run_le ts, fun t ht => ?_, hadm, ?_⟩
    · rw [← run_eq_take] at ht
      exact accepts_of_mem_run ht
    · unfold run
      split
      · rename_i g hg
        exact (takeUpTo_full m g ts).imp_left fun h => by rw [hg, h]
      · rw [← takeUpTo_length]
        rcases takeUpTo_full m ts.length ts with h | h
        · exact Or.inr (by simp [h])
        · exact Or.inr h

end Matcher

/-! ### Where a pattern occurs -/

namespace Pattern
variable {p : Pattern} {ts taken : Stream} {i k : Nat}

/-- The matchers of a pattern succeed one after the other from a position on, and take so many tokens together. -/
inductive MatchesAt (ts : Stream) : Pattern → (position length : Nat) → Prop where
  | nil (i : Nat) : MatchesAt ts [] i 0
  | cons {m : Matcher} {ms : Pattern} {i n k : Nat} : m.Takes (ts.drop i) n → MatchesAt ts ms (i + n) k →
      MatchesAt ts (m :: ms) i (n + k)

theorem MatchesAt.le (h : MatchesAt ts p i k) (hi : i ≤ ts.length) : i + k ≤ ts.length := by
  induction h with
  | nil i => exact hi
  | @cons m ms i n k htakes _ ih =>
    have hin := htakes.inside
    rw [List.length_drop] at hin
    have := ih (by omega)
    omega

/-- The matchers succeed in at most one way. -/
theorem prefix?_eq_some_iff : p.prefix? (ts.drop i) = some taken ↔
    ∃ k, MatchesAt ts p i k ∧ taken = (ts.drop i).take k := by
  induction p generalizing i taken with
  | nil =>
    simp only [prefix?, Option.some.injEq]
    constructor
    · rintro rfl
      exact ⟨0, .nil i, by simp⟩
    · rintro ⟨k, h, rfl⟩
      cases h
      simp
  | cons m ms ih =>
    -- What the first matcher takes is its run, and the others go on behind it.
    have hdrop : (ts.drop i).drop (m.run (ts.drop i)).length = ts.drop (i + (m.run (ts.drop i)).length) :=
      List.drop_drop
    have htake : ∀ k, m.run (ts.drop i) ++ (ts.drop (i + (m.run (ts.drop i)).length)).take k =
        (ts.drop i).take ((m.run (ts.drop i)).length + k) := by
      intro k
      rw [List.take_add, ← Matcher.run_eq_take, hdrop]
    simp only [prefix?, hdrop]
    constructor
    · intro h
      split at h
      · rename_i hadm
        obtain ⟨tail, htail, rfl⟩ := Option.map_eq_some_iff.mp h
        obtain ⟨k, hk, rfl⟩ := ih.mp htail
        exact ⟨_, .cons (Matcher.takes_iff.mpr ⟨rfl, hadm⟩) hk, htake k⟩
      · cases h
    · rintro ⟨_, h, rfl⟩
      cases h with
      | @cons _ _ _ n k htakes hk =>
        obtain ⟨rfl, hadm⟩ := Matcher.takes_iff.mp htakes
        rw [if_pos hadm, ih.mpr ⟨k, hk, rfl⟩, Option.map_some, htake]

/-- The pattern matches at a position of the stream and takes so many tokens. An empty pattern matches nowhere, an
    anchored one at the start only. -/
structure OccursAt (p : Pattern) (ts : Stream) (i k : Nat) : Prop where
  nonempty : p ≠ []
  inside : i ≤ ts.length
  anchored : p.isAnchored = true → i = 0
  here : MatchesAt ts p i k

theorem OccursAt.le (h : p.OccursAt ts i k) : i + k ≤ ts.length := h.here.le h.inside

theorem prefix?_of_not_occursAt (hp : p ≠ []) (hi : i ≤ ts.length) (ha : p.isAnchored = true → i = 0)
    (h : ∀ k, ¬ p.OccursAt ts i k) : p.prefix? (ts.drop i) = none := by
  cases hprefix : p.prefix? (ts.drop i) with
  | none => rfl
  | some taken =>
    obtain ⟨k, hk, -⟩ := prefix?_eq_some_iff.mp hprefix
    exact absurd ⟨hp, hi, ha, hk⟩ (h k)

/-- A search fails if and only if the pattern occurs nowhere. -/
theorem find?_eq_none_iff : p.find? ts = none ↔ ∀ i k, ¬ p.OccursAt ts i k := by
  by_cases hp : p = []
  · subst hp
    exact ⟨fun _ _ _ h => h.nonempty rfl, fun _ => rfl⟩
  rw [find?_eq_none hp]
  constructor
  · rintro h i k ⟨-, hi, ha, hk⟩
    have hnone := h (ts.take i) (ts.drop i) (List.take_append_drop i ts).symm fun hanch => by rw [ha hanch, List.take_zero]
    rw [prefix?_eq_some_iff.mpr ⟨k, hk, rfl⟩] at hnone
    cases hnone
  · intro h a b hab hanch
    have hb : b = ts.drop a.length := by rw [hab, List.drop_left]
    rw [hb]
    refine prefix?_of_not_occursAt hp ?_ (fun ha => by rw [hanch ha]; rfl) fun k => h a.length k
    rw [hab, List.length_append]
    omega

/-- A search finds the least position where the pattern occurs. -/
theorem find?_eq_some_iff : p.find? ts = some (i, taken) ↔
    ∃ k, p.OccursAt ts i k ∧ (∀ j < i, ∀ l, ¬ p.OccursAt ts j l) ∧ taken = (ts.drop i).take k := by
  constructor
  · intro h
    have hp : p ≠ [] := fun hnil => by
      rw [hnil] at h
      cases h
    obtain ⟨pre, post, rfl, rfl, f⟩ := foundAt_of_find? h
    have hdrop : (pre ++ (taken ++ post)).drop pre.length = taken ++ post := List.drop_left
    obtain ⟨k, hk, htaken⟩ := prefix?_eq_some_iff.mp (hdrop.symm ▸ f.here)
    refine ⟨k, ⟨hp, by simp, fun ha => by rw [f.anchored ha]; rfl, hk⟩, fun j hj l hocc => ?_, htaken⟩
    have hne : pre.drop j ≠ [] := by
      rw [Ne, List.drop_eq_nil_iff]
      omega
    have hnone := f.first (pre.take j) (pre.drop j) (List.take_append_drop j pre).symm hne
    rw [← List.drop_append_of_le_length (Nat.le_of_lt hj), prefix?_eq_some_iff.mpr ⟨l, hocc.here, rfl⟩] at hnone
    cases hnone
  · rintro ⟨k, hocc, hfirst, rfl⟩
    have hprefix := prefix?_eq_some_iff.mpr ⟨k, hocc.here, rfl⟩
    obtain ⟨hparse, rest, hrest⟩ := parses_of_prefix? hprefix
    have hts : ts = ts.take i ++ ((ts.drop i).take k ++ rest) := by
      rw [← hrest, List.take_append_drop]
    have hlen : (ts.take i).length = i := by rw [List.length_take, Nat.min_eq_left hocc.inside]
    have hfound : p.FoundAt (ts.take i) ((ts.drop i).take k) rest := by
      refine ⟨hparse, fun ha => by rw [hocc.anchored ha, List.take_zero], hrest ▸ hprefix, fun a b hab hb => ?_⟩
      have halen := congrArg List.length hab
      have hbpos := List.length_pos_iff.mpr hb
      rw [hlen, List.length_append] at halen
      have hdrop : b ++ ((ts.drop i).take k ++ rest) = ts.drop a.length :=
        calc b ++ ((ts.drop i).take k ++ rest) = (a ++ (b ++ ts.drop i)).drop a.length := by rw [List.drop_left, ← hrest]
          _ = ts.drop a.length := by rw [← List.append_assoc, ← hab, List.take_append_drop]
      rw [hdrop]
      -- An anchored pattern occurs at the start, so that nothing is in front of it.
      refine prefix?_of_not_occursAt hocc.nonempty (by have := hocc.inside; omega) (fun ha => ?_)
        fun l => hfirst a.length (by omega) l
      have := hocc.anchored ha
      omega
    have hfind := find?_eq_some hocc.nonempty hfound
    rwa [← hts, hlen] at hfind

end Pattern

/-! ### The rule that leads -/

namespace Rule
variable {rs : List Rule} {ts taken : Stream} {r : Rule} {i k : Nat}

/-- The rule is the first one of a list that occurs anywhere in a stream, and it occurs at no earlier position. -/
structure Leads (rs : List Rule) (ts : Stream) (r : Rule) (i k : Nat) : Prop where
  first : ∃ above below, rs = above ++ r :: below ∧ ∀ r' ∈ above, ∀ j l, ¬ r'.pattern.OccursAt ts j l
  occurs : r.pattern.OccursAt ts i k
  least : ∀ j < i, ∀ l, ¬ r.pattern.OccursAt ts j l

theorem firstMatch?_eq_some_iff : firstMatch? rs ts = some (r, i, taken) ↔
    ∃ k, Leads rs ts r i k ∧ taken = (ts.drop i).take k := by
  constructor
  · intro h
    obtain ⟨above, below, hrs, habove, hfind⟩ := firstMatch?_some h
    obtain ⟨k, hocc, hleast, htaken⟩ := Pattern.find?_eq_some_iff.mp hfind
    exact ⟨k, ⟨⟨above, below, hrs, fun r' hr' => Pattern.find?_eq_none_iff.mp (habove r' hr')⟩, hocc, hleast⟩, htaken⟩
  · rintro ⟨k, ⟨⟨above, below, rfl, habove⟩, hocc, hleast⟩, rfl⟩
    rw [firstMatch?_append fun r' hr' => Pattern.find?_eq_none_iff.mpr (habove r' hr'), firstMatch?,
      Pattern.find?_eq_some_iff.mpr ⟨k, hocc, hleast, rfl⟩]

theorem firstMatch?_eq_none_iff : firstMatch? rs ts = none ↔ ∀ r ∈ rs, ∀ i k, ¬ r.pattern.OccursAt ts i k := by
  simp only [firstMatch?_eq_none, Pattern.find?_eq_none_iff]

end Rule
end Reckoner
