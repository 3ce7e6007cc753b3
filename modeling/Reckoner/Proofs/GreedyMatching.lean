import Reckoner.Proofs.Rewriting
import Reckoner.Proofs.SingleCalls

/-!
# Greedy matching loses no match

A segment of a stream falls into blocks by a pattern at a position (`Pattern.ParsesAt`). A determined pattern occurs
exactly there (`Pattern.Determined.occursAt_iff`), and the patterns of the standard rules and of the calls of single
arguments are determined. So the search finds the first segment that parses, and fails only if there is none
(`Pattern.find?_parses`).
-/

namespace Reckoner

namespace Pattern
variable {p : Pattern} {ts taken : Stream} {i k l : Nat}

/-! ### Determined patterns -/

/-- The segment at a position of a stream falls into blocks by the pattern; for an anchored pattern the position is the
    start. -/
structure ParsesAt (p : Pattern) (ts : Stream) (i k : Nat) : Prop where
  inside : i + k ≤ ts.length
  anchored : p.isAnchored = true → i = 0
  parses : p.Parses (ts.segment i k)

theorem Determined.prefix?_segment (hd : p.Determined) (h : p.Parses (ts.segment i k)) :
    p.prefix? (ts.drop i) = some (ts.segment i k) := by
  have hdrop : ts.drop i = ts.segment i k ++ ts.drop (i + k) := by
    rw [Stream.segment, ← List.drop_drop, List.take_append_drop]
  rw [hdrop]
  exact prefix?_of_parses hd h _

/-- At each position at most one segment parses. -/
theorem Determined.parses_unique (hd : p.Determined) (hk : i + k ≤ ts.length) (hl : i + l ≤ ts.length)
    (h : p.Parses (ts.segment i k)) (h' : p.Parses (ts.segment i l)) : k = l := by
  have hsame := (hd.prefix?_segment h).symm.trans (hd.prefix?_segment h')
  have hlength := congrArg List.length (Option.some.inj hsame)
  rwa [Stream.length_segment hk, Stream.length_segment hl] at hlength

/-- The matchers succeed one after the other on every segment that parses, and on no other one. -/
theorem Determined.occursAt_iff (hd : p.Determined) (hp : p ≠ []) : p.OccursAt ts i k ↔ p.ParsesAt ts i k := by
  constructor
  · exact fun h => ⟨h.le, h.anchored, h.parses⟩
  · intro h
    obtain ⟨l, hl, hsegment⟩ := prefix?_eq_some_iff.mp (hd.prefix?_segment h.parses)
    have hi : i ≤ ts.length := Nat.le_of_add_right_le h.inside
    have hlength := congrArg List.length hsegment
    have hle := hl.le hi
    rw [Stream.length_segment h.inside, ← Stream.segment, Stream.length_segment hle] at hlength
    exact ⟨hp, hi, h.anchored, hlength ▸ hl⟩

end Pattern

/-! ### The patterns of rules -/

theorem Rule.determined_of_mem_standard {r : Rule} (hr : r ∈ Rule.standard) : r.pattern.Determined := by
  rw [← Rule.brackets_append_flat] at hr
  rcases List.mem_append.mp hr with hr | hr
  · exact Rule.determined_of_mem_brackets hr
  · have hsingle : ∀ r ∈ Rule.flat, ∀ m ∈ r.pattern, m.least = 1 ∧ m.greatest = some 1 := by decide
    exact Pattern.determined_of_takesOne (hsingle r hr)

/-- The pattern is that of a standard rule or of the calls of a function of single arguments. -/
inductive Pattern.IsRegular : Pattern → Prop where
  | standard {r : Rule} : r ∈ Rule.standard → IsRegular r.pattern
  | call {f : UserFunction} {p : Pattern} : f.TakesSingles → f.pattern = .ok p → IsRegular p

namespace Pattern
variable {p : Pattern}

theorem IsRegular.determined (h : p.IsRegular) : p.Determined := by
  cases h with
  | standard hr => exact Rule.determined_of_mem_standard hr
  | call hf hp => exact (hf.rule hp).determined

theorem IsRegular.ne_nil (h : p.IsRegular) : p ≠ [] := by
  cases h with
  | @standard r hr =>
    have hsome : ∀ r ∈ Rule.standard, r.pattern.isEmpty = false := by decide
    intro hnil
    have := hsome r hr
    rw [hnil] at this
    cases this
  | call hf hp =>
    rintro rfl
    cases hf.rule hp

/-- For the patterns of the standard rules and of calls of single arguments, at most one segment at each position of a
    stream parses. The search finds the one at the first admissible position that has one, and fails if none has. -/
theorem find?_parses (hp : p.IsRegular) (ts : Stream) :
    (∀ i k l, i + k ≤ ts.length → i + l ≤ ts.length → p.Parses (ts.segment i k) → p.Parses (ts.segment i l) → k = l) ∧
    (∀ i taken, p.find? ts = some (i, taken) ↔
      ∃ k, p.ParsesAt ts i k ∧ taken = ts.segment i k ∧ ∀ j < i, ∀ l, ¬ p.ParsesAt ts j l) ∧
    (p.find? ts = none ↔ ∀ i k, ¬ p.ParsesAt ts i k) := by
  have hoccurs : ∀ i k, p.OccursAt ts i k ↔ p.ParsesAt ts i k := fun i k => hp.determined.occursAt_iff hp.ne_nil
  refine ⟨fun i k l => hp.determined.parses_unique, fun i taken => ?_, ?_⟩
  · rw [find?_eq_some_iff]
    simp only [hoccurs]
    exact exists_congr fun k => and_congr_right fun _ => and_comm
  · rw [find?_eq_none_iff]
    simp only [hoccurs]

/-- A call of `round` with places behind a number. -/
theorem find?_parses_round :
    let ts : Stream := .number (.int 7) :: .named "round" :: Stream.wrap [.number (.int 25), .comma, .number (.int 1)]
    roundCallWithPlaces.find? ts = some (1, ts.drop 1) ∧
      ∃ k, roundCallWithPlaces.ParsesAt ts 1 k ∧ ts.drop 1 = ts.segment 1 k ∧
        ∀ j < 1, ∀ l, ¬ roundCallWithPlaces.ParsesAt ts j l := by
  intro ts
  have hregular : roundCallWithPlaces.IsRegular := .standard (List.mem_of_getElem? (i := 2) rfl)
  have hfind : roundCallWithPlaces.find? ts = some (1, ts.drop 1) := rfl
  exact ⟨hfind, ((find?_parses hregular ts).2.1 1 (ts.drop 1)).mp hfind⟩

end Pattern
end Reckoner
