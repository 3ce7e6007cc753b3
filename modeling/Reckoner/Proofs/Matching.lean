import Reckoner.Rule

/-!
# What a pattern matches

A match of a pattern falls into blocks, one for each of its matchers (`Pattern.Parses`). Matchers are greedy
and give nothing back, so that the converse needs a condition: a pattern whose open-ended matchers are each
followed by one that accepts nothing they accept (`Pattern.Determined`) takes every segment that parses.

The search for a pattern returns its first match, and the search through a list of rules the first match of
the topmost rule that matches anywhere.
-/

namespace Reckoner

/-! ### Runs of a single matcher -/

namespace Matcher
variable {m : Matcher} {ts : Stream}

theorem takeUpTo_isPrefix (m : Matcher) : ∀ (n : Nat) (ts : Stream), m.takeUpTo n ts <+: ts
  | 0, ts => by simp [takeUpTo]
  | n + 1, [] => by simp [takeUpTo]
  | n + 1, t :: ts => by
    by_cases ha : m.accepts t = true
    · simpa [takeUpTo, ha] using takeUpTo_isPrefix m n ts
    · simp [takeUpTo, ha]

theorem accepts_of_mem_takeUpTo (m : Matcher) : ∀ (n : Nat) (ts : Stream), ∀ t ∈ m.takeUpTo n ts, m.accepts t = true
  | 0, ts => by simp [takeUpTo]
  | n + 1, [] => by simp [takeUpTo]
  | n + 1, t :: ts => by
    by_cases ha : m.accepts t = true
    · simpa [takeUpTo, ha] using accepts_of_mem_takeUpTo m n ts
    · simp [takeUpTo, ha]

theorem run_isPrefix (m : Matcher) (ts : Stream) : m.run ts <+: ts := by
  unfold run
  split
  · exact takeUpTo_isPrefix m _ ts
  · exact List.takeWhile_prefix _

theorem accepts_of_mem_run {t : Token} (h : t ∈ m.run ts) : m.accepts t = true := by
  unfold run at h
  split at h
  · exact accepts_of_mem_takeUpTo m _ ts t h
  · exact List.all_eq_true.mp List.all_takeWhile t h

/-- A run takes a whole block of the greatest number of tokens. -/
theorem takeUpTo_append {block rest : Stream} (h : ∀ t ∈ block, m.accepts t = true) :
    m.takeUpTo block.length (block ++ rest) = block := by
  induction block with
  | nil => simp [takeUpTo]
  | cons t block ih =>
    have ht : m.accepts t = true := h t (by simp)
    simpa [takeUpTo, ht] using ih fun u hu => h u (by simp [hu])

/-- A run without a greatest number ends in front of a token that is not accepted. -/
theorem takeWhile_append {block rest : Stream} (h : ∀ t ∈ block, m.accepts t = true)
    (hr : ∀ t ∈ rest.head?, m.accepts t = false) : (block ++ rest).takeWhile m.accepts = block := by
  rw [List.takeWhile_append_of_pos h]
  cases rest with
  | nil => simp
  | cons t rest => simp [hr t (by simp)]

end Matcher

/-! ### Parsing by a pattern -/

namespace Pattern

/-- The tokens fall into blocks, one for each matcher: tokens it accepts, in a number it admits. -/
inductive Parses : Pattern → Stream → Prop where
  | nil : Parses [] []
  | cons {m : Matcher} {ms : Pattern} {block rest : Stream} (accepted : ∀ t ∈ block, m.accepts t = true)
      (admitted : m.admits block.length = true) (tail : Parses ms rest) : Parses (m :: ms) (block ++ rest)

/-- Each matcher takes a fixed number of tokens, or it is followed by a matcher that takes a token and accepts
    none that it accepts itself. -/
def Determined : Pattern → Prop
  | [] => True
  | m :: ms =>
    (m.greatest = some m.least ∨
      m.greatest = none ∧ ∃ k ks, ms = k :: ks ∧ 0 < k.least ∧ ∀ t, k.accepts t = true → m.accepts t = false) ∧
    Determined ms

variable {p : Pattern} {ts taken rest : Stream}

theorem parses_of_prefix? : ∀ {p : Pattern} {ts taken : Stream}, p.prefix? ts = some taken →
    Parses p taken ∧ ∃ rest, ts = taken ++ rest
  | [], ts, taken, h => by
    simp only [prefix?, Option.some.injEq] at h
    subst h
    exact ⟨.nil, ts, rfl⟩
  | m :: ms, ts, taken, h => by
    simp only [prefix?] at h
    split at h
    · rename_i hadm
      obtain ⟨tail, htail, rfl⟩ := Option.map_eq_some_iff.mp h
      obtain ⟨hp, rest, hrest⟩ := parses_of_prefix? htail
      refine ⟨.cons (fun t ht => Matcher.accepts_of_mem_run ht) hadm hp, rest, ?_⟩
      have hrun := List.prefix_iff_eq_append.mp (Matcher.run_isPrefix m ts)
      rw [hrest] at hrun
      rw [List.append_assoc]
      exact hrun.symm
    · cases h

theorem head?_of_parses {k : Matcher} {ks : Pattern} (h : Parses (k :: ks) ts) (hk : 0 < k.least) :
    ∃ t rest, ts = t :: rest ∧ k.accepts t = true := by
  cases h with
  | @cons _ _ block rest hacc hadm _ =>
    cases block with
    | nil =>
      simp only [Matcher.admits, List.length_nil, Bool.and_eq_true, decide_eq_true_eq] at hadm
      omega
    | cons t block => exact ⟨t, block ++ rest, rfl, hacc t (by simp)⟩

/-- A determined pattern takes every segment that parses, whatever comes behind it. -/
theorem prefix?_of_parses (hd : p.Determined) (h : Parses p taken) (rest : Stream) :
    p.prefix? (taken ++ rest) = some taken := by
  induction h with
  | nil => simp [prefix?]
  | @cons m ms block tail hacc hadm htail ih =>
    obtain ⟨hm, hms⟩ := hd
    have hrun : m.run (block ++ (tail ++ rest)) = block := by
      unfold Matcher.run
      rcases hm with hm | ⟨hm, k, ks, rfl, hk, hdis⟩
      · have hlen : block.length = m.least := by
          simp only [Matcher.admits, hm, Bool.and_eq_true, decide_eq_true_eq] at hadm
          omega
        rw [hm, ← hlen]
        exact Matcher.takeUpTo_append hacc
      · obtain ⟨t, tail', rfl, ht⟩ := head?_of_parses htail hk
        rw [hm]
        refine Matcher.takeWhile_append hacc fun u hu => ?_
        simp only [List.cons_append, List.head?_cons, Option.mem_def, Option.some.injEq] at hu
        exact hdis u (hu ▸ ht)
    simp [prefix?, List.append_assoc, hrun, hadm, ih hms]

/-- What a pattern takes holds a token for each of its matchers that asks for one. -/
theorem exists_accepted {m : Matcher} (hp : p.Parses ts) (hm : m ∈ p) (hleast : 0 < m.least) : ∃ t ∈ ts, m.accepts t = true := by
  induction hp with
  | nil => cases hm
  | @cons k ms block rest haccepted hadmitted _ ih =>
    rcases List.mem_cons.mp hm with rfl | hm
    · cases block with
      | nil => simp [Matcher.admits, Nat.ne_of_gt hleast] at hadmitted
      | cons t block => exact ⟨t, by simp, haccepted t (by simp)⟩
    · obtain ⟨t, ht, hacc⟩ := ih hm
      exact ⟨t, List.mem_append_right _ ht, hacc⟩

/-! ### Parsing by matchers of a fixed shape -/

theorem parses_nil : Parses [] ts ↔ ts = [] := by
  constructor
  · intro h
    cases h
    rfl
  · rintro rfl
    exact .nil

theorem parses_single {m : Matcher} {ms : Pattern} (hl : m.least = 1) (hg : m.greatest = some 1) :
    Parses (m :: ms) ts ↔ ∃ t rest, ts = t :: rest ∧ m.accepts t = true ∧ Parses ms rest := by
  constructor
  · intro h
    cases h with
    | @cons _ _ block rest hacc hadm htail =>
      simp only [Matcher.admits, hl, hg, Bool.and_eq_true, decide_eq_true_eq] at hadm
      obtain ⟨t, rfl⟩ := List.length_eq_one_iff.mp (by omega : block.length = 1)
      exact ⟨t, rest, rfl, hacc t (by simp), htail⟩
  · rintro ⟨t, rest, rfl, ht, htail⟩
    exact @Parses.cons m ms [t] rest (by simpa using ht) (by simp [Matcher.admits, hl, hg]) htail

theorem parses_star {m : Matcher} {ms : Pattern} (hl : m.least = 0) (hg : m.greatest = none) :
    Parses (m :: ms) ts ↔
      ∃ block rest, ts = block ++ rest ∧ (∀ t ∈ block, m.accepts t = true) ∧ Parses ms rest := by
  constructor
  · intro h
    cases h with
    | @cons _ _ block rest hacc _ htail => exact ⟨block, rest, rfl, hacc, htail⟩
  · rintro ⟨block, rest, rfl, hacc, htail⟩
    exact .cons hacc (by simp [Matcher.admits, hl, hg]) htail

/-! ### The first match -/

/-- The pattern is anchored to the start of the stream. -/
def isAnchored (p : Pattern) : Bool := p.head?.any (·.anchored)

/-- What it means that a search finds a segment between two parts of a stream: the pattern takes it there, and
    at no earlier place. -/
structure FoundAt (p : Pattern) (pre taken post : Stream) : Prop where
  parses : Parses p taken
  anchored : p.isAnchored = true → pre = []
  here : p.prefix? (taken ++ post) = some taken
  first : ∀ a b, pre = a ++ b → b ≠ [] → p.prefix? (b ++ (taken ++ post)) = none

theorem findFrom?_some : ∀ {ts : Stream} {i k : Nat} {taken : Stream}, p.findFrom? i ts = some (k, taken) →
    ∃ pre post, ts = pre ++ (taken ++ post) ∧ k = i + pre.length ∧ p.prefix? (taken ++ post) = some taken ∧
      ∀ a b, pre = a ++ b → b ≠ [] → p.prefix? (b ++ (taken ++ post)) = none
  | [], i, k, taken, h => by
    simp only [findFrom?, Option.map_eq_some_iff, Prod.mk.injEq] at h
    obtain ⟨u, hu, rfl, rfl⟩ := h
    obtain ⟨-, rest, hrest⟩ := parses_of_prefix? hu
    exact ⟨[], rest, hrest, rfl, hrest ▸ hu, fun a b hab hb => by simp_all⟩
  | t :: ts, i, k, taken, h => by
    simp only [findFrom?] at h
    split at h
    · rename_i u hu
      simp only [Option.some.injEq, Prod.mk.injEq] at h
      obtain ⟨rfl, rfl⟩ := h
      obtain ⟨-, rest, hrest⟩ := parses_of_prefix? hu
      exact ⟨[], rest, hrest, rfl, hrest ▸ hu, fun a b hab hb => by simp_all⟩
    · rename_i hnone
      obtain ⟨pre, post, rfl, rfl, hhere, hfirst⟩ := findFrom?_some h
      refine ⟨t :: pre, post, rfl, by simp only [List.length_cons]; omega, hhere, fun a b hab hb => ?_⟩
      cases a with
      | nil =>
        rw [List.nil_append] at hab
        rw [← hab, List.cons_append]
        exact hnone
      | cons x a =>
        simp only [List.cons_append, List.cons.injEq] at hab
        exact hfirst a b hab.2 hb

theorem findFrom?_eq_none : ∀ {ts : Stream} {i : Nat}, p.findFrom? i ts = none ↔
    ∀ a b, ts = a ++ b → p.prefix? b = none
  | [], i => by
    simp only [findFrom?, Option.map_eq_none_iff]
    exact ⟨fun h a b hab => by simp_all, fun h => h [] [] rfl⟩
  | t :: ts, i => by
    simp only [findFrom?]
    constructor
    · intro h a b hab
      split at h
      · cases h
      · rename_i hnone
        cases a with
        | nil =>
          rw [List.nil_append] at hab
          rw [← hab]
          exact hnone
        | cons x a =>
          simp only [List.cons_append, List.cons.injEq] at hab
          exact findFrom?_eq_none.mp h a b hab.2
    · intro h
      rw [h [] (t :: ts) rfl]
      exact findFrom?_eq_none.mpr fun a b hab => h (t :: a) b (by rw [hab, List.cons_append])

/-- A search finds the first place where the pattern takes anything. -/
theorem foundAt_of_find? {k : Nat} (h : p.find? ts = some (k, taken)) :
    ∃ pre post, ts = pre ++ (taken ++ post) ∧ k = pre.length ∧ FoundAt p pre taken post := by
  cases p with
  | nil => cases h
  | cons m ms =>
    simp only [find?] at h
    split at h
    · obtain ⟨u, hu, heq⟩ := Option.map_eq_some_iff.mp h
      obtain ⟨rfl, rfl⟩ := Prod.mk.inj heq
      obtain ⟨hp, rest, hrest⟩ := parses_of_prefix? hu
      exact ⟨[], rest, hrest, rfl, hp, fun _ => rfl, hrest ▸ hu, fun a b hab hb => by simp_all⟩
    · rename_i hanch
      obtain ⟨pre, post, hts, hk, hhere, hfirst⟩ := findFrom?_some h
      refine ⟨pre, post, hts, by omega, (parses_of_prefix? hhere).1, fun ha => ?_, hhere, hfirst⟩
      simp [isAnchored, hanch] at ha

/-- The pattern takes nothing anywhere in the stream; an anchored one takes nothing at its start. -/
def Absent (p : Pattern) (ts : Stream) : Prop :=
  ∀ a b, ts = a ++ b → (p.isAnchored = true → a = []) → p.prefix? b = none

theorem find?_eq_none (hp : p ≠ []) : p.find? ts = none ↔ p.Absent ts := by
  cases p with
  | nil => exact absurd rfl hp
  | cons m ms =>
    simp only [find?, Absent, isAnchored, List.head?_cons, Option.any_some]
    split
    · rename_i ha
      rw [Option.map_eq_none_iff]
      constructor
      · intro h a b hab hanch
        rw [hanch ha, List.nil_append] at hab
        exact hab ▸ h
      · exact fun h => h [] ts rfl fun _ => rfl
    · rename_i ha
      rw [findFrom?_eq_none]
      exact ⟨fun h a b hab _ => h a b hab, fun h a b hab => h a b hab fun ha' => absurd ha' ha⟩

/-- A search is decided by a place that nothing precedes. -/
theorem find?_eq_some {pre post : Stream} (hp : p ≠ []) (f : FoundAt p pre taken post) :
    p.find? (pre ++ (taken ++ post)) = some (pre.length, taken) := by
  cases h : p.find? (pre ++ (taken ++ post)) with
  | none =>
    have hnone := (find?_eq_none hp).mp h pre (taken ++ post) rfl f.anchored
    rw [f.here] at hnone
    cases hnone
  | some found =>
    obtain ⟨k, taken'⟩ := found
    obtain ⟨pre', post', heq, rfl, f'⟩ := foundAt_of_find? h
    -- The two places coincide, since neither stands in front of the other.
    have hpre : pre' = pre := by
      rcases List.append_eq_append_iff.mp heq with ⟨b, hb, hrest⟩ | ⟨b, hb, hrest⟩
      · by_cases hnil : b = []
        · simp [hb, hnil]
        · have := f'.first pre b hb hnil
          rw [← hrest, f.here] at this
          cases this
      · by_cases hnil : b = []
        · simp [hb, hnil]
        · have := f.first pre' b hb hnil
          rw [← hrest, f'.here] at this
          cases this
    subst hpre
    have hsame : taken ++ post = taken' ++ post' := List.append_cancel_left heq
    have : some taken = some taken' := by rw [← f.here, hsame, f'.here]
    rw [Option.some.inj this]

theorem foundAt_nil (hd : p.Determined) (h : Parses p taken) (post : Stream) : p.FoundAt [] taken post :=
  ⟨h, fun _ => rfl, prefix?_of_parses hd h post, fun _ _ hab hb => absurd (List.append_eq_nil_iff.mp hab.symm).2 hb⟩

/-- A determined pattern is found wherever a segment parses. -/
theorem find?_ne_none (hp : p ≠ []) (ha : p.isAnchored = false) (hd : p.Determined) (h : Parses p taken)
    (pre post : Stream) : p.find? (pre ++ (taken ++ post)) ≠ none := by
  intro hnone
  have habsent := (find?_eq_none hp).mp hnone pre (taken ++ post) rfl (by simp [ha])
  rw [prefix?_of_parses hd h] at habsent
  cases habsent

end Pattern

/-! ### The first match of the topmost rule -/

namespace Rule
variable {rs : List Rule} {ts taken : Stream} {r : Rule} {k : Nat}

theorem firstMatch?_some : ∀ {rs : List Rule}, firstMatch? rs ts = some (r, k, taken) →
    ∃ above below, rs = above ++ r :: below ∧ (∀ r' ∈ above, r'.pattern.find? ts = none) ∧
      r.pattern.find? ts = some (k, taken)
  | [], h => by cases h
  | r₀ :: rs, h => by
    simp only [firstMatch?] at h
    split at h
    · rename_i position taken' hfind
      simp only [Option.some.injEq, Prod.mk.injEq] at h
      obtain ⟨rfl, rfl, rfl⟩ := h
      exact ⟨[], rs, rfl, by simp, hfind⟩
    · rename_i hnone
      obtain ⟨above, below, rfl, habove, hfind⟩ := firstMatch?_some h
      refine ⟨r₀ :: above, below, rfl, fun r' hr' => ?_, hfind⟩
      rcases List.mem_cons.mp hr' with rfl | hr'
      · exact hnone
      · exact habove r' hr'

theorem firstMatch?_eq_none : ∀ {rs : List Rule}, firstMatch? rs ts = none ↔ ∀ r ∈ rs, r.pattern.find? ts = none
  | [] => by simp [firstMatch?]
  | r₀ :: rs => by
    simp only [firstMatch?, List.forall_mem_cons]
    split
    · rename_i hfind
      simp [hfind]
    · rename_i hnone
      simp [hnone, firstMatch?_eq_none]

theorem firstMatch?_cons {r₀ : Rule} (h : firstMatch? (r₀ :: rs) ts = some (r, k, taken)) :
    (r = r₀ ∧ r₀.pattern.find? ts = some (k, taken)) ∨
      (r₀.pattern.find? ts = none ∧ firstMatch? rs ts = some (r, k, taken)) := by
  simp only [firstMatch?] at h
  split at h
  · rename_i hfind
    obtain ⟨rfl, rfl, rfl⟩ : r₀ = r ∧ _ ∧ _ := by simpa using h
    exact Or.inl ⟨rfl, hfind⟩
  · rename_i hnone
    exact Or.inr ⟨hnone, h⟩

/-- Rules that match nowhere do not count. -/
theorem firstMatch?_append {above : List Rule} (h : ∀ r ∈ above, r.pattern.find? ts = none) :
    firstMatch? (above ++ rs) ts = firstMatch? rs ts := by
  induction above with
  | nil => rfl
  | cons r₀ above ih =>
    rw [List.forall_mem_cons] at h
    simp [firstMatch?, h.1, ih h.2]

/-- A match of the topmost matching rule is the first match in the stream. -/
theorem firstMatch?_of_foundAt {above below : List Rule} {pre post : Stream}
    (habove : ∀ r' ∈ above, r'.pattern.find? (pre ++ (taken ++ post)) = none) (hp : r.pattern ≠ [])
    (f : r.pattern.FoundAt pre taken post) :
    firstMatch? (above ++ r :: below) (pre ++ (taken ++ post)) = some (r, pre.length, taken) := by
  rw [firstMatch?_append habove, firstMatch?, Pattern.find?_eq_some hp f]

end Rule
end Reckoner
