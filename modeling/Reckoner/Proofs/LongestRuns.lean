import Reckoner.Proofs.Leftmost

/-!
# The longest admissible run

At a position of a stream a matcher takes the longest prefix that it may take (`Matcher.IsLongest`), and this is where a
loop ends that takes one accepted token after the other (`Matcher.Collects`). The loop ends even without a greatest
number, since no token is accepted behind the end of the stream, by an inverted matcher neither. It is a match exactly
if as many tokens are taken as the matcher asks for (`Matcher.tryAt_longest`).
-/

namespace Reckoner.Matcher
variable {m : Matcher} {ts taken last : Stream} {t : Token} {i j : Nat}

/-! ### Tokens at places -/

/-- The token at a place of a stream is accepted. Behind the end there is none. -/
def acceptsAt (m : Matcher) (ts : Stream) (i : Nat) : Bool := ts[i]?.any m.accepts

theorem acceptsAt_iff : m.acceptsAt ts i = true ↔ ∃ t, ts[i]? = some t ∧ m.accepts t = true :=
  Option.any_eq_true ..

theorem acceptsAt_of_length_le (h : ts.length ≤ i) : m.acceptsAt ts i = false := by
  rw [acceptsAt, List.getElem?_eq_none h, Option.any_none]

theorem accepts_invert (m : Matcher) (t : Token) : m.invert.accepts t = !m.accepts t :=
  Bool.bne_not ..

theorem acceptsAt_invert (h : i < ts.length) : m.invert.acceptsAt ts i = !m.acceptsAt ts i := by
  simp only [acceptsAt, List.getElem?_eq_getElem h, Option.any_some, accepts_invert]

/-! ### What may be taken -/

/-- The matcher may take these tokens from the front of a stream: it accepts them all, and they are no more than its
    greatest number. -/
structure MayTake (m : Matcher) (ts taken : Stream) : Prop where
  isPrefix : taken <+: ts
  accepted : ∀ t ∈ taken, m.accepts t = true
  within : ∀ g ∈ m.greatest, taken.length ≤ g

/-- The matcher may take these tokens and no longer prefix. -/
def IsLongest (m : Matcher) (ts taken : Stream) : Prop :=
  m.MayTake ts taken ∧ ∀ other, m.MayTake ts other → other.length ≤ taken.length

theorem IsLongest.unique (h : m.IsLongest ts taken) (h' : m.IsLongest ts last) : taken = last := by
  have hprefix := List.prefix_of_prefix_length_le h.1.isPrefix h'.1.isPrefix (h'.2 _ h.1)
  exact hprefix.eq_of_length_le (h.2 _ h'.1)

/-- Tokens that may be taken are the longest if their number cannot grow, or if the next token is refused or missing. -/
theorem MayTake.isLongest (h : m.MayTake ts taken)
    (hstop : (∃ g ∈ m.greatest, g ≤ taken.length) ∨ m.acceptsAt ts taken.length = false) : m.IsLongest ts taken := by
  refine ⟨h, fun other hother => Nat.le_of_not_lt fun hlt => ?_⟩
  rcases hstop with ⟨g, hg, hle⟩ | hrefused
  · have := hother.within g hg
    omega
  · -- A longer prefix would hold the token that is refused.
    obtain ⟨rest, rfl⟩ := hother.isPrefix
    have haccepted : m.acceptsAt (other ++ rest) taken.length = true := acceptsAt_iff.mpr
      ⟨other[taken.length], by rw [List.getElem?_append_left hlt, List.getElem?_eq_getElem hlt],
        hother.accepted _ (List.getElem_mem hlt)⟩
    rw [hrefused] at haccepted
    cases haccepted

theorem length_takeUpTo_le (m : Matcher) : ∀ (limit : Nat) (ts : Stream), (m.takeUpTo limit ts).length ≤ limit
  | 0, ts => by simp [takeUpTo]
  | limit + 1, [] => by simp [takeUpTo]
  | limit + 1, t :: ts => by
    by_cases ha : m.accepts t = true
    · simpa [takeUpTo, ha] using length_takeUpTo_le m limit ts
    · simp [takeUpTo, ha]

/-- A run goes on up to the greatest number, or up to a token that is refused or missing. -/
theorem isLongest_run (m : Matcher) (ts : Stream) : m.IsLongest ts (m.run ts) := by
  have hrefused : ∀ {n : Nat}, (∀ t ∈ ts[n]?, m.accepts t = false) → m.acceptsAt ts n = false := fun h =>
    Bool.eq_false_iff.mpr fun haccepted => by
      obtain ⟨t, ht, ha⟩ := acceptsAt_iff.mp haccepted
      rw [h t ht] at ha
      cases ha
  refine MayTake.isLongest ⟨m.run_isPrefix ts, fun t => accepts_of_mem_run, fun g hg => ?_⟩ ?_
  · rw [run, hg]
    exact m.length_takeUpTo_le g ts
  · cases hgreatest : m.greatest with
    | some g =>
      rw [run, hgreatest]
      exact (m.takeUpTo_full g ts).imp (fun h => ⟨g, rfl, Nat.le_of_eq h.symm⟩) hrefused
    | none =>
      rw [run, hgreatest]
      show _ ∨ m.acceptsAt ts (ts.takeWhile m.accepts).length = false
      rw [← takeUpTo_length]
      refine Or.inr ((m.takeUpTo_full ts.length ts).elim (fun h => ?_) hrefused)
      exact acceptsAt_of_length_le (Nat.le_of_eq h.symm)

/-! ### Taking one token after the other -/

/-- Behind the tokens already taken from a position on, tokens are taken one by one. This ends when the greatest number
    is reached, or when the token at the next place is refused or missing. -/
inductive Collects (m : Matcher) (ts : Stream) (i : Nat) : (taken last : Stream) → Prop where
  | full {taken : Stream} : (∃ g ∈ m.greatest, g ≤ taken.length) → Collects m ts i taken taken
  | refused {taken : Stream} : m.acceptsAt ts (i + taken.length) = false → Collects m ts i taken taken
  | next {taken last : Stream} {t : Token} : (∀ g ∈ m.greatest, taken.length < g) → ts[i + taken.length]? = some t →
      m.accepts t = true → Collects m ts i (taken ++ [t]) last → Collects m ts i taken last

/-- What is taken may still be taken with one token more. -/
theorem MayTake.next (h : m.MayTake (ts.drop i) taken) (hroom : ∀ g ∈ m.greatest, taken.length < g)
    (ht : ts[i + taken.length]? = some t) (ha : m.accepts t = true) : m.MayTake (ts.drop i) (taken ++ [t]) := by
  refine ⟨?_, List.forall_mem_append.mpr ⟨h.accepted, List.forall_mem_singleton.mpr ha⟩, fun g hg => ?_⟩
  · obtain ⟨rest, hrest⟩ := h.isPrefix
    rw [← List.getElem?_drop, ← hrest, List.getElem?_append_right (Nat.le_refl _), Nat.sub_self] at ht
    cases rest with
    | nil => cases ht
    | cons u rest =>
      obtain rfl := Option.some.inj ht
      exact ⟨rest, by rw [← hrest, List.append_assoc, List.singleton_append]⟩
  · rw [List.length_append, List.length_singleton]
    exact hroom g hg

/-- Where taking tokens ends, the longest prefix is taken. -/
theorem Collects.isLongest (h : m.Collects ts i taken last) (hmay : m.MayTake (ts.drop i) taken) :
    m.IsLongest (ts.drop i) last := by
  induction h with
  | full hfull => exact hmay.isLongest (Or.inl hfull)
  | refused hrefused =>
    refine hmay.isLongest (Or.inr ?_)
    rwa [acceptsAt, List.getElem?_drop]
  | next hroom ht ha _ ih => exact ih (hmay.next hroom ht ha)

/-- Taking tokens ends, as each of them brings the next place closer to the end of the stream. -/
theorem exists_collects (m : Matcher) (ts : Stream) (i : Nat) (taken : Stream) : ∃ last, m.Collects ts i taken last := by
  induction hn : ts.length - (i + taken.length) using Nat.strongRecOn generalizing taken with
  | ind n ih =>
    by_cases hfull : ∃ g ∈ m.greatest, g ≤ taken.length
    · exact ⟨taken, .full hfull⟩
    cases haccepted : m.acceptsAt ts (i + taken.length) with
    | false => exact ⟨taken, .refused haccepted⟩
    | true =>
      obtain ⟨t, ht, ha⟩ := acceptsAt_iff.mp haccepted
      have hroom : ∀ g ∈ m.greatest, taken.length < g := fun g hg => Nat.lt_of_not_le fun hle => hfull ⟨g, hg, hle⟩
      have hinside := (List.getElem?_eq_some_iff.mp ht).1
      obtain ⟨last, hlast⟩ := ih (ts.length - (i + (taken ++ [t]).length))
        (by rw [List.length_append, List.length_singleton]; omega) (taken ++ [t]) rfl
      exact ⟨last, .next hroom ht ha hlast⟩

/-! ### The longest run -/

/-- At a position a matcher takes the longest prefix of what stands there that it accepts and that is within its greatest
    number. This is a match exactly if the number lies between the least and the greatest one. Tokens taken one by one
    come to an end, and to this one. What an inverted matcher accepts at a place with a token is what the matcher refuses
    there; at a place behind the end neither accepts anything. -/
theorem tryAt_longest (m : Matcher) (ts : Stream) (i : Nat) :
    (∀ taken, (m.tryAt ts i).2 = taken ↔
      m.MayTake (ts.drop i) taken ∧ ∀ other, m.MayTake (ts.drop i) other → other.length ≤ taken.length) ∧
    ((m.tryAt ts i).1 = true ↔
      m.least ≤ (m.tryAt ts i).2.length ∧ ∀ g ∈ m.greatest, (m.tryAt ts i).2.length ≤ g) ∧
    (∀ taken, m.Collects ts i [] taken ↔ (m.tryAt ts i).2 = taken) ∧
    (∀ j < ts.length, m.invert.acceptsAt ts j = !m.acceptsAt ts j) ∧
    ∀ j, ts.length ≤ j → m.acceptsAt ts j = false ∧ m.invert.acceptsAt ts j = false := by
  have hposition : ¬ (i : Int) < 0 := by omega
  have htry : m.tryAt ts i = (m.admits (m.run (ts.drop i)).length, m.run (ts.drop i)) := by
    simp only [tryAt, if_neg hposition, Int.toNat_natCast]
  have hlongest := m.isLongest_run (ts.drop i)
  have hempty : m.MayTake (ts.drop i) [] := ⟨List.nil_prefix, by simp, by simp⟩
  rw [htry]
  refine ⟨fun taken => ?longest, ?matched, fun taken => ?collected, fun j => acceptsAt_invert,
    fun j hj => ⟨acceptsAt_of_length_le hj, acceptsAt_of_length_le hj⟩⟩
  case longest =>
    constructor
    · rintro rfl
      exact hlongest
    · exact fun h => hlongest.unique h
  case matched =>
    rw [admits, Bool.and_eq_true, decide_eq_true_iff]
    cases m.greatest <;> simp
  case collected =>
    constructor
    · exact fun h => hlongest.unique (h.isLongest hempty)
    · rintro rfl
      obtain ⟨last, hlast⟩ := m.exists_collects ts i []
      rwa [hlongest.unique (hlast.isLongest hempty)]

/-- In `(1 + 2)` all tokens up to the closing bracket are taken one by one. -/
theorem tryAt_longest_inverted :
    let close : Matcher := of .grouping ["close"]
    let m : Matcher := close.invert.plus
    let inside : Stream := [⟨.numeric, .int 1⟩, ⟨.operator, .text "add"⟩, ⟨.numeric, .int 2⟩]
    let s : Stream := ⟨.grouping, .text "open"⟩ :: (inside ++ [⟨.grouping, .text "close"⟩])
    (m.tryAt s (1 : Nat)).2 = inside ∧ (m.tryAt s (1 : Nat)).1 = true ∧
      4 < s.length ∧ close.acceptsAt s 4 = true ∧ close.invert.acceptsAt s 4 = false ∧
      s.length ≤ 5 ∧ close.invert.acceptsAt s 5 = false := by
  intro close m inside s
  obtain ⟨-, hmatch, hcollects, -, -⟩ := tryAt_longest m s 1
  obtain ⟨-, -, -, hinvert, hbehind⟩ := tryAt_longest close s 1
  have htaken : (m.tryAt s (1 : Nat)).2 = inside := (hcollects inside).mp
    (.next nofun rfl (by decide) (.next nofun rfl (by decide) (.next nofun rfl (by decide) (.refused (by decide)))))
  have hlength : 4 < s.length := by decide
  have hclose : close.acceptsAt s 4 = true := by decide
  refine ⟨htaken, hmatch.mpr ⟨by rw [htaken]; decide, nofun⟩, hlength, hclose, ?_, by decide, (hbehind 5 (by decide)).2⟩
  rw [hinvert 4 hlength, hclose]
  rfl

end Reckoner.Matcher
