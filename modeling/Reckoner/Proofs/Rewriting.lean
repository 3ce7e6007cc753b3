import Reckoner.Proofs.Leftmost
import Reckoner.Proofs.Lines

/-!
# Reduction is leftmost rewriting by the order of the table

Whatever the table, a level rewrites its stream at the leftmost match of the first rule that matches anywhere,
again and again (`Engine.Rewrites`). It gives a token when one is left, and it fails when no rule of the table matches
what is left, when a contraction fails, or when it has used up its rounds (`Engine.reduce_leftmost`).
-/

namespace Reckoner

/-! ### No contraction removes all tokens -/

namespace Replacement
variable {settings : Settings} {table : RuleTable} {nested : Stream → Traced Token} {step : Step} {action : Action}
  {span new : Stream}

theorem ofStep_ne_nil (h : (ofStep settings nested step span).outcome = .ok new) : new ≠ [] := by
  cases step with
  | apply =>
    simp only [ofStep, Traced.outcome_ofOutcome, apply] at h
    split at h
    · obtain ⟨op, -, h⟩ := Outcome.bind_eq_ok h
      obtain ⟨t, -, h⟩ := Outcome.bind_eq_ok h
      simp [← Except.ok.inj h]
    · cases h
  | negate =>
    simp only [ofStep, Traced.outcome_ofOutcome, negate] at h
    split at h
    · obtain ⟨v, -, rfl⟩ := Outcome.map_eq_ok h
      simp
    · cases h
  | powNegate =>
    simp only [ofStep, Traced.outcome_ofOutcome, powNegate] at h
    split at h
    · obtain ⟨x, -, h⟩ := Outcome.bind_eq_ok h
      obtain ⟨v, -, h⟩ := Outcome.bind_eq_ok h
      simp [← Except.ok.inj h]
    · cases h
  | mulNegate =>
    simp only [ofStep, Traced.outcome_ofOutcome, mulNegate] at h
    split at h
    · obtain ⟨p, -, h⟩ := Outcome.bind_eq_ok h
      obtain ⟨v, -, h⟩ := Outcome.bind_eq_ok h
      simp [← Except.ok.inj h]
    · cases h
  | percentage =>
    simp only [ofStep, Traced.outcome_ofOutcome, percentage] at h
    split at h
    · obtain ⟨v, -, rfl⟩ := Outcome.map_eq_ok h
      simp
    · cases h
  | expandRange =>
    simp only [ofStep, Traced.outcome_ofOutcome, expandRange] at h
    split at h
    · simp [← Except.ok.inj h]
    · cases h
  | choose =>
    simp only [ofStep, Traced.outcome_ofOutcome, choose] at h
    split at h
    · simp [← Except.ok.inj h]
    · cases h
  | evaluateGroup =>
    simp only [ofStep, evaluateGroup, Traced.outcome_bind] at h
    obtain ⟨t, -, h⟩ := Outcome.bind_eq_ok h
    simp [← Except.ok.inj h]
  | round | roundInt | not =>
    obtain ⟨t, rfl, -⟩ := category_of_call (by simp) h
    simp

theorem ofAction_ne_nil (h : (ofAction settings nested table action span).outcome = .ok new) : new ≠ [] := by
  cases action with
  | call name =>
    obtain ⟨t, -, rfl⟩ := Outcome.map_eq_ok h
    simp
  | step step => exact ofStep_ne_nil h

end Replacement

/-! ### Rewriting -/

namespace Stream

/-- The tokens at a position of a stream, so many of them. -/
def segment (ts : Stream) (i k : Nat) : Stream := (ts.drop i).take k

/-- The stream with other tokens in place of a segment. -/
def spliced (ts : Stream) (i k : Nat) (new : Stream) : Stream := ts.take i ++ (new ++ ts.drop (i + k))

variable {ts : Stream} {i k : Nat}

theorem split_segment (ts : Stream) (i k : Nat) : ts = ts.take i ++ (ts.segment i k ++ ts.drop (i + k)) := by
  rw [segment, ← List.drop_drop, List.take_append_drop, List.take_append_drop]

theorem length_segment (h : i + k ≤ ts.length) : (ts.segment i k).length = k := by
  rw [segment, List.length_take, List.length_drop]
  omega

end Stream

/-- Where a pattern occurs, the segment falls into blocks by it. -/
theorem Pattern.OccursAt.parses {p : Pattern} {ts : Stream} {i k : Nat} (h : p.OccursAt ts i k) :
    p.Parses (ts.segment i k) :=
  (parses_of_prefix? (prefix?_eq_some_iff.mpr ⟨k, h.here, rfl⟩)).1

namespace Engine
variable {e : Engine} {nested : Stream → Traced Token} {depth : Int} {s last : Stream} {cs : List Contraction}
  {r : Rule} {i k : Nat} {o : Outcome Token}

/-- The contractions that lead from a stream to another one. Each takes the segment at which the leading rule of the
    table occurs, and puts what the rule gives for it in its place. -/
inductive Rewrites (e : Engine) (nested : Stream → Traced Token) (depth : Int) :
    Stream → List Contraction → Stream → Prop where
  | refl (s : Stream) : Rewrites e nested depth s [] s
  | step {s last new : Stream} {r : Rule} {i k : Nat} {cs : List Contraction} : 2 ≤ s.length →
      Rule.Leads e.table.all s r i k → i + k ≤ s.length → e.fire nested r.action (s.segment i k) = .ok new →
      Rewrites e nested depth (s.spliced i k new) cs last →
      Rewrites e nested depth s (⟨r.action, depth, i, k, s.spliced i k new⟩ :: cs) last

/-- How a level ends that has so many rounds left. -/
inductive Ends (e : Engine) (nested : Stream → Traced Token) (left : Nat) : Stream → Outcome Token → Prop where
  | single (t : Token) : Ends e nested left [t] (.ok t)
  | stuck {s : Stream} : 2 ≤ s.length → (∀ r ∈ e.table.all, ∀ i k, ¬ r.pattern.OccursAt s i k) →
      Ends e nested left s (.error (stuck s))
  | broken {s : Stream} {r : Rule} {i k : Nat} {f : Failure} : 2 ≤ s.length → Rule.Leads e.table.all s r i k →
      e.fire nested r.action (s.segment i k) = .error f → Ends e nested left s (.error f)
  | stopped {s : Stream} {r : Rule} {i k : Nat} : 2 ≤ s.length → Rule.Leads e.table.all s r i k → left = 0 →
      Ends e nested left s (.error .endless)

/-- A level rewrites its stream until it ends. -/
theorem loop_rewrites (hn : ∀ u, ∀ c ∈ (nested u).contractions, depth < c.depth) (rounds : Nat) (s : Stream)
    (hs : s ≠ []) : ∃ cs last, e.Rewrites nested depth s cs last ∧
      (e.loop nested depth rounds s).contractions.filter (·.depth == depth) = cs ∧
      e.Ends nested (rounds - cs.length) last (e.loop nested depth rounds s).outcome := by
  revert hs
  refine loop_induction (motive := fun rounds s x => s ≠ [] → ∃ cs last, e.Rewrites nested depth s cs last ∧
    x.contractions.filter (·.depth == depth) = cs ∧ e.Ends nested (rounds - cs.length) last x.outcome)
    ?nil ?single ?stuck ?stopped ?step rounds s
  case nil => exact fun _ hs => absurd rfl hs
  case single => exact fun _ t _ => ⟨[], [t], .refl _, rfl, .single t⟩
  case stuck => exact fun _ s hlen h _ => ⟨[], s, .refl _, rfl, .stuck hlen (Rule.firstMatch?_eq_none_iff.mp h)⟩
  case stopped =>
    rintro s ⟨r, i, taken⟩ hlen h -
    obtain ⟨k, hleads, -⟩ := Rule.firstMatch?_eq_some_iff.mp h
    exact ⟨[], s, .refl _, rfl, .stopped hlen hleads rfl⟩
  case step =>
    intro rounds s r i taken hlen h ih _
    obtain ⟨k, hleads, htaken⟩ := Rule.firstMatch?_eq_some_iff.mp h
    obtain rfl : taken = s.segment i k := htaken
    have hle := hleads.occurs.le
    have hsplit := s.split_segment i k
    have hi : i = (s.take i).length := by
      rw [List.length_take]
      omega
    -- What nested reductions report is below this level.
    have hbelow : (Traced.contractionsOf (Replacement.ofAction e.settings nested e.table r.action (s.segment i k)).events).filter
        (·.depth == depth) = [] := by
      rw [List.filter_eq_nil_iff]
      intro c hc
      obtain ⟨u, hu⟩ := Replacement.mem_events_ofAction (Traced.mem_contractionsOf.mp hc)
      have := hn u c (Traced.mem_contractionsOf.mpr hu)
      simp only [beq_iff_eq]
      omega
    have hout := @loop_outcome e nested depth _ _ _ s rounds r i hlen h hsplit hi
    have hcon := @loop_contractions e nested depth _ _ _ s rounds r i hlen h hsplit hi
    rw [hcon, hout, List.filter_append, hbelow, List.nil_append, Stream.length_segment hle]
    cases hfire : e.fire nested r.action (s.segment i k) with
    | error f => exact ⟨[], s, .refl _, rfl, .broken hlen hleads hfire⟩
    | ok new =>
      have hnew := Replacement.ofAction_ne_nil (e.ofAction_of_fire nested r.action hfire).1
      obtain ⟨cs, last, hrewrites, hcs, hends⟩ := ih (s.spliced i k new) (by simp [Stream.spliced, hnew])
      refine ⟨⟨r.action, depth, i, k, s.spliced i k new⟩ :: cs, last, .step hlen hleads hle hfire hrewrites, ?_, ?_⟩
      · rw [List.filter_cons, if_pos (by simp)]
        exact congrArg _ hcs
      · rw [List.length_cons, Nat.succ_sub_succ]
        exact hends

/-- The rounds that a reduction of a stream allows each level. -/
def roundsFor (e : Engine) (s : Stream) : Nat := e.rounds.getD (patience s.length)

/-- The reduction of nested streams, one level deeper, in the reduction of a stream. -/
def inner (e : Engine) (depth : Int) (s : Stream) : Stream → Traced Token :=
  e.reduceWithin (e.roundsFor s) (e.levels (depth + 1)) (depth + 1)

theorem reduce_eq_inner (hd : depth ≤ e.limit) (s : Stream) :
    e.reduce depth s = e.loop (e.inner depth s) depth (e.roundsFor s) (e.entry s) := by
  have hlevels : e.levels depth = e.levels (depth + 1) + 1 := by
    unfold levels
    omega
  rw [reduce, hlevels]
  rfl

theorem lt_depth_of_mem_inner (s : Stream) : ∀ u, ∀ c ∈ (e.inner depth s u).contractions, depth < c.depth :=
  lt_depth_of_mem (e.roundsFor s) (e.levels (depth + 1)) depth

theorem entry_ne_nil (e : Engine) (s : Stream) : e.entry s ≠ [] := by
  unfold entry
  split
  · simp
  · rename_i h
    simpa using h

/-- A failure that is neither the stop of a level nor an integer that is too long is one of what the leading rule does. -/
theorem Ends.action_error {left : Nat} {f : Failure} (h : e.Ends nested left s (.error f)) (hendless : f ≠ .endless)
    (hlong : f ≠ .longInteger) (hstuck : ∀ u, f ≠ .noRuleMatched u) : ∃ r i k, Rule.Leads e.table.all s r i k ∧
      (Replacement.ofAction e.settings nested e.table r.action (s.segment i k)).outcome = .error f := by
  cases h with
  | stuck =>
    by_cases hwritable : s.isWritable = true
    · exact absurd (if_pos hwritable) (hstuck s)
    · exact absurd (if_neg hwritable) hlong
  | @broken _ r i k _ _ hleads hfire =>
    rcases Outcome.bind_eq_error hfire with hout | ⟨new, -, hout⟩
    · exact ⟨r, i, k, hleads, hout⟩
    · split at hout
      · cases hout
      · exact absurd (Except.error.inj hout).symm hlong
  | stopped => exact absurd rfl hendless

theorem Ends.two_le {left : Nat} {f : Failure} (h : e.Ends nested left s (.error f)) : 2 ≤ s.length := by
  cases h <;> assumption

/-- Reduction is leftmost rewriting by the order of the table, for every table. The contractions reported for the level
    of the stream are those of a rewriting from the stream to what is left in the end. A token is given exactly if it is
    all that is left. With a failure at least two tokens are left. Then no rule occurs anywhere in them, which is the
    failure that carries them, or the contraction of the leading rule fails, or no round is left for it. -/
theorem reduce_leftmost (e : Engine) (hd : depth ≤ e.limit) (s : Stream) :
    ∃ cs last, e.Rewrites (e.inner depth s) depth (e.entry s) cs last ∧
      (e.reduce depth s).contractions.filter (·.depth == depth) = cs ∧
      (∀ t, (e.reduce depth s).outcome = .ok t ↔ last = [t]) ∧
      ∀ f, (e.reduce depth s).outcome = .error f → 2 ≤ last.length ∧
        ((f = stuck last ∧ ∀ r ∈ e.table.all, ∀ i k, ¬ r.pattern.OccursAt last i k) ∨
          (∃ r i k, Rule.Leads e.table.all last r i k ∧
            e.fire (e.inner depth s) r.action (last.segment i k) = .error f) ∨
          (f = .endless ∧ e.roundsFor s ≤ cs.length ∧ ∃ r i k, Rule.Leads e.table.all last r i k)) := by
  obtain ⟨cs, last, hrewrites, hcs, hends⟩ :=
    loop_rewrites (e := e) (lt_depth_of_mem_inner s) (e.roundsFor s) (e.entry s) (e.entry_ne_nil s)
  rw [← reduce_eq_inner hd] at hcs hends
  refine ⟨cs, last, hrewrites, hcs, fun t => ?_, fun f hf => ?_⟩
  · generalize (e.reduce depth s).outcome = o at hends
    cases hends with
    | single u =>
      constructor
      · exact fun h => by rw [Except.ok.inj h]
      · rintro h
        rw [(List.cons.inj h).1]
    | stuck hlen _ | broken hlen _ _ | stopped hlen _ _ =>
      constructor
      · intro h
        cases h
      · rintro rfl
        simp at hlen
  · rw [hf] at hends
    refine ⟨hends.two_le, ?_⟩
    cases hends with
    | stuck _ hnone => exact Or.inl ⟨rfl, hnone⟩
    | broken _ hleads hfire => exact Or.inr (Or.inl ⟨_, _, _, hleads, hfire⟩)
    | stopped _ hleads hleft => exact Or.inr (Or.inr ⟨rfl, Nat.le_of_sub_eq_zero hleft, _, _, _, hleads⟩)

/-- Under a table with sums above products the sum in `2 * 3 + 4` comes first. -/
theorem reduce_leftmost_sum_first :
    ∃ (e : Engine) (s last : Stream) (cs : List Contraction),
      e.table.rules = [⟨.sum, .step .apply⟩, ⟨.product, .step .apply⟩] ∧
      s = [⟨.numeric, .int 2⟩, ⟨.operator, .text "multiply"⟩, ⟨.numeric, .int 3⟩, ⟨.operator, .text "add"⟩,
        ⟨.numeric, .int 4⟩] ∧
      e.Rewrites (e.inner 0 s) 0 s cs last ∧ cs.map (·.start) = [2, 0] ∧ last = [.number (.int 14)] := by
  let e : Engine := { table := { rules := [⟨.sum, .step .apply⟩, ⟨.product, .step .apply⟩] } }
  let s : Stream := [⟨.numeric, .int 2⟩, ⟨.operator, .text "multiply"⟩, ⟨.numeric, .int 3⟩, ⟨.operator, .text "add"⟩,
    ⟨.numeric, .int 4⟩]
  obtain ⟨cs, last, hrewrites, hcs, htoken, -⟩ := @reduce_leftmost 0 e (by decide) s
  refine ⟨e, s, last, cs, rfl, rfl, hrewrites, ?_, (htoken _).mp ?_⟩
  · rw [← hcs]
    decide +kernel
  · exact Outcome.eq_ok_int (by decide +kernel)

end Engine
end Reckoner
