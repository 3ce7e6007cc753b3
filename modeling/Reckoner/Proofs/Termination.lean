import Reckoner.Proofs.Progress

/-!
# Reductions under standard tables end

Each contraction of a level lowers the potential of its stream, and the nested reductions get proper parts of
the spans. So the potential of a stream bounds the contractions of its level (`Engine.loop_count`), a level
that is given as many rounds is never stopped (`Engine.loop_ne_endless`), and more rounds change nothing
(`Engine.loop_congr`).
-/

namespace Reckoner

/-! ### Reports -/

namespace Traced

theorem contractionsOf_append : ∀ (xs ys : List Event), contractionsOf (xs ++ ys) = contractionsOf xs ++ contractionsOf ys
  | [], _ => rfl
  | .begun :: xs, ys => contractionsOf_append xs ys
  | .done c :: xs, ys => congrArg (c :: ·) (contractionsOf_append xs ys)

theorem mem_contractionsOf {c : Contraction} : ∀ {evs : List Event}, c ∈ contractionsOf evs ↔ .done c ∈ evs
  | [] => by simp [contractionsOf]
  | .begun :: evs => by simp [contractionsOf, mem_contractionsOf]
  | .done c' :: evs => by simp [contractionsOf, mem_contractionsOf]

/-- What comes behind a failed computation does not matter. -/
theorem bind_congr {α β : Type} {x : Traced α} {f g : α → Traced β} (h : ∀ a, x.outcome = .ok a → f a = g a) :
    x >>= f = x >>= g := by
  show andThen x f = andThen x g
  unfold andThen
  split
  · rename_i a ha
    rw [h a ha]
  · rfl

end Traced

/-! ### Nested reductions get proper parts of the span -/

namespace Replacement
variable {settings : Settings} {table : RuleTable} {n₁ n₂ : Stream → Traced Token} {action : Action} {span : Stream}

theorem ofAction_congr (hspan : 2 ≤ span.length)
    (h : ∀ u : Stream, u <:+: span → u.length + 2 ≤ span.length → n₁ u = n₂ u) :
    ofAction settings n₁ table action span = ofAction settings n₂ table action span := by
  cases action with
  | call name => rfl
  | step step =>
    exact ofStep_congr fun u hu => h u (issued_isInfix hspan hu).1 (issued_isInfix hspan hu).2

theorem mem_events_ofAction {nested : Stream → Traced Token} {ev : Event}
    (h : ev ∈ (ofAction settings nested table action span).events) : ∃ u, ev ∈ (nested u).events := by
  cases action with
  | call name => cases h
  | step step =>
    obtain ⟨u, -, hu⟩ := mem_events h
    exact ⟨u, hu⟩

end Replacement

namespace Engine
variable {e : Engine} {n₁ n₂ nested : Stream → Traced Token} {depth : Int} {action : Action}
  {pre span post s : Stream} {rounds : Nat} {r : Rule} {k : Nat}

theorem contract_eq_of_ofAction (h : Replacement.ofAction e.settings n₁ e.table action span =
      Replacement.ofAction e.settings n₂ e.table action span) :
    e.contract n₁ (pre ++ (span ++ post)) pre.length span.length action =
      e.contract n₂ (pre ++ (span ++ post)) pre.length span.length action := by
  cases hout : (Replacement.ofAction e.settings n₁ e.table action span).outcome with
  | error f => rw [contract_of_error e n₁ action hout, contract_of_error e n₂ action (h ▸ hout), h]
  | ok new => rw [contract_of_ok e n₁ action hout, contract_of_ok e n₂ action (h ▸ hout), h]

theorem contract_congr (hspan : 2 ≤ span.length)
    (h : ∀ u : Stream, u <:+: span → u.length + 2 ≤ span.length → n₁ u = n₂ u) :
    e.contract n₁ (pre ++ (span ++ post)) pre.length span.length action =
      e.contract n₂ (pre ++ (span ++ post)) pre.length span.length action :=
  contract_eq_of_ofAction (Replacement.ofAction_congr hspan h)

/-! ### One round of a level -/

theorem loop_nil : e.loop nested depth rounds [] = .fail .indexOutOfRange := by
  cases rounds <;> rfl

theorem loop_single (t : Token) : e.loop nested depth rounds [t] = pure t := by
  cases rounds <;> rfl

theorem loop_stuck (hlen : 2 ≤ s.length) (h : Rule.firstMatch? e.table.all s = none) :
    e.loop nested depth rounds s = .fail (stuck s) := by
  match s, hlen with
  | t :: u :: s, _ => cases rounds <;> simp [loop, h]

theorem loop_zero (hlen : 2 ≤ s.length) (h : Rule.firstMatch? e.table.all s = some (r, k, span)) :
    e.loop nested depth 0 s = .fail .endless := by
  match s, hlen with
  | t :: u :: s, _ => simp [loop, h]

theorem loop_match (hlen : 2 ≤ s.length) (h : Rule.firstMatch? e.table.all s = some (r, k, span)) :
    e.loop nested depth (rounds + 1) s = (do
      Traced.report .begun
      (e.contract nested s k span.length r.action).2
      Traced.report (.done ⟨r.action, depth, k, span.length, (e.contract nested s k span.length r.action).1⟩)
      e.loop nested depth rounds (e.contract nested s k span.length r.action).1) := by
  match s, hlen with
  | t :: u :: s, _ => simp [loop, h]

/-- Properties of a level follow its rounds: it ends at once, it is stuck, it is stopped, or it contracts the
    topmost match and goes on. -/
theorem loop_induction {motive : Nat → Stream → Traced Token → Prop}
    (nil : ∀ rounds, motive rounds [] (.fail .indexOutOfRange))
    (single : ∀ rounds t, motive rounds [t] (pure t))
    (stuck : ∀ rounds s, 2 ≤ s.length → Rule.firstMatch? e.table.all s = none → motive rounds s (.fail (stuck s)))
    (stopped : ∀ s found, 2 ≤ s.length → Rule.firstMatch? e.table.all s = some found → motive 0 s (.fail .endless))
    (step : ∀ rounds s r k span, 2 ≤ s.length → Rule.firstMatch? e.table.all s = some (r, k, span) →
      (∀ s', motive rounds s' (e.loop nested depth rounds s')) →
      motive (rounds + 1) s (e.loop nested depth (rounds + 1) s)) :
    ∀ rounds s, motive rounds s (e.loop nested depth rounds s) := by
  intro rounds
  induction rounds with
  | zero =>
    intro s
    match s with
    | [] => exact loop_nil ▸ nil 0
    | [t] => exact loop_single t ▸ single 0 t
    | t :: u :: s =>
      have hlen : 2 ≤ (t :: u :: s).length := by simp
      cases h : Rule.firstMatch? e.table.all (t :: u :: s) with
      | none => exact loop_stuck hlen h ▸ stuck 0 _ hlen h
      | some found => exact loop_zero hlen h ▸ stopped _ _ hlen h
  | succ rounds ih =>
    intro s
    match s with
    | [] => exact loop_nil ▸ nil (rounds + 1)
    | [t] => exact loop_single t ▸ single (rounds + 1) t
    | t :: u :: s =>
      have hlen : 2 ≤ (t :: u :: s).length := by simp
      cases h : Rule.firstMatch? e.table.all (t :: u :: s) with
      | none => exact loop_stuck hlen h ▸ stuck (rounds + 1) _ hlen h
      | some found => exact step rounds _ _ _ _ hlen h ih

/-- A level goes on with what the contraction makes of the stream. -/
theorem loop_outcome (hlen : 2 ≤ s.length) (h : Rule.firstMatch? e.table.all s = some (r, k, span))
    (hs : s = pre ++ (span ++ post)) (hk : k = pre.length) :
    (e.loop nested depth (rounds + 1) s).outcome =
      (e.fire nested r.action span).bind fun new => (e.loop nested depth rounds (pre ++ (new ++ post))).outcome := by
  rw [loop_match hlen h]
  subst hs hk
  simp only [Traced.outcome_bind, Traced.outcome_report, contract_outcome]
  cases hfire : e.fire nested r.action span with
  | error f => rfl
  | ok new =>
    rw [contract_stream e nested r.action pre post hfire]
    rfl

/-- A level completes the contractions that its nested reductions report, its own one and those after it. -/
theorem loop_contractions (hlen : 2 ≤ s.length) (h : Rule.firstMatch? e.table.all s = some (r, k, span))
    (hs : s = pre ++ (span ++ post)) (hk : k = pre.length) :
    (e.loop nested depth (rounds + 1) s).contractions =
      Traced.contractionsOf (Replacement.ofAction e.settings nested e.table r.action span).events ++
        match e.fire nested r.action span with
        | .error _ => []
        | .ok new => ⟨r.action, depth, k, span.length, pre ++ (new ++ post)⟩ ::
          (e.loop nested depth rounds (pre ++ (new ++ post))).contractions := by
  rw [loop_match hlen h]
  subst hs hk
  have hout := e.contract_outcome nested r.action pre span post
  have hev := e.contract_events nested r.action pre span post
  cases hfire : e.fire nested r.action span with
  | error f =>
    rw [hfire] at hout
    simp only [Traced.contractions, bind, Traced.andThen, Traced.report, hout, Except.map, hev,
      Traced.contractionsOf_append, Traced.contractionsOf, List.nil_append]
    simp
  | ok new =>
    rw [hfire] at hout
    rw [contract_stream e nested r.action pre post hfire]
    simp only [Traced.contractions, bind, Traced.andThen, Traced.report, hout, Except.map, hev,
      Traced.contractionsOf_append, Traced.contractionsOf, List.nil_append]
    rfl

theorem fire_ne_endless (hbody : ∀ f ∈ e.table.functions.functions, ∀ vs, f.body.run vs ≠ .error .endless)
    (hspan : 2 ≤ span.length) (hn : ∀ u : Stream, u <:+: span → (nested u).outcome ≠ .error .endless) :
    e.fire nested action span ≠ .error .endless := by
  intro h
  rcases Outcome.bind_eq_error h with h | ⟨new, -, h⟩
  · cases action with
    | call name =>
      rcases Replacement.ofCall_error (Outcome.map_eq_error h) with hunknown | ⟨g, hg, hrun⟩
      · cases hunknown
      · exact hbody g (List.mem_of_find?_eq_some hg) _ hrun
    | step step =>
      cases Replacement.ofStep_error h with
      | ordinary hord => exact hord.2 rfl
      | operator _ _ hnamed =>
        rcases Replacement.named_error hnamed with hord | ⟨name, hname⟩
        · exact hord.2 rfl
        · cases hname
      | nested hu hout => exact hn _ (Replacement.issued_isInfix hspan hu).1 hout
  · split at h <;> cases h

/-- What holds of the depth of a level and of those of its nested reductions holds of all contractions that it
    reports. -/
theorem forall_depth_of_mem_loop {P : Int → Prop} (hdepth : P depth) (hn : ∀ u, ∀ c ∈ (nested u).contractions, P c.depth)
    (rounds : Nat) (s : Stream) : ∀ c ∈ (e.loop nested depth rounds s).contractions, P c.depth := by
  refine loop_induction (motive := fun _ _ x => ∀ c ∈ x.contractions, P c.depth)
    ?nil ?single ?stuck ?stopped ?step rounds s
  case nil | single | stuck | stopped =>
    intros
    contradiction
  case step =>
    intro rounds s r k span hlen h ih c hc
    obtain ⟨above, below, -, -, hfind⟩ := Rule.firstMatch?_some h
    obtain ⟨pre, post, hs, hk, -⟩ := Pattern.foundAt_of_find? hfind
    rw [loop_contractions hlen h hs hk] at hc
    rcases List.mem_append.mp hc with hc | hc
    · obtain ⟨u, hu⟩ := Replacement.mem_events_ofAction (Traced.mem_contractionsOf.mp hc)
      exact hn u c (Traced.mem_contractionsOf.mpr hu)
    · split at hc
      · cases hc
      · rcases List.mem_cons.mp hc with rfl | hc
        · exact hdepth
        · exact ih _ c hc

theorem le_depth_of_mem_loop (hn : ∀ u, ∀ c ∈ (nested u).contractions, depth < c.depth) (rounds : Nat) (s : Stream) :
    ∀ c ∈ (e.loop nested depth rounds s).contractions, depth ≤ c.depth :=
  forall_depth_of_mem_loop (P := (depth ≤ ·)) (Int.le_refl _) (fun u c hc => Int.le_of_lt (hn u c hc)) rounds s

/-! ### Standard tables -/

section Standard
variable (ht : e.table.IsStandard)
include ht

/-- What the topmost match does: it takes a reducible span, and completing it lowers the potential. -/
theorem match_lowers (h : Rule.firstMatch? e.table.all s = some (r, k, span)) :
    ∃ pre post, s = pre ++ (span ++ post) ∧ k = pre.length ∧ 2 ≤ span.length ∧
      ∀ nested new, e.fire nested r.action span = .ok new →
        pre ++ (new ++ post) ≠ [] ∧ Stream.potential (pre ++ (new ++ post)) < Stream.potential s := by
  obtain ⟨pre, post, rfl, hk, hred⟩ := ht.taken h
  refine ⟨pre, post, rfl, hk, hred.two_le, fun nested new hfire => ?_⟩
  obtain ⟨hne, hlt⟩ := hred.potential_lt (e.ofAction_of_fire nested r.action hfire).1 pre post
  exact ⟨by simp [hne], hlt⟩

/-- The contractions of a level itself are fewer than the potential of its stream. -/
theorem loop_count (hn : ∀ u, ∀ c ∈ (nested u).contractions, depth < c.depth) (rounds : Nat) (s : Stream) :
    ((e.loop nested depth rounds s).contractions.filter (·.depth == depth)).length + 1 ≤ max 1 s.potential := by
  refine loop_induction (motive := fun _ s x => (x.contractions.filter (·.depth == depth)).length + 1 ≤ max 1 s.potential)
    ?nil ?single ?stuck ?stopped ?step rounds s
  case nil | single | stuck | stopped =>
    intros
    exact Nat.le_max_left ..
  case step =>
    intro rounds s r k span hlen h ih
    obtain ⟨pre, post, hs, hk, -, hlower⟩ := match_lowers ht h
    -- Nothing that a nested reduction reports belongs to this level.
    have hnested : (Traced.contractionsOf (Replacement.ofAction e.settings nested e.table r.action span).events).filter
        (·.depth == depth) = [] := by
      rw [List.filter_eq_nil_iff]
      intro c hc
      obtain ⟨v, hv⟩ := Replacement.mem_events_ofAction (Traced.mem_contractionsOf.mp hc)
      have := hn v c (Traced.mem_contractionsOf.mpr hv)
      simp only [beq_iff_eq]
      omega
    rw [loop_contractions hlen h hs hk, List.filter_append, hnested, List.nil_append]
    cases hfire : e.fire nested r.action span with
    | error f => exact Nat.le_max_left ..
    | ok new =>
      obtain ⟨hne, hlt⟩ := hlower nested new hfire
      have hpos := List.length_pos_iff.mpr hne
      have hle := Stream.length_le_potential (pre ++ (new ++ post))
      have := ih (pre ++ (new ++ post))
      simp only [List.filter_cons, beq_self_eq_true, if_true, List.length_cons]
      omega

/-- A level is not stopped if it has as many rounds as the potential of its stream asks for. -/
theorem loop_ne_endless (hbody : ∀ f ∈ e.table.functions.functions, ∀ vs, f.body.run vs ≠ .error .endless)
    (rounds : Nat) (s : Stream) (hpot : s.potential ≤ rounds + 1)
    (hn : ∀ u : Stream, u.potential ≤ s.potential → (nested u).outcome ≠ .error .endless) :
    (e.loop nested depth rounds s).outcome ≠ .error .endless := by
  refine loop_induction (motive := fun rounds s x => s.potential ≤ rounds + 1 →
    (∀ u : Stream, u.potential ≤ s.potential → (nested u).outcome ≠ .error .endless) → x.outcome ≠ .error .endless)
    ?nil ?single ?stuck ?stopped ?step rounds s hpot hn
  case nil | single =>
    intros
    simp
  case stuck =>
    intro _ s _ _ _ _
    rw [Engine.stuck]
    split <;> simp
  case stopped =>
    -- Two tokens have a potential of two at least, so that a round is left.
    intro s _ hlen _ hpot _
    have := Stream.length_le_potential s
    omega
  case step =>
    intro rounds s r k span hlen h ih hpot hn
    obtain ⟨pre, post, hs, hk, hspan, hlower⟩ := match_lowers ht h
    rw [loop_outcome hlen h hs hk]
    cases hfire : e.fire nested r.action span with
    | ok new =>
      obtain ⟨-, hlt⟩ := hlower nested new hfire
      exact ih _ (by omega) fun v hv => hn v (by omega)
    | error f =>
      have hin : span <:+: s := ⟨pre, post, by rw [hs, List.append_assoc]⟩
      have hne : f ≠ .endless := fun hf => fire_ne_endless hbody hspan
        (fun u hu => hn u (Stream.potential_of_isInfix (hu.trans hin))) (hf ▸ hfire)
      exact fun hend => hne (Except.error.inj hend)

/-- More rounds than the potential asks for change nothing. -/
theorem loop_congr (rounds : Nat) (s : Stream) : ∀ rounds' : Nat, s.potential ≤ rounds + 1 → s.potential ≤ rounds' + 1 →
    (∀ u : Stream, u.potential ≤ s.potential → n₁ u = n₂ u) →
    e.loop n₁ depth rounds s = e.loop n₂ depth rounds' s := by
  refine loop_induction (motive := fun rounds s x => ∀ rounds' : Nat, s.potential ≤ rounds + 1 →
    s.potential ≤ rounds' + 1 → (∀ u : Stream, u.potential ≤ s.potential → n₁ u = n₂ u) →
    x = e.loop n₂ depth rounds' s) ?nil ?single ?stuck ?stopped ?step rounds s
  case nil => exact fun _ _ _ _ _ => loop_nil.symm
  case single => exact fun _ t _ _ _ _ => (loop_single t).symm
  case stuck => exact fun _ _ hlen h _ _ _ _ => (loop_stuck hlen h).symm
  case stopped =>
    intro s _ hlen _ _ hpot _ _
    have := Stream.length_le_potential s
    omega
  case step =>
    intro rounds s r k span hlen h ih rounds' hpot hpot' hn
    obtain ⟨pre, post, hs, hk, hspan, hlower⟩ := match_lowers ht h
    have hin : span <:+: s := ⟨pre, post, by rw [hs, List.append_assoc]⟩
    have hsame : e.contract n₁ s k span.length r.action = e.contract n₂ s k span.length r.action := by
      rw [hs, hk]
      exact contract_congr hspan fun u hu _ => hn u (Stream.potential_of_isInfix (hu.trans hin))
    obtain ⟨rounds', rfl⟩ : ∃ n, rounds' = n + 1 := by
      have := Stream.length_le_potential s
      exact ⟨rounds' - 1, by omega⟩
    rw [loop_match hlen h, loop_match hlen h, hsame]
    refine Traced.bind_congr fun _ _ => Traced.bind_congr fun _ hdone => Traced.bind_congr fun _ _ => ?_
    rw [hs, hk, contract_outcome] at hdone
    obtain ⟨new, hfire, -⟩ := Outcome.map_eq_ok hdone
    obtain ⟨-, hlt⟩ := hlower n₂ new hfire
    rw [hs, hk, contract_stream e n₂ r.action pre post hfire]
    exact ih _ rounds' (by omega) (by omega) fun u hu => hn u (by omega)

end Standard

/-! ### All levels -/

/-- The contractions that a reduction reports are at its depth or below. -/
theorem le_depth_of_mem (rounds : Nat) : ∀ (levels : Nat) (depth : Int) (s : Stream),
    ∀ c ∈ (e.reduceWithin rounds levels depth s).contractions, depth ≤ c.depth := by
  intro levels
  induction levels with
  | zero => intro depth s c hc; cases hc
  | succ levels ih =>
    intro depth s
    have hn : ∀ u, ∀ c ∈ (e.reduceWithin rounds levels (depth + 1) u).contractions, depth < c.depth := fun u c hc => by
      have := ih (depth + 1) u c hc
      omega
    show ∀ c ∈ (e.loop (e.reduceWithin rounds levels (depth + 1)) depth rounds (e.entry s)).contractions, depth ≤ c.depth
    exact le_depth_of_mem_loop hn rounds (e.entry s)

theorem lt_depth_of_mem (rounds levels : Nat) (depth : Int) :
    ∀ u, ∀ c ∈ (e.reduceWithin rounds levels (depth + 1) u).contractions, depth < c.depth :=
  fun u c hc => Int.lt_of_add_one_le (le_depth_of_mem rounds levels (depth + 1) u c hc)

theorem potential_entry_le {n : Nat} (h : s.potential ≤ n + 1) : (e.entry s).potential ≤ n + 1 := by
  unfold entry
  split
  · simp only [Stream.potential, Stream.weight_cons, Stream.weight_nil, Category.weight, Scan.count, Scan.completed]
    simp
  · exact h

/-- A reduction is not stopped if it has as many rounds as the potential of its stream asks for. -/
theorem reduceWithin_ne_endless (ht : e.table.IsStandard)
    (hbody : ∀ f ∈ e.table.functions.functions, ∀ vs, f.body.run vs ≠ .error .endless) {rounds : Nat} :
    ∀ (levels : Nat) (depth : Int) (s : Stream), s.potential ≤ rounds + 1 →
      (e.reduceWithin rounds levels depth s).outcome ≠ .error .endless := by
  intro levels
  induction levels with
  | zero => intro depth s _ h; cases h
  | succ levels ih =>
    intro depth s hpot
    have hentry := potential_entry_le (e := e) hpot
    exact loop_ne_endless ht hbody rounds _ hentry fun u hu => ih (depth + 1) u (by omega)

/-- More rounds than the potential asks for change nothing on any level. -/
theorem reduceWithin_congr (ht : e.table.IsStandard) {rounds rounds' : Nat} :
    ∀ (levels : Nat) (depth : Int) (s : Stream), s.potential ≤ rounds + 1 → s.potential ≤ rounds' + 1 →
      e.reduceWithin rounds levels depth s = e.reduceWithin rounds' levels depth s := by
  intro levels
  induction levels with
  | zero => exact fun _ _ _ _ => rfl
  | succ levels ih =>
    intro depth s hpot hpot'
    have hentry := potential_entry_le (e := e) hpot
    have hentry' := potential_entry_le (e := e) hpot'
    exact loop_congr ht rounds _ rounds' hentry hentry' fun u hu => ih (depth + 1) u (by omega) (by omega)

/-- The contractions of the first level of a reduction are fewer than the potential of its stream. -/
theorem reduceWithin_count (ht : e.table.IsStandard) (rounds levels : Nat) (depth : Int) (s : Stream) :
    ((e.reduceWithin rounds levels depth s).contractions.filter (·.depth == depth)).length + 1 ≤
      max 1 (e.entry s).potential := by
  cases levels with
  | zero => exact Nat.le_max_left ..
  | succ levels => exact loop_count ht (lt_depth_of_mem rounds levels depth) rounds (e.entry s)

theorem potential_le_square (s : Stream) : max 1 s.potential ≤ (2 * s.length + 1) * (s.length + 1) := by
  have hle := s.potential_le
  have hsq : s.length ≤ s.length * s.length := by
    rcases Nat.eq_zero_or_pos s.length with h | h
    · simp [h]
    · exact Nat.le_mul_of_pos_left _ h
  have hbound : (2 * s.length + 1) * (s.length + 1) = 2 * (s.length * s.length) + 3 * s.length + 1 := by
    simp only [Nat.mul_add, Nat.add_mul, Nat.mul_assoc]
    omega
  omega

/-- Reductions under the standard rules and any user functions end. The completed contractions of a level are
    fewer than a square of the length of its stream, so that one more that fails is within it, too. A
    contraction uses nested reductions only on shorter streams. And a reduction with no limit of rounds, or a
    limit no lower than the square, gives a token or a failure other than having been stopped. -/
theorem reduce_terminates {fs : List UserFunction} {table : RuleTable} (hadd : fs.foldlM RuleTable.add {} = .ok table)
    (hbody : ∀ f ∈ fs, ∀ vs, f.body.run vs ≠ .error .endless) (settings : Settings) (limit : Int)
    (rounds : Option Nat) (depth : Int) (ts : Stream) :
    (((Engine.reduce ⟨table, settings, limit, rounds⟩ depth ts).contractions.filter (·.depth == depth)).length <
      (2 * ts.length + 1) * (ts.length + 1)) ∧
    (∀ (us span : Stream) (r : Rule) (k : Nat), Rule.firstMatch? table.all us = some (r, k, span) →
      ∀ n₁ n₂ : Stream → Traced Token, (∀ u : Stream, u.length < us.length → n₁ u = n₂ u) →
        Engine.contract ⟨table, settings, limit, rounds⟩ n₁ us k span.length r.action =
          Engine.contract ⟨table, settings, limit, rounds⟩ n₂ us k span.length r.action) ∧
    ((∀ n ∈ rounds, (2 * ts.length + 1) * (ts.length + 1) ≤ n) →
      (∃ t, (Engine.reduce ⟨table, settings, limit, rounds⟩ depth ts).outcome = .ok t) ∨
        ∃ f, f ≠ .endless ∧ (Engine.reduce ⟨table, settings, limit, rounds⟩ depth ts).outcome = .error f) := by
  have ht : table.IsStandard := RuleTable.isStandard_default.foldlM hadd
  have hregistered : ∀ f ∈ table.functions.functions, ∀ vs, f.body.run vs ≠ .error .endless := fun f hf =>
    (RuleTable.mem_functions_of_foldlM hadd hf).elim (hbody f) (fun h => absurd h List.not_mem_nil)
  have hsquare := potential_le_square ts
  refine ⟨?_, ?_, ?_⟩
  · have hentry := @potential_entry_le ⟨table, settings, limit, rounds⟩ ts (ts.potential - 1) (by omega)
    have hcount := @reduceWithin_count ⟨table, settings, limit, rounds⟩ ht (rounds.getD (patience ts.length))
      (levels ⟨table, settings, limit, rounds⟩ depth) depth ts
    exact Nat.lt_of_succ_le (Nat.le_trans hcount (by omega))
  · intro us span r k h n₁ n₂ hn
    obtain ⟨pre, post, rfl, rfl, hspan, -⟩ := @match_lowers ⟨table, settings, limit, rounds⟩ _ _ _ _ ht h
    refine contract_congr hspan fun u _ hlen => hn u ?_
    simp only [List.length_append]
    omega
  · intro hrounds
    have hpot : ts.potential ≤ rounds.getD (patience ts.length) + 1 := by
      cases rounds with
      | none =>
        simp only [Option.getD_none, patience]
        omega
      | some n =>
        have := hrounds n rfl
        simp only [Option.getD_some]
        omega
    have hne := @reduceWithin_ne_endless ⟨table, settings, limit, rounds⟩ ht hregistered _
      (levels ⟨table, settings, limit, rounds⟩ depth) depth ts hpot
    cases hout : (Engine.reduce ⟨table, settings, limit, rounds⟩ depth ts).outcome with
    | ok t => exact Or.inl ⟨t, rfl⟩
    | error f => exact Or.inr ⟨f, fun hf => hne (hf ▸ hout), rfl⟩

/-- A range under a table with a function of one number. -/
theorem reduce_terminates_range :
    ∃ (f : UserFunction) (table : RuleTable), [f].foldlM RuleTable.add {} = .ok table ∧
      (∀ g ∈ [f], ∀ vs, g.body.run vs ≠ .error .endless) ∧
      ((Engine.reduce ⟨table, {}, 64, some 66⟩ 0 [⟨.numeric, .int 1⟩, ⟨.comparator, .text "lt"⟩, ⟨.numeric, .int 2⟩,
        ⟨.comparator, .text "lt"⟩, ⟨.numeric, .int 3⟩]).contractions.filter (·.depth == 0)).length < 66 := by
  let f := UserFunction.make "double" .numeric [.category .numeric] ⟨"double", fun vs =>
    (vs.headD (.int 0)).mul (.int 2)⟩
  have hbody : ∀ g ∈ [f], ∀ vs, g.body.run vs ≠ .error .endless := by
    intro g hg vs
    rw [List.mem_singleton.mp hg]
    exact fun h => (Value.isOrdinary_mul _ (.int 2) _ h).2 rfl
  exact ⟨f, _, rfl, hbody, (reduce_terminates rfl hbody {} 64 (some 66) 0 _).1⟩

end Engine
end Reckoner
