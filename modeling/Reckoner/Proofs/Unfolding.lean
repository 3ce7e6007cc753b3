import Reckoner.Proofs.Termination

/-!
# Reductions without a count of rounds

Under a standard table a reduction has rounds to spare. So its outcome unfolds along the contractions of its
stream (`Engine.reduce_match`) until one token is left, nothing matches or a step fails, and every level is
reduced like a stream of its own.
-/

namespace Reckoner.Engine
variable {e : Engine} {depth : Int} {s pre span post : Stream} {r : Rule} {k : Nat}

theorem levels_of_le (h : depth ≤ e.limit) : e.levels depth = e.levels (depth + 1) + 1 := by
  unfold levels
  omega

theorem reduce_of_limit_lt (h : e.limit < depth) (s : Stream) :
    e.reduce depth s = .fail (.tooDeeplyNested depth e.limit) := by
  have : e.levels depth = 0 := by
    unfold levels
    omega
  rw [reduce, this]
  rfl

/-- What an action puts in place of a span depends only on the outcomes of smaller reductions. -/
theorem fire_congr {n₁ n₂ : Stream → Traced Token} {action : Action} (hspan : 2 ≤ span.length)
    (h : ∀ u : Stream, u <:+: span → u.length + 2 ≤ span.length → (n₁ u).outcome = (n₂ u).outcome) :
    e.fire n₁ action span = e.fire n₂ action span := by
  unfold fire
  cases action with
  | call name => rfl
  | step step =>
    have : (Replacement.ofAction e.settings n₁ e.table (.step step) span).outcome =
        (Replacement.ofAction e.settings n₂ e.table (.step step) span).outcome :=
      Replacement.ofStep_outcome_congr fun u hu =>
        h u (Replacement.issued_isInfix hspan hu).1 (Replacement.issued_isInfix hspan hu).2
    rw [this]

section Unfolding
variable (ht : e.table.IsStandard) (hrounds : e.rounds = none) (hdepth : depth ≤ e.limit)
include ht hrounds

/-- The number of rounds does not matter as long as there are enough of them. -/
theorem reduce_eq {n : Nat} (hn : s.potential ≤ n + 1) : e.reduce depth s = e.reduceWithin n (e.levels depth) depth s := by
  have hpot := potential_le_square s
  rw [reduce, hrounds, Option.getD_none]
  refine reduceWithin_congr ht _ depth s ?_ hn
  unfold patience
  omega

include hdepth

theorem reduce_nil : (e.reduce depth []).outcome = .ok ⟨.numeric, e.settings.emptyValue⟩ := by
  rw [@reduce_eq e depth [] ht hrounds 1 (by decide), levels_of_le hdepth]
  show (e.loop _ depth 1 [⟨.numeric, e.settings.emptyValue⟩]).outcome = _
  rw [loop_single]
  rfl

/-- A stream with tokens is what its level starts with. -/
theorem reduce_eq_loop (hs : s ≠ []) {n : Nat} (hn : s.potential ≤ n + 1) :
    e.reduce depth s = e.loop (e.reduceWithin n (e.levels (depth + 1)) (depth + 1)) depth n s := by
  have hentry : e.entry s = s := by simp [entry, hs]
  rw [reduce_eq ht hrounds hn, levels_of_le hdepth, reduceWithin, hentry]

theorem reduce_single (t : Token) : (e.reduce depth [t]).outcome = .ok t := by
  rw [reduce_eq_loop ht hrounds hdepth (by simp) (Nat.le_succ _), loop_single]
  rfl

theorem reduce_stuck (hlen : 2 ≤ s.length) (h : Rule.firstMatch? e.table.all s = none) :
    (e.reduce depth s).outcome = .error (stuck s) := by
  have hs : s ≠ [] := fun h => by simp [h] at hlen
  rw [reduce_eq_loop ht hrounds hdepth hs (Nat.le_succ _), loop_stuck hlen h]
  rfl

/-- A reduction contracts the topmost match and reduces what this makes of the stream. -/
theorem reduce_match (hlen : 2 ≤ s.length) (h : Rule.firstMatch? e.table.all s = some (r, k, span))
    (hs : s = pre ++ (span ++ post)) (hk : k = pre.length) :
    (e.reduce depth s).outcome = (e.fire (e.reduce (depth + 1)) r.action span).bind fun new =>
      (e.reduce depth (pre ++ (new ++ post))).outcome := by
  obtain ⟨pre', post', hs', hk', hspan, hlower⟩ := match_lowers ht h
  have hpre : pre' = pre := List.append_inj_left (hs'.symm.trans hs) (hk'.symm.trans hk)
  subst hpre
  have hpost : post' = post := List.append_cancel_left (List.append_cancel_left (hs'.symm.trans hs))
  subst hpost
  have hne : s ≠ [] := fun h => by simp [h] at hlen
  have hpos := Stream.length_le_potential s
  obtain ⟨n, hn⟩ : ∃ n, s.potential = n + 1 := ⟨s.potential - 1, by omega⟩
  have hn' : s.potential ≤ n + 1 + 1 := by omega
  have hin : span <:+: s := ⟨pre', post', by rw [hs, List.append_assoc]⟩
  rw [reduce_eq_loop ht hrounds hdepth hne hn', loop_outcome hlen h hs hk]
  have hnested : ∀ u : Stream, u.potential ≤ s.potential →
      e.reduceWithin (n + 1) (e.levels (depth + 1)) (depth + 1) u = e.reduce (depth + 1) u := fun u hu =>
    (reduce_eq ht hrounds (by omega)).symm
  rw [@fire_congr e span _ (e.reduce (depth + 1)) r.action hspan fun u hu _ =>
    congrArg Traced.outcome (hnested u (Stream.potential_of_isInfix (hu.trans hin)))]
  cases hfire : e.fire (e.reduce (depth + 1)) r.action span with
  | error f => rfl
  | ok new =>
    -- The rounds that are left are as many as the lower potential asks for.
    obtain ⟨hne', hlt⟩ := hlower _ _ hfire
    have hless : (pre' ++ (new ++ post')).potential ≤ n + 1 := by omega
    show (e.loop _ depth n (pre' ++ (new ++ post'))).outcome = (e.reduce depth (pre' ++ (new ++ post'))).outcome
    rw [reduce_eq_loop ht hrounds hdepth hne' hless]
    refine congrArg Traced.outcome (loop_congr ht n _ n hless hless fun u hu => ?_)
    exact reduceWithin_congr ht _ _ u (by omega) (by omega)

/-- A rule that is found contracts what it takes, if no rule above it matches. -/
theorem reduce_foundAt {above below : List Rule} (hall : e.table.all = above ++ r :: below)
    (hlen : 2 ≤ (pre ++ (span ++ post)).length)
    (habove : ∀ r' ∈ above, r'.pattern.find? (pre ++ (span ++ post)) = none) (hp : r.pattern ≠ [])
    (f : r.pattern.FoundAt pre span post) :
    (e.reduce depth (pre ++ (span ++ post))).outcome =
      (e.fire (e.reduce (depth + 1)) r.action span).bind fun new => (e.reduce depth (pre ++ (new ++ post))).outcome :=
  reduce_match ht hrounds hdepth hlen (hall ▸ Rule.firstMatch?_of_foundAt habove hp f) rfl rfl

/-- Properties of a reduction follow its contractions: it ends at once, it is stuck, or it contracts the topmost
    match and goes on. -/
theorem reduce_induction {motive : Stream → Outcome Token → Prop}
    (nil : motive [] (.ok ⟨.numeric, e.settings.emptyValue⟩))
    (single : ∀ t, motive [t] (.ok t))
    (stuck : ∀ s, 2 ≤ s.length → Rule.firstMatch? e.table.all s = none → motive s (.error (stuck s)))
    (step : ∀ pre span post r, Rule.firstMatch? e.table.all (pre ++ (span ++ post)) = some (r, pre.length, span) →
      Reducible r.action span →
      (∀ new, e.fire (e.reduce (depth + 1)) r.action span = .ok new →
        motive (pre ++ (new ++ post)) (e.reduce depth (pre ++ (new ++ post))).outcome) →
      motive (pre ++ (span ++ post)) ((e.fire (e.reduce (depth + 1)) r.action span).bind fun new =>
        (e.reduce depth (pre ++ (new ++ post))).outcome)) :
    ∀ s, motive s (e.reduce depth s).outcome := by
  intro s
  induction hn : s.potential using Nat.strongRecOn generalizing s with
  | ind n ih =>
    match s with
    | [] => exact reduce_nil ht hrounds hdepth ▸ nil
    | [t] => exact reduce_single ht hrounds hdepth t ▸ single t
    | t :: u :: s =>
      have hlen : 2 ≤ (t :: u :: s).length := by simp
      cases h : Rule.firstMatch? e.table.all (t :: u :: s) with
      | none => exact reduce_stuck ht hrounds hdepth hlen h ▸ stuck _ hlen h
      | some found =>
        obtain ⟨r, k, span⟩ := found
        obtain ⟨pre, post, hs, hk, hred⟩ := ht.taken h
        rw [reduce_match ht hrounds hdepth hlen h hs hk, hs]
        refine step pre span post r (hk ▸ hs ▸ h) hred fun new hfire => ?_
        have hlt := (hred.potential_lt (e.ofAction_of_fire _ _ hfire).1 pre post).2
        rw [← hs, hn] at hlt
        exact ih _ hlt _ rfl

end Unfolding
end Reckoner.Engine
