import Reckoner.Proofs.Nesting

/-!
# The limit of the depth

Under every table the limit of the depth does nothing but end a reduction with the failure for nesting too deeply
(`Engine.reduce_cutBy`). Two computations that agree except where the first one ends with a certain failure are related
by `Traced.CutBy`. The sequence of two of them keeps this relation, hence every step does, a level and all levels
below it.
-/

namespace Reckoner

/-! ### Computations that are cut off -/

/-- The first computation ends with the failure, or it is the same as the second one. -/
def Traced.CutBy {α : Type} (f : Failure) (x y : Traced α) : Prop := x.outcome = .error f ∨ x = y

namespace Traced
variable {α β : Type} {f : Failure} {x y : Traced α} {g k : α → Traced β}

theorem CutBy.refl (x : Traced α) : x.CutBy f x := Or.inr rfl

theorem CutBy.bind (h : x.CutBy f y) (hg : ∀ a, (g a).CutBy f (k a)) : (x >>= g).CutBy f (y >>= k) := by
  rcases h with h | rfl
  · exact Or.inl (by rw [outcome_bind, h]; rfl)
  cases hx : x.outcome with
  | error f' => exact Or.inr (bind_congr fun a ha => by rw [hx] at ha; cases ha)
  | ok a =>
    have hsame : ∀ b, x.outcome = .ok b → b = a := fun b hb => Except.ok.inj (hb.symm.trans hx)
    rcases hg a with h | h
    · exact Or.inl (by rw [outcome_bind, hx]; exact h)
    · exact Or.inr (bind_congr fun b hb => hsame b hb ▸ h)

end Traced

namespace Replacement
open Traced (CutBy)
variable {settings : Settings} {n₁ n₂ : Stream → Traced Token} {f : Failure} (h : ∀ u, (n₁ u).CutBy f (n₂ u))
include h

theorem cutBy_ofStep (step : Step) (span : Stream) :
    (ofStep settings n₁ step span).CutBy f (ofStep settings n₂ step span) := by
  cases step with
  | round =>
    show (Replacement.round settings n₁ span).CutBy f (Replacement.round settings n₂ span)
    unfold Replacement.round
    split
    · exact .refl _
    · refine (h _).bind fun v => ?_
      split
      · exact (h _).bind fun t => .refl _
      · exact .refl _
  | roundInt =>
    show (Replacement.roundInt n₁ span).CutBy f (Replacement.roundInt n₂ span)
    unfold Replacement.roundInt
    split
    · exact .refl _
    · exact (h _).bind fun v => .refl _
  | not => exact (h _).bind fun v => .refl _
  | evaluateGroup => exact (h _).bind fun t => .refl _
  | _ => exact .refl _

theorem cutBy_ofAction (table : RuleTable) (action : Action) (span : Stream) :
    (ofAction settings n₁ table action span).CutBy f (ofAction settings n₂ table action span) := by
  cases action with
  | step step => exact cutBy_ofStep h step span
  | call name => exact .refl _

end Replacement

namespace Engine
open Traced (CutBy)
variable {e : Engine} {n₁ n₂ nested : Stream → Traced Token} {depth depth' : Int} {f : Failure} {rounds : Nat} {s u : Stream}

/-! ### Levels -/

theorem contract_cutBy (h : ∀ u, (n₁ u).CutBy f (n₂ u)) (s : Stream) (start length : Int) (action : Action) :
    (e.contract n₁ s start length action).2.outcome = .error f ∨
      e.contract n₁ s start length action = e.contract n₂ s start length action := by
  unfold contract
  rcases @Replacement.cutBy_ofAction e.settings _ _ _ h e.table action
    (s.between (Stream.place s.length start) (Stream.place s.length (start + length))) with hcut | hsame
  · exact Or.inl (by simp only [hcut])
  · exact Or.inr (by simp only [hsame])

/-- A level goes on in the same way until one of its nested reductions is cut off. -/
theorem loop_cutBy (h : ∀ u, (n₁ u).CutBy f (n₂ u)) (rounds : Nat) (s : Stream) :
    (e.loop n₁ depth rounds s).CutBy f (e.loop n₂ depth rounds s) := by
  refine loop_induction (motive := fun rounds s x => x.CutBy f (e.loop n₂ depth rounds s))
    ?nil ?single ?stuck ?stopped ?step rounds s
  case nil => exact fun _ => Or.inr loop_nil.symm
  case single => exact fun _ t => Or.inr (loop_single t).symm
  case stuck => exact fun _ _ hlen h => Or.inr (loop_stuck hlen h).symm
  case stopped =>
    rintro s ⟨r, i, span⟩ hlen h
    exact Or.inr (loop_zero hlen h).symm
  case step =>
    intro rounds s r i span hlen hmatch ih
    rw [loop_match hlen hmatch, loop_match hlen hmatch]
    refine (CutBy.refl _).bind fun _ => ?_
    rcases contract_cutBy h s i span.length r.action with hcut | hsame
    · exact Or.inl (by rw [Traced.outcome_bind, hcut]; rfl)
    · rw [hsame]
      exact (CutBy.refl _).bind fun _ => (CutBy.refl _).bind fun _ => ih _

/-! ### All levels -/

/-- More levels below a limit change nothing but the failure at the limit. -/
theorem reduceWithin_cutBy (L : Int) : ∀ (levels more : Nat) (depth : Int) (s : Stream),
    depth + levels = e.limit + 1 →
      (e.reduceWithin rounds levels depth s).CutBy (.tooDeeplyNested (e.limit + 1) e.limit)
        (Engine.reduceWithin { e with limit := L } rounds (levels + more) depth s) := by
  intro levels more
  induction levels with
  | zero =>
    intro depth s hdepth
    obtain rfl : depth = e.limit + 1 := by simpa using hdepth
    exact Or.inl rfl
  | succ levels ih =>
    intro depth s hdepth
    rw [Nat.succ_add]
    show (e.loop _ depth rounds (e.entry s)).CutBy _ (Engine.loop { e with limit := L } _ depth rounds (e.entry s))
    rw [loop_limit L]
    exact loop_cutBy (fun u => ih (depth + 1) u (by omega)) rounds _

/-- What is reduced inside of a reduction is at most one level below the limit. -/
theorem Nests.le (h : e.Nests rounds depth s depth' u) : depth' ≤ e.limit + 1 := by
  induction h with
  | issued hd _ => omega
  | inside _ _ _ ih => exact ih

/-- The contractions that a reduction reports are above the end of its levels. -/
theorem depth_lt_of_mem (rounds : Nat) : ∀ (levels : Nat) (depth : Int) (s : Stream),
    ∀ c ∈ (e.reduceWithin rounds levels depth s).contractions, c.depth < depth + levels := by
  intro levels
  induction levels with
  | zero => intro depth s c hc; cases hc
  | succ levels ih =>
    intro depth s
    refine forall_depth_of_mem_loop (P := (· < depth + (levels + 1 : Nat))) (by omega) (fun u c hc => ?_) rounds (e.entry s)
    have := ih (depth + 1) u c hc
    omega

/-- Under every table and with any number of rounds, the limit of the depth only cuts off. A reduction within the limit
    fails one level below it, or it is the same under all greater limits, with its report. Nothing is contracted
    below the limit: what would be reduced there is one level below, and fails at once. -/
theorem reduce_cutBy (hd : depth ≤ e.limit) {L : Int} (hL : e.limit ≤ L) (s : Stream) :
    ((e.reduce depth s).outcome = .error (.tooDeeplyNested (e.limit + 1) e.limit) ∨
      Engine.reduce { e with limit := L } depth s = e.reduce depth s) ∧
    (∀ c ∈ (e.reduce depth s).contractions, c.depth ≤ e.limit) ∧
    ∀ depth' u, e.Nests (e.roundsFor s) depth s depth' u → depth' ≤ e.limit ∨ depth' = e.limit + 1 ∧
      e.reduceWithin (e.roundsFor s) (e.levels depth') depth' u = .fail (.tooDeeplyNested depth' e.limit) := by
  have hlevels : depth + e.levels depth = e.limit + 1 := by
    unfold levels
    omega
  have hmore : Engine.levels { e with limit := L } depth = e.levels depth + (L - e.limit).toNat := by
    unfold levels
    show (L + 1 - depth).toNat = _
    omega
  refine ⟨?_, fun c hc => ?_, fun depth' u h => ?_⟩
  · refine (reduceWithin_cutBy L (e.levels depth) (L - e.limit).toNat depth s hlevels).imp_right fun hsame => ?_
    rw [reduce, hmore]
    exact hsame.symm
  · have := depth_lt_of_mem _ _ _ s c hc
    omega
  · have hle := h.le
    rcases Int.lt_or_eq_of_le hle with hlt | rfl
    · exact Or.inl (Int.le_of_lt_add_one hlt)
    · have hzero : e.levels (e.limit + 1) = 0 := by
        unfold levels
        omega
      exact Or.inr ⟨rfl, by rw [hzero]; rfl⟩

/-- Under a rule that takes the whole stream for brackets, five numbers are two levels deep. -/
theorem reduce_cutBy_five :
    ∃ (e : Engine) (s : Stream), s = (List.range 5).map (fun n => Token.number (.int n)) ∧
      (Engine.reduce { e with limit := 1 } 0 s).outcome = .error (.tooDeeplyNested 2 1) ∧
      ∀ L, 2 ≤ L → (Engine.reduce { e with limit := L } 0 s).outcome = .ok (.number (.int 2)) := by
  let e : Engine := { table := { rules := [⟨[{ greatest := none }], .step .evaluateGroup⟩] }, limit := 2 }
  let s : Stream := (List.range 5).map fun n => Token.number (.int n)
  have htoken : (e.reduce 0 s).outcome = .ok (.number (.int 2)) := Outcome.eq_ok_int (by decide +kernel)
  refine ⟨e, s, rfl, rfl, fun L hL => ?_⟩
  rcases (@reduce_cutBy e 0 (by decide) L hL s).1 with hcut | hsame
  · rw [htoken] at hcut
    cases hcut
  · rw [hsame, htoken]

end Engine
end Reckoner
