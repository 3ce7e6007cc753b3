import Reckoner.Function.Standard
import Reckoner.Proofs.Rewriting
import Reckoner.Proofs.Surplus

/-!
# Nesting is one level deep

Under a standard table all streams that are reduced inside of others are without delimiters
(`Replacement.flat_of_issued`), and in the reduction of such a stream no other one is reduced
(`Engine.not_issues_of_flat`). So nested reductions go one level down and no further, however deep the brackets of a
stream are nested, and it does not matter what the limit is as long as it lies below (`Engine.reduce_nesting`).
-/

namespace Reckoner

/-! ### What is reduced inside of a stream -/

namespace Replacement
variable {step : Step} {span u : Stream}

theorem flat_of_mem_chunksAfter : ∀ {ts front : Stream}, front.IsFlat → u ∈ chunksAfter front ts → u.IsFlat
  | [], front, hfront, h => by
    simp only [chunksAfter] at h
    split at h
    · cases h
    · rw [List.mem_singleton.mp h]
      exact hfront
  | t :: ts, front, hfront, h => by
    have hnil : Stream.IsFlat [] := by simp [Stream.IsFlat]
    simp only [chunksAfter] at h
    split at h
    · split at h
      · exact flat_of_mem_chunksAfter hnil h
      · rcases List.mem_cons.mp h with rfl | h
        · exact hfront
        · exact flat_of_mem_chunksAfter hnil h
    · rename_i ht
      refine flat_of_mem_chunksAfter (fun v hv => ?_) h
      rcases List.mem_append.mp hv with hv | hv
      · exact hfront v hv
      · rw [List.mem_singleton.mp hv]
        exact Bool.eq_false_iff.mpr ht

theorem flat_of_mem_chunks {ts : Stream} (h : u ∈ chunks ts) : u.IsFlat :=
  flat_of_mem_chunksAfter (by simp [Stream.IsFlat]) h

theorem issued_redex (h : Redex step span) : issued step span = [] := by
  cases h <;> rfl

theorem flat_of_issued (h : Reducible (.step step) span) (hu : u ∈ issued step span) : u.IsFlat := by
  cases h with
  | redex h =>
    rw [issued_redex h] at hu
    cases hu
  | @site _ head body h =>
    have argument : ∀ {t : Token}, u ∈ issued .round ([t] ++ body.wrap) → u.IsFlat := by
      intro t hu
      rw [issued_round] at hu
      rcases List.mem_cons.mp hu with rfl | hu
      · cases hhead : (chunks body).head? with
        | none => simp [Stream.IsFlat]
        | some first => exact flat_of_mem_chunks (List.mem_of_mem_head? hhead)
      · exact flat_of_mem_chunks (List.mem_of_getElem? (Option.mem_toList.mp hu))
    cases h with
    | choose => cases hu
    | round _ | roundTo _ _ _ => exact argument hu
    | roundUp hxs | roundDown hxs =>
      rw [issued_roundInt] at hu
      rw [List.mem_singleton.mp hu]
      exact hxs
    | not hxs =>
      rw [issued_not] at hu
      rw [List.mem_singleton.mp hu]
      exact hxs
    | group hxs =>
      rw [issued, List.nil_append, dropLast_wrap] at hu
      rw [List.mem_singleton.mp hu]
      exact hxs

end Replacement

theorem RuleTable.IsStandard.reducible_of_leads {t : RuleTable} (ht : t.IsStandard) {s : Stream} {r : Rule} {i k : Nat}
    (h : Rule.Leads t.all s r i k) : Reducible r.action (s.segment i k) := by
  obtain ⟨-, -, -, -, hred⟩ := ht.taken (Rule.firstMatch?_eq_some_iff.mpr ⟨k, h, rfl⟩)
  exact hred

namespace Engine
variable {e : Engine} {nested n₁ n₂ : Stream → Traced Token} {depth depth' : Int} {s last u : Stream}
  {cs : List Contraction} {rounds : Nat}

/-- A contraction on the way of a level has the stream reduced one level deeper. -/
def Issues (e : Engine) (nested : Stream → Traced Token) (depth : Int) (s u : Stream) : Prop :=
  ∃ cs last r i k step, e.Rewrites nested depth s cs last ∧ 2 ≤ last.length ∧ Rule.Leads e.table.all last r i k ∧
    r.action = .step step ∧ u ∈ Replacement.issued step (last.segment i k)

/-- In the reduction of a stream at a depth another one is reduced at its own depth: by a level within the limit, or
    in a reduction that takes place there. -/
inductive Nests (e : Engine) (rounds : Nat) : Int → Stream → Int → Stream → Prop where
  | issued {depth : Int} {s u : Stream} : depth ≤ e.limit →
      e.Issues (e.reduceWithin rounds (e.levels (depth + 1)) (depth + 1)) depth (e.entry s) u →
      Nests e rounds depth s (depth + 1) u
  | inside {depth depth' depth'' : Int} {s u v : Stream} : Nests e rounds depth s depth' u →
      Nests e rounds depth' u depth'' v → Nests e rounds depth s depth'' v

/-- A level depends on the nested reductions only by those that it issues. -/
theorem loop_congr_of_issues (rounds : Nat) (s : Stream) (h : ∀ u, e.Issues n₁ depth s u → n₁ u = n₂ u) :
    e.loop n₁ depth rounds s = e.loop n₂ depth rounds s := by
  revert h
  refine loop_induction (motive := fun rounds s x => (∀ u, e.Issues n₁ depth s u → n₁ u = n₂ u) →
    x = e.loop n₂ depth rounds s) ?nil ?single ?stuck ?stopped ?step rounds s
  case nil => exact fun _ _ => loop_nil.symm
  case single => exact fun _ t _ => (loop_single t).symm
  case stuck => exact fun _ _ hlen h _ => (loop_stuck hlen h).symm
  case stopped =>
    rintro s ⟨r, i, span⟩ hlen h -
    exact (loop_zero hlen h).symm
  case step =>
    intro rounds s r i span hlen h ih hissues
    obtain ⟨k, hleads, hspan⟩ := Rule.firstMatch?_eq_some_iff.mp h
    obtain rfl : span = s.segment i k := hspan
    have hle := hleads.occurs.le
    have hi : i = (s.take i).length := by
      rw [List.length_take]
      omega
    have haction : Replacement.ofAction e.settings n₁ e.table r.action (s.segment i k) =
        Replacement.ofAction e.settings n₂ e.table r.action (s.segment i k) := by
      cases hstep : r.action with
      | call name => rfl
      | step step =>
        exact Replacement.ofStep_congr fun u hu => hissues u ⟨[], s, r, i, k, step, .refl s, hlen, hleads, hstep, hu⟩
    have hsame : e.contract n₁ s i (s.segment i k).length r.action = e.contract n₂ s i (s.segment i k).length r.action := by
      have := @contract_eq_of_ofAction e n₁ n₂ r.action (s.take i) (s.segment i k) (s.drop (i + k)) haction
      rwa [← s.split_segment, ← hi] at this
    rw [loop_match hlen h, loop_match hlen h, hsame]
    refine Traced.bind_congr fun _ _ => Traced.bind_congr fun _ hdone => Traced.bind_congr fun _ _ => ?_
    -- What the contraction leaves behind issues no more than the stream before.
    rw [← hsame] at hdone ⊢
    have hout := e.contract_outcome n₁ r.action (s.take i) (s.segment i k) (s.drop (i + k))
    rw [← s.split_segment, ← hi, hdone] at hout
    obtain ⟨new, hfire, -⟩ := Outcome.map_eq_ok hout.symm
    have hstream := e.contract_stream n₁ r.action (s.take i) (s.drop (i + k)) hfire
    rw [← s.split_segment, ← hi] at hstream
    rw [hstream]
    refine ih _ fun u hu => ?_
    obtain ⟨cs, last, r', i', k', step, hrewrites, hrest⟩ := hu
    exact hissues u ⟨_, last, r', i', k', step, .step hlen hleads hle hfire hrewrites, hrest⟩

/-- A level does not look at the limit. -/
theorem loop_limit (L : Int) (rounds : Nat) (s : Stream) :
    Engine.loop { e with limit := L } nested depth rounds s = e.loop nested depth rounds s := by
  refine loop_induction (motive := fun rounds s x => Engine.loop { e with limit := L } nested depth rounds s = x)
    ?nil ?single ?stuck ?stopped ?step rounds s
  case nil => exact fun _ => loop_nil
  case single => exact fun _ t => loop_single t
  case stuck => exact fun _ _ hlen h => loop_stuck hlen h
  case stopped =>
    rintro s ⟨r, i, span⟩ hlen h
    exact loop_zero hlen h
  case step =>
    intro rounds s r i span hlen h ih
    rw [@loop_match { e with limit := L } _ _ _ _ _ _ _ hlen h, loop_match hlen h]
    exact Traced.bind_congr fun _ _ => Traced.bind_congr fun _ _ => Traced.bind_congr fun _ _ => ih _

/-! ### Streams without delimiters issue nothing -/

section Standard
variable (ht : e.table.IsStandard)
include ht

theorem Rewrites.flat (h : e.Rewrites nested depth s cs last) (hs : s.IsFlat) : last.IsFlat := by
  induction h with
  | refl => exact hs
  | @step s last new r i k cs _ hleads _ hfire _ ih =>
    rw [s.split_segment i k] at hs
    obtain ⟨step, haction, hredex⟩ := (ht.reducible_of_leads hleads).redex_of_flat hs
    rw [haction] at hfire
    exact ih (flat_of_fire hredex hs hfire).1

theorem not_issues_of_flat (hs : s.IsFlat) : ¬ e.Issues nested depth s u := by
  rintro ⟨cs, last, r, i, k, step, hrewrites, -, hleads, haction, hu⟩
  have hlast := hrewrites.flat ht hs
  rw [last.split_segment i k] at hlast
  obtain ⟨step', hstep, hredex⟩ := (ht.reducible_of_leads hleads).redex_of_flat hlast
  obtain rfl : step = step' := by simpa [haction] using hstep
  rw [Replacement.issued_redex hredex] at hu
  cases hu

theorem flat_of_issues (h : e.Issues nested depth s u) : u.IsFlat := by
  obtain ⟨cs, last, r, i, k, step, -, -, hleads, haction, hu⟩ := h
  exact Replacement.flat_of_issued (haction ▸ ht.reducible_of_leads hleads) hu

omit ht in
theorem flat_entry (hs : s.IsFlat) : (e.entry s).IsFlat := by
  unfold entry
  split
  · simp [Stream.IsFlat, Token.isDelimiter]
  · exact hs

theorem not_nests_of_flat (hs : s.IsFlat) : ¬ e.Nests rounds depth s depth' u := by
  intro h
  induction h with
  | issued _ hu => exact not_issues_of_flat ht (flat_entry hs) hu
  | inside _ _ ih _ => exact ih hs

/-- What takes place inside of a reduction is one level deeper and without delimiters. -/
theorem Nests.flat (h : e.Nests rounds depth s depth' u) : depth' = depth + 1 ∧ u.IsFlat := by
  induction h with
  | issued _ hu => exact ⟨rfl, flat_of_issues ht hu⟩
  | inside _ hinner ih _ => exact absurd hinner (not_nests_of_flat ht ih.2)

/-! ### The limit -/

/-- Without delimiters neither the limit nor the number of levels matters, if there is one. -/
theorem reduceWithin_flat (hu : u.IsFlat) (L : Int) (levels levels' : Nat) :
    Engine.reduceWithin { e with limit := L } rounds (levels + 1) depth u = e.reduceWithin rounds (levels' + 1) depth u := by
  show Engine.loop { e with limit := L } _ depth rounds (e.entry u) = e.loop _ depth rounds (e.entry u)
  rw [loop_limit]
  exact loop_congr_of_issues rounds _ fun v hv => absurd hv (not_issues_of_flat ht (flat_entry hu))

/-- A reduction is the same under all limits above its depth. -/
theorem reduce_limit (hd : depth < e.limit) {L : Int} (hL : depth < L) (s : Stream) :
    Engine.reduce { e with limit := L } depth s = e.reduce depth s := by
  have hlevels : ∀ {e' : Engine}, depth < e'.limit → e'.levels (depth + 1) = e'.levels (depth + 1 + 1) + 1 := by
    intro e' h
    exact levels_of_le (by omega)
  rw [reduce_eq_inner (Int.le_of_lt hd), @reduce_eq_inner { e with limit := L } depth (Int.le_of_lt hL) s, loop_limit]
  refine loop_congr_of_issues _ _ fun u hu => ?_
  show Engine.reduceWithin { e with limit := L } (e.roundsFor s) _ (depth + 1) u = e.reduceWithin (e.roundsFor s) _ (depth + 1) u
  rw [hlevels hd, @hlevels { e with limit := L } hL]
  exact reduceWithin_flat ht (flat_of_issues ht hu) L _ _

end Standard

/-- A level that is nested too deeply has had a stream reduced that is, or the body of a function says so. -/
theorem loop_tooDeeplyNested {d l : Int} (hn : ∀ u, ∀ c ∈ (nested u).contractions, depth < c.depth) (hs : s ≠ [])
    (h : (e.loop nested depth rounds s).outcome = .error (.tooDeeplyNested d l)) :
    (∃ u, e.Issues nested depth s u ∧ (nested u).outcome = .error (.tooDeeplyNested d l)) ∨
      ∃ f ∈ e.table.functions.functions, ∃ vs, f.body.run vs = .error (.tooDeeplyNested d l) := by
  obtain ⟨cs, last, hrewrites, -, hends⟩ := loop_rewrites hn rounds s hs
  rw [h] at hends
  obtain ⟨r, i, k, hleads, hout⟩ := hends.action_error (by simp) (by simp) (by simp)
  cases haction : r.action with
  | call name =>
    rw [haction] at hout
    rcases Replacement.ofCall_error (Outcome.map_eq_error hout) with hunknown | ⟨g, hg, hrun⟩
    · cases hunknown
    · exact Or.inr ⟨g, List.mem_of_find?_eq_some hg, _, hrun⟩
  | step step =>
    rw [haction] at hout
    cases Replacement.ofStep_error hout with
    | ordinary hord => exact absurd rfl hord.1
    | operator _ _ hnamed =>
      rcases Replacement.named_error hnamed with hord | ⟨name, hname⟩
      · exact absurd rfl hord.1
      · cases hname
    | @nested u hu hout => exact Or.inl ⟨u, ⟨cs, last, r, i, k, step, hrewrites, hends.two_le, hleads, haction, hu⟩, hout⟩

/-- Under the standard rules and any user functions nesting is one level deep. All that is reduced inside of a reduction
    is reduced one level deeper, holds no bracket and has nothing reduced inside of it. A reduction is nested too deeply
    only if its own depth is the limit, unless the body of a function says so. And all limits above the depth
    give the same report and the same outcome. -/
theorem reduce_nesting {fs : List UserFunction} {e : Engine} (hadd : fs.foldlM RuleTable.add {} = .ok e.table)
    {depth : Int} (hd : depth ≤ e.limit) (s : Stream) :
    (∀ depth' u, e.Nests (e.roundsFor s) depth s depth' u → depth' = depth + 1 ∧ u.IsUnbracketed ∧
      ∀ depth'' v, ¬ e.Nests (e.roundsFor s) depth' u depth'' v) ∧
    (∀ d l, (e.reduce depth s).outcome = .error (.tooDeeplyNested d l) →
      (depth = e.limit ∧ d = depth + 1 ∧ l = e.limit) ∨
        ∃ f ∈ fs, ∃ vs, f.body.run vs = .error (.tooDeeplyNested d l)) ∧
    (depth < e.limit → ∀ L, depth < L → Engine.reduce { e with limit := L } depth s = e.reduce depth s) := by
  have ht : e.table.IsStandard := RuleTable.isStandard_default.foldlM hadd
  have hregistered : ∀ f ∈ e.table.functions.functions, f ∈ fs := fun f hf =>
    (RuleTable.mem_functions_of_foldlM hadd hf).elim id (fun h => absurd h List.not_mem_nil)
  refine ⟨fun depth' u h => ?_, fun d l h => ?_, fun hlt L hL => reduce_limit ht hlt hL s⟩
  · obtain ⟨hdepth, hu⟩ := h.flat ht
    exact ⟨hdepth, hu.isUnbracketed, fun _ _ => not_nests_of_flat ht hu⟩
  · rw [reduce_eq_inner hd] at h
    rcases loop_tooDeeplyNested (lt_depth_of_mem_inner s) (e.entry_ne_nil s) h with ⟨u, hu, hout⟩ | ⟨f, hf, hbody⟩
    · have hflat := flat_of_issues ht hu
      rcases Int.lt_or_eq_of_le hd with hlt | heq
      · -- One level deeper nothing is reduced inside, so that only a body can say so.
        rw [inner, levels_of_le (by omega)] at hout
        have hbelow : ∀ v, ∀ c ∈ (e.reduceWithin (e.roundsFor s) (e.levels (depth + 1 + 1)) (depth + 1 + 1) v).contractions,
            depth + 1 < c.depth := fun v c hc => by
          have := le_depth_of_mem _ _ _ v c hc
          omega
        rcases loop_tooDeeplyNested hbelow (e.entry_ne_nil u) hout with ⟨v, hv, -⟩ | ⟨f, hf, hbody⟩
        · exact absurd hv (not_issues_of_flat ht (flat_entry hflat))
        · exact Or.inr ⟨f, hregistered f hf, hbody⟩
      · have hlevels : e.levels (depth + 1) = 0 := by
          unfold levels
          omega
        rw [inner, hlevels] at hout
        cases hout
        exact Or.inl ⟨heq, rfl, rfl⟩
    · exact Or.inr ⟨f, hregistered f hf, hbody⟩

/-- Three pairs of brackets reduce under a limit of one as they do under all greater limits. -/
theorem reduce_nesting_brackets :
    ∃ (f : UserFunction) (table : RuleTable), [f].foldlM RuleTable.add {} = .ok table ∧
      ∀ L, 0 < L → Engine.reduce { table := table, limit := L } 0 (Stream.wrap (Stream.wrap (Stream.wrap [.number (.int 7)]))) =
        Engine.reduce { table := table, limit := 1 } 0 (Stream.wrap (Stream.wrap (Stream.wrap [.number (.int 7)]))) := by
  let f := UserFunction.make "double" .numeric [.category .numeric] ⟨"double", Body.double⟩
  let e : Engine := { table := ⟨⟨[f]⟩, [⟨.call "double" [.numeric], .call "double"⟩], Rule.standard⟩, limit := 1 }
  have hadd : [f].foldlM RuleTable.add {} = .ok e.table := rfl
  exact ⟨f, e.table, hadd, (@reduce_nesting [f] e hadd 0 (by decide) _).2.2 (by decide)⟩

end Engine
end Reckoner
