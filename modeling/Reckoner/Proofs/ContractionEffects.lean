import Reckoner.Proofs.Limits
import Reckoner.Proofs.LongIntegers

/-!
# What a contraction leaves in the stream

A contraction takes its span out of the stream before it acts, and what it puts in is in place before the text of the
change is formed. So it ends in one of three ways, with the replacement in place, with the span gone, or with the
replacement in place although the text could not be formed, and what stands around the span stays in every one of them
(`Engine.contractAt_effect`). The failure of a nested reduction is that of the step, so that the span is gone. A nested
reduction that goes on for ever has no end at all: it is stopped by its number of rounds, and a greater number changes
nothing else (`Engine.reduceWithin_more`).
-/

namespace Reckoner

/-! ### Failures of nested reductions -/

namespace Replacement
variable {settings : Settings} {nested : Stream → Traced Token} {step : Step} {span u : Stream} {before after : List Stream}
  {f : Failure}

/-- The first failure among the reductions that a step issues is the failure of the step. -/
theorem ofStep_error_of_issued (hissued : issued step span = before ++ u :: after)
    (hbefore : ∀ v ∈ before, ∃ t, (nested v).outcome = .ok t) (hu : (nested u).outcome = .error f) :
    (ofStep settings nested step span).outcome = .error f := by
  have only : ∀ {v : Stream} {front : List Stream}, [v] = front ++ u :: after → u = v := fun h =>
    List.mem_singleton.mp (h ▸ List.mem_append_right _ (List.mem_cons_self ..))
  cases step with
  | round =>
    simp only [issued] at hissued
    simp only [ofStep, round]
    split at hissued
    · rename_i tokens htokens
      simp only [htokens, Traced.outcome_bind]
      cases before with
      | nil =>
        rw [(List.cons.inj hissued).1, hu]
        rfl
      | cons v before =>
        obtain ⟨rfl, hrest⟩ := List.cons.inj hissued
        obtain ⟨t, ht⟩ := hbefore _ (List.mem_cons_self ..)
        cases hsecond : (chunks tokens)[1]? with
        | none => simp [hsecond] at hrest
        | some part =>
          rw [hsecond] at hrest
          have hpart : u = part := only hrest
          rw [ht]
          simp only [Traced.outcome_bind, Except.bind, ← hpart, hu]
    · simp at hissued
  | roundInt =>
    simp only [issued] at hissued
    simp only [ofStep, roundInt]
    cases htokens : inside? span with
    | none => simp [htokens] at hissued
    | some tokens =>
      rw [htokens] at hissued
      simp only [Traced.outcome_bind, ← only hissued, hu]
      rfl
  | not =>
    simp only [ofStep, Replacement.not, Traced.outcome_bind, ← only hissued, hu]
    rfl
  | evaluateGroup =>
    simp only [ofStep, evaluateGroup, Traced.outcome_bind, ← only hissued, hu]
    rfl
  | _ => simp [issued] at hissued

end Replacement

namespace Engine
open Traced (CutBy)
variable {e : Engine} {n₁ n₂ nested : Stream → Traced Token} {depth : Int} {rounds : Nat} {s : Stream} {action : Action}

/-! ### More rounds -/

/-- A level does not look at the number of rounds that the engine allows. -/
theorem loop_rounds (allowed : Option Nat) (rounds : Nat) (s : Stream) :
    Engine.loop { e with rounds := allowed } nested depth rounds s = e.loop nested depth rounds s := by
  refine loop_induction (motive := fun rounds s x => Engine.loop { e with rounds := allowed } nested depth rounds s = x)
    ?nil ?single ?stuck ?stopped ?step rounds s
  case nil => exact fun _ => loop_nil
  case single => exact fun _ t => loop_single t
  case stuck => exact fun _ _ hlen h => loop_stuck hlen h
  case stopped =>
    rintro s ⟨r, i, span⟩ hlen h
    exact loop_zero hlen h
  case step =>
    intro rounds s r i span hlen h ih
    rw [@loop_match { e with rounds := allowed } _ _ _ _ _ _ _ hlen h, loop_match hlen h]
    exact Traced.bind_congr fun _ _ => Traced.bind_congr fun _ _ => Traced.bind_congr fun _ _ => ih _

/-- A level with more rounds goes on in the same way until one of its nested reductions is stopped, or the level
    itself. -/
theorem loop_more (h : ∀ u, (n₁ u).CutBy .endless (n₂ u)) (more rounds : Nat) (s : Stream) :
    (e.loop n₁ depth rounds s).CutBy .endless (e.loop n₂ depth (rounds + more) s) := by
  refine loop_induction (motive := fun rounds s x => x.CutBy .endless (e.loop n₂ depth (rounds + more) s))
    ?nil ?single ?stuck ?stopped ?step rounds s
  case nil => exact fun _ => Or.inr loop_nil.symm
  case single => exact fun _ t => Or.inr (loop_single t).symm
  case stuck => exact fun _ _ hlen h => Or.inr (loop_stuck hlen h).symm
  case stopped => exact fun _ _ _ _ => Or.inl rfl
  case step =>
    intro rounds s r i span hlen hmatch ih
    rw [Nat.succ_add, loop_match hlen hmatch, loop_match hlen hmatch]
    refine (CutBy.refl _).bind fun _ => ?_
    rcases contract_cutBy h s i span.length r.action with hcut | hsame
    · exact Or.inl (by rw [Traced.outcome_bind, hcut]; rfl)
    · rw [hsame]
      exact (CutBy.refl _).bind fun _ => (CutBy.refl _).bind fun _ => ih _

/-- A greater number of rounds changes nothing but the stop. -/
theorem reduceWithin_more (allowed : Option Nat) (more : Nat) : ∀ (levels : Nat) (depth : Int) (s : Stream),
    (e.reduceWithin rounds levels depth s).CutBy .endless
      (Engine.reduceWithin { e with rounds := allowed } (rounds + more) levels depth s) := by
  intro levels
  induction levels with
  | zero => exact fun _ _ => .refl _
  | succ levels ih =>
    intro depth s
    show (e.loop _ depth rounds (e.entry s)).CutBy .endless
      (Engine.loop { e with rounds := allowed } _ depth (rounds + more) (e.entry s))
    rw [loop_rounds allowed]
    exact loop_more (ih (depth + 1)) more rounds _

theorem contractAt_more {n : Nat} (hn : e.rounds = some n) (more : Nat) (s : Stream) (start length : Int) :
    (e.contractAt depth s start length action).2.outcome = .error .endless ∨
      Engine.contractAt { e with rounds := some (n + more) } depth s start length action =
        e.contractAt depth s start length action := by
  have hnested : ∀ u, (e.reduce (depth + 1) u).CutBy .endless
      (Engine.reduce { e with rounds := some (n + more) } (depth + 1) u) := fun u => by
    rw [reduce, hn, Option.getD_some]
    exact reduceWithin_more (some (n + more)) more _ (depth + 1) u
  exact (contract_cutBy hnested s start length action).imp_right Eq.symm

/-! ### Spans by their places -/

section Segment
variable {start length : Nat} {new : Stream} {f : Failure}

theorem contract_segment (e : Engine) (nested : Stream → Traced Token) (h : start + length ≤ s.length) (action : Action) :
    e.contract nested s start length action = e.contract nested
      (s.take start ++ (s.segment start length ++ s.drop (start + length))) (s.take start).length
        (s.segment start length).length action := by
  have hstart : (s.take start).length = start := by
    rw [List.length_take]
    omega
  rw [← s.split_segment start length, hstart, Stream.length_segment h]

theorem contract_segment_of_ok (h : start + length ≤ s.length)
    (hnew : (Replacement.ofAction e.settings nested e.table action (s.segment start length)).outcome = .ok new) :
    (e.contract nested s start length action).1 = s.take start ++ (new ++ s.drop (start + length)) ∧
      (e.contract nested s start length action).2.outcome =
        if (s.segment start length).isWritable && new.isWritable then .ok () else .error .longInteger := by
  rw [contract_segment e nested h, contract_of_ok e nested action hnew]
  exact ⟨rfl, rfl⟩

theorem contract_segment_of_error (h : start + length ≤ s.length)
    (hf : (Replacement.ofAction e.settings nested e.table action (s.segment start length)).outcome = .error f) :
    (e.contract nested s start length action).1 = s.take start ++ s.drop (start + length) ∧
      (e.contract nested s start length action).2.outcome = .error f := by
  rw [contract_segment e nested h, contract_of_error e nested action hf]
  exact ⟨rfl, rfl⟩

end Segment

/-! ### The three ways to end -/

/-- What stands around the span of a contraction stays, and the contraction ends in one of three ways. The replacement,
    which is not empty, is in place; the span is gone, and the failure is that of the action; or the replacement is in
    place, and an integer in the span or in the replacement is too long for the text of the change. The first failure of
    a nested reduction is the failure of the action. An end that does not come from the number of rounds is the same for
    every greater number. -/
theorem contractAt_effect (e : Engine) (depth : Int) (s : Stream) {start length : Nat} (h : start + length ≤ s.length)
    (action : Action) :
    let span := s.segment start length
    let result := (Replacement.ofAction e.settings (e.reduce (depth + 1)) e.table action span).outcome
    let left := (e.contractAt depth s start length action).1
    let done := (e.contractAt depth s start length action).2.outcome
    (∃ new, left = s.take start ++ (new ++ s.drop (start + length)) ∧
      ((done = .ok () ∧ result = .ok new ∧ new ≠ [] ∧ ∀ t ∈ span ++ new, ¬ t.value.HoldsLong) ∨
        (∃ f, done = .error f ∧ result = .error f ∧ new = []) ∨
        (done = .error .longInteger ∧ result = .ok new ∧ new ≠ [] ∧ ∃ t ∈ span ++ new, t.value.HoldsLong))) ∧
    (∀ step before u after f, action = .step step → Replacement.issued step span = before ++ u :: after →
      (∀ v ∈ before, ∃ t, (e.reduce (depth + 1) v).outcome = .ok t) → (e.reduce (depth + 1) u).outcome = .error f →
      done = .error f ∧ left = s.take start ++ s.drop (start + length)) ∧
    ∀ n more, e.rounds = some n → done = .error .endless ∨
      Engine.contractAt { e with rounds := some (n + more) } depth s start length action =
        e.contractAt depth s start length action := by
  intro span result left done
  refine ⟨?ways, ?nested, fun n more hn => contractAt_more hn more s start length⟩
  case nested =>
    intro step before u after f haction hissued hbefore hu
    subst haction
    have hresult : result = .error f := Replacement.ofStep_error_of_issued hissued hbefore hu
    exact (contract_segment_of_error h hresult).symm
  case ways =>
    cases hresult : result with
    | error f =>
      obtain ⟨hleft, hdone⟩ := contract_segment_of_error h hresult
      exact ⟨[], hleft, Or.inr (Or.inl ⟨f, hdone, rfl, rfl⟩)⟩
    | ok new =>
      obtain ⟨hleft, hdone⟩ := contract_segment_of_ok h hresult
      have hnew := Replacement.ofAction_ne_nil hresult
      have hwritable : (span.isWritable && new.isWritable) = true ↔ ∀ t ∈ span ++ new, ¬ t.value.HoldsLong := by
        rw [Bool.and_eq_true, Stream.isWritable_iff, Stream.isWritable_iff, List.forall_mem_append]
      refine ⟨new, hleft, ?_⟩
      by_cases hlong : ∀ t ∈ span ++ new, ¬ t.value.HoldsLong
      · rw [if_pos (hwritable.mpr hlong)] at hdone
        exact Or.inl ⟨hdone, rfl, hnew, hlong⟩
      · rw [if_neg fun hall => hlong (hwritable.mp hall)] at hdone
        exact Or.inr (Or.inr ⟨hdone, rfl, hnew, by simpa only [not_forall, not_not, exists_prop] using hlong⟩)

/-- In `7 + (1 2) * 3` nothing matches between the brackets, so that their contraction takes them away. -/
theorem contractAt_effect_brackets :
    let e : Engine := {}
    let plus : Token := ⟨.operator, .text "add"⟩
    let times : Token := ⟨.operator, .text "multiply"⟩
    let inside : Stream := [.number (.int 1), .number (.int 2)]
    let s : Stream := [.number (.int 7), plus] ++ (inside.wrap ++ [times, .number (.int 3)])
    2 + 4 ≤ s.length ∧ (e.reduce 1 inside).outcome = .error (.noRuleMatched inside) ∧
      (e.contractAt 0 s 2 4 (.step .evaluateGroup)).2.outcome = .error (.noRuleMatched inside) ∧
      (e.contractAt 0 s 2 4 (.step .evaluateGroup)).1 = [.number (.int 7), plus, times, .number (.int 3)] := by
  intro e plus times inside s
  have hlength : 2 + 4 ≤ s.length := by decide
  have hnone : Rule.firstMatch? e.table.all inside = none := Option.isNone_iff_eq_none.mp (by decide +kernel)
  have hinside : (e.reduce 1 inside).outcome = .error (.noRuleMatched inside) := by
    rw [reduce_stuck RuleTable.isStandard_default rfl (by decide) (by decide) hnone]
    exact congrArg Except.error (if_pos (by decide +kernel))
  have heffect := (contractAt_effect e 0 s hlength (.step .evaluateGroup)).2.1
  exact ⟨hlength, hinside, heffect .evaluateGroup [] inside [] _ rfl rfl (by simp) hinside⟩

end Engine
end Reckoner
