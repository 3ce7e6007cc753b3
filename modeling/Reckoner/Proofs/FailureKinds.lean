import Reckoner.Batch
import Reckoner.Proofs.Rewriting
import Reckoner.Proofs.Tiling

/-!
# Kinds of failures

A reduction fails by its operands, by itself or by the body of a function (`Engine.CanFail`). So without user functions
an evaluation fails by its expression, in arithmetic, by the kind of an operand, or by a value that has no result
(`Calculator.evaluate_error`). A batch takes all but the last for failures of a row. A custom table can go on for ever,
the standard rules cannot.
-/

namespace Reckoner

/-- A failure that a batch takes for one of a row, or a value without a result. -/
def Failure.IsExpected (f : Failure) : Prop := f.isOfRow = true ∨ f.kind = .value

theorem Failure.IsOrdinary.isExpected {f : Failure} (h : f.IsOrdinary) : f.IsExpected := by
  obtain ⟨hexpression, hendless, houter⟩ := h
  unfold IsExpected isOfRow isExpression isArithmetic
  cases hkind : f.kind <;> simp_all

theorem Failure.isExpected_of_expression {f : Failure} (h : f.kind = .expression) : f.IsExpected :=
  Or.inl (by rw [isOfRow, isExpression, h]; rfl)

theorem Outcome.mapM_eq_error {α β : Type} {g : α → Outcome β} {f : Failure} : ∀ {as : List α}, as.mapM g = .error f →
    ∃ a ∈ as, g a = .error f
  | [], h => by cases h
  | a :: as, h => by
    rw [List.mapM_cons] at h
    rcases Outcome.bind_eq_error h with h | ⟨b, -, h⟩
    · exact ⟨a, List.mem_cons_self .., h⟩
    · rcases Outcome.bind_eq_error h with h | ⟨bs, -, h⟩
      · obtain ⟨a, ha, h⟩ := mapM_eq_error h
        exact ⟨a, List.mem_cons_of_mem _ ha, h⟩
      · cases h

/-! ### Reductions -/

/-- A reduction goes on for too long or too deep, or there is no rule or no meaning for what is left. -/
def Failure.isOfReduction : Failure → Bool
  | .noRuleMatched _ | .unknownOperator _ | .unknownFunction _ | .tooDeeplyNested _ _ | .endless => true
  | _ => false

namespace Engine
variable {e : Engine} {nested : Stream → Traced Token} {action : Action} {span s : Stream} {f : Failure}

/-- How a reduction can fail: by an ordinary failure, by one of its own, or as the body of a function does. -/
inductive CanFail (e : Engine) (f : Failure) : Prop where
  | ordinary : f.IsOrdinary → CanFail e f
  | reduction : f.isOfReduction = true → CanFail e f
  | body {g : UserFunction} {vs : List Value} : g ∈ e.table.functions.functions → g.body.run vs = .error f → CanFail e f

section Level
variable (hn : ∀ u f, (nested u).outcome = .error f → e.CanFail f)
include hn

theorem canFail_of_fire (h : e.fire nested action span = .error f) : e.CanFail f := by
  rcases Outcome.bind_eq_error h with h | ⟨new, -, h⟩
  · cases action with
    | call name =>
      rcases Replacement.ofCall_error (Outcome.map_eq_error h) with rfl | ⟨g, hg, hrun⟩
      · exact .reduction rfl
      · exact .body (List.mem_of_find?_eq_some hg) hrun
    | step step =>
      cases Replacement.ofStep_error h with
      | ordinary hord => exact .ordinary hord
      | operator _ _ hnamed =>
        rcases Replacement.named_error hnamed with hord | ⟨name, rfl⟩
        · exact .ordinary hord
        · exact .reduction rfl
      | nested hu hout => exact hn _ _ hout
  · split at h
    · cases h
    · exact .ordinary (Except.error.inj h ▸ by decide)

theorem canFail_of_loop (depth : Int) (rounds : Nat) (s : Stream) (hs : s ≠ [])
    (h : (e.loop nested depth rounds s).outcome = .error f) : e.CanFail f := by
  refine loop_induction (motive := fun _ s x => s ≠ [] → x.outcome = .error f → e.CanFail f)
    ?nil ?single ?stuck ?stopped ?step rounds s hs h
  case nil => exact fun _ hs => absurd rfl hs
  case single => exact fun _ _ _ h => by cases h
  case stuck =>
    intro _ s _ _ _ h
    rw [← Except.error.inj h]
    unfold Engine.stuck
    split
    · exact .reduction rfl
    · exact .ordinary (by decide)
  case stopped => exact fun _ _ _ _ _ h => .reduction (Except.error.inj h ▸ rfl)
  case step =>
    intro rounds s r k span hlen hfirst ih _ h
    obtain ⟨above, below, -, -, hfind⟩ := Rule.firstMatch?_some hfirst
    obtain ⟨pre, post, hsplit, hk, -⟩ := Pattern.foundAt_of_find? hfind
    rw [loop_outcome hlen hfirst hsplit hk] at h
    rcases Outcome.bind_eq_error h with h | ⟨new, hfire, h⟩
    · exact canFail_of_fire hn h
    · have hnew := Replacement.ofAction_ne_nil (e.ofAction_of_fire nested r.action hfire).1
      exact ih _ (by simp [hnew]) h

end Level

theorem canFail_of_reduceWithin (rounds levels : Nat) : ∀ (depth : Int) (s : Stream) (f : Failure),
    (e.reduceWithin rounds levels depth s).outcome = .error f → e.CanFail f := by
  induction levels with
  | zero => exact fun _ _ _ h => .reduction (Except.error.inj h ▸ rfl)
  | succ levels ih => exact fun depth s f h => canFail_of_loop (ih (depth + 1)) depth rounds _ (e.entry_ne_nil s) h

theorem canFail_of_evaluate (h : (e.evaluate s).outcome = .error f) : e.CanFail f := by
  rw [evaluate, Traced.outcome_bind] at h
  rcases Outcome.bind_eq_error h with h | ⟨t, -, h⟩
  · exact canFail_of_reduceWithin _ _ _ _ _ h
  · cases h

/-- Without user functions a failure is expected, or the reduction was stopped. -/
theorem CanFail.isExpected (h : e.CanFail f) (hfunctions : e.table.functions.functions = []) :
    f.IsExpected ∨ f = .endless := by
  cases h with
  | ordinary hord => exact Or.inl hord.isExpected
  | reduction hreduction =>
    cases f with
    | endless => exact Or.inr rfl
    | noRuleMatched | unknownOperator | unknownFunction | tooDeeplyNested =>
      exact Or.inl (Failure.isExpected_of_expression rfl)
    | _ => cases hreduction
  | body hg _ =>
    rw [hfunctions] at hg
    cases hg

theorem evaluate_error (hfunctions : e.table.functions.functions = []) (h : (e.evaluate s).outcome = .error f) :
    f.IsExpected ∨ (f = .endless ∧ ¬ (e.table = {} ∧ e.rounds = none)) := by
  refine ((canFail_of_evaluate h).isExpected hfunctions).imp_right fun hendless => ⟨hendless, fun ⟨htable, hrounds⟩ => ?_⟩
  subst hendless
  have hpot : s.potential ≤ e.rounds.getD (patience s.length) + 1 := by
    have := potential_le_square s
    rw [hrounds, Option.getD_none]
    unfold patience
    omega
  have hbody : ∀ f ∈ e.table.functions.functions, ∀ vs, f.body.run vs ≠ .error .endless := by simp [hfunctions]
  rw [evaluate, Traced.outcome_bind] at h
  rcases Outcome.bind_eq_error h with h | ⟨t, -, h⟩
  · exact reduceWithin_ne_endless (htable ▸ RuleTable.isStandard_default) hbody _ _ _ hpot h
  · cases h

end Engine

/-! ### Evaluations -/

namespace Calculator
variable {c : Calculator} {text : String} {data : List (Value × Value)} {ts : Stream} {f : Failure}

theorem tokenize_error (h : c.tokenize text = .error f) : f.IsExpected := by
  obtain ⟨pieces, stop, -, hfails⟩ := ((c.lexicon.tokenize_tiles text).2 f).mp h
  cases hfails with
  | unreadable => exact Failure.isExpected_of_expression rfl
  | longInteger => exact Or.inr rfl

theorem key_error {name : Value} (h : c.key name = .error f) : f = .typeMismatch ∨ f = .longInteger := by
  unfold key at h
  split at h <;> split at h
  · cases h
  · exact Or.inl (Except.error.inj h).symm
  · cases h
  · exact Or.inr (Except.error.inj h).symm

theorem exists_key_error (h : c.bindings data = .error f) : ∃ e ∈ data, c.key e.1 = .error f := by
  unfold bindings at h
  generalize c.memory = b at h
  induction data generalizing b with
  | nil => cases h
  | cons e data ih =>
    rw [List.foldlM_cons] at h
    rcases Outcome.bind_eq_error h with h | ⟨b', -, h⟩
    · exact ⟨e, List.mem_cons_self .., Outcome.map_eq_error h⟩
    · obtain ⟨e', he', h⟩ := ih b' h
      exact ⟨e', List.mem_cons_of_mem _ he', h⟩

theorem bindings_error (h : c.bindings data = .error f) : f.IsExpected := by
  obtain ⟨e, -, he⟩ := exists_key_error h
  rcases key_error he with rfl | rfl
  · exact Or.inl rfl
  · exact Or.inr rfl

theorem bindToken_error {b : Bindings} {t : Token} (h : bindToken b t = .error f) : f.IsExpected := by
  unfold bindToken Token.ofValue at h
  split at h
  · split at h
    · cases h
    · cases h
    · split at h
      · cases h
      · exact Except.error.inj h ▸ Or.inl rfl
  · cases h

theorem bind_error (h : c.bind ts data = .error f) : f.IsExpected := by
  rcases Outcome.bind_eq_error h with h | ⟨b, -, h⟩
  · exact bindings_error h
  · repeat' split at h
    · exact Except.error.inj h ▸ Or.inl rfl
    · obtain ⟨t, -, ht⟩ := Outcome.mapM_eq_error h
      exact bindToken_error ht
    · exact Except.error.inj h ▸ Failure.isExpected_of_expression rfl
    · exact Except.error.inj h ▸ Or.inl rfl

/-- Without user functions an evaluation fails by its expression, in arithmetic, by the kind of an operand or by a value
that has no result, if it ends at all; and under the standard rules it ends. -/
theorem evaluate_error (hfunctions : c.table.functions.functions = [])
    (h : (c.evaluate text data).outcome = .error f) :
    f.IsExpected ∨ (f = .endless ∧ ¬ (c.table = {} ∧ c.rounds = none)) := by
  simp only [evaluate, Traced.outcome_bind, Traced.outcome_ofOutcome] at h
  rcases Outcome.bind_eq_error h with h | ⟨ts, -, h⟩
  · exact Or.inl (tokenize_error h)
  rcases Outcome.bind_eq_error h with h | ⟨bound, -, h⟩
  · exact Or.inl (bind_error h)
  exact Engine.evaluate_error (e := c.engine) hfunctions h

end Calculator
end Reckoner
