import Reckoner.Proofs.Potential
import Reckoner.Proofs.OrdinaryFailures

/-!
# Progress under standard tables

A standard table holds the standard rules and above them the rules of user functions. What its topmost match
takes is a call, brackets or a redex (`Reducible`), and whatever is put in its place lowers the potential of
the stream (`Reducible.potential_lt`). A step fails by an ordinary failure, since the sign between its operands
names no operation, or as one of its nested reductions does (`Replacement.ofStep_error`).
-/

namespace Reckoner

/-! ### Standard tables -/

/-- The table consists of the standard rules and of rules of calls above them. -/
structure RuleTable.IsStandard (t : RuleTable) : Prop where
  rules : t.rules = Rule.standard
  calls : ∀ r ∈ t.functionRules, ∃ name arguments, r = ⟨.call name arguments, .call name⟩

/-- No standard rule calls a user function. -/
theorem Rule.exists_step : ∀ r ∈ Rule.standard, ∃ step, r.action = .step step := by
  simp [Rule.standard]

namespace RuleTable
variable {t u : RuleTable}

theorem isStandard_default : IsStandard {} := ⟨rfl, by simp⟩

theorem IsStandard.add (h : t.IsStandard) {f : UserFunction} (ha : t.add f = .ok u) : u.IsStandard := by
  obtain ⟨pattern, hpattern, hu⟩ := Outcome.bind_eq_ok ha
  obtain ⟨arguments, -, hpattern⟩ := Outcome.bind_eq_ok hpattern
  rw [← Except.ok.inj hu, ← Except.ok.inj hpattern]
  refine ⟨h.rules, fun r hr => ?_⟩
  rcases List.mem_cons.mp hr with rfl | hr
  · exact ⟨f.name, arguments, rfl⟩
  · exact h.calls r ((List.mem_filter.mp hr).1)

theorem IsStandard.foldlM : ∀ {fs : List UserFunction} {t : RuleTable}, t.IsStandard →
    fs.foldlM RuleTable.add t = .ok u → u.IsStandard
  | [], t, ht, h => by
    rw [← Except.ok.inj h]
    exact ht
  | f :: fs, t, ht, h => by
    rw [List.foldlM_cons] at h
    obtain ⟨t', ht', h⟩ := Outcome.bind_eq_ok h
    exact (ht.add ht').foldlM h

theorem mem_replaceIn {f g : UserFunction} : ∀ {fs : List UserFunction}, g ∈ Registry.replaceIn f fs → g = f ∨ g ∈ fs
  | [], h => Or.inl (List.mem_singleton.mp h)
  | h₀ :: fs, h => by
    simp only [Registry.replaceIn] at h
    split at h
    · rcases List.mem_cons.mp h with h | h
      · exact Or.inl h
      · exact Or.inr (List.mem_cons_of_mem _ h)
    · rcases List.mem_cons.mp h with rfl | h
      · exact Or.inr (List.mem_cons_self ..)
      · exact (mem_replaceIn h).imp_right (List.mem_cons_of_mem _)

/-- Every registered function is among those that were added. -/
theorem mem_functions_of_foldlM {g : UserFunction} : ∀ {fs : List UserFunction} {t : RuleTable},
    fs.foldlM RuleTable.add t = .ok u → g ∈ u.functions.functions → g ∈ fs ∨ g ∈ t.functions.functions
  | [], t, h, hg => by
    rw [← Except.ok.inj h] at hg
    exact Or.inr hg
  | f :: fs, t, h, hg => by
    rw [List.foldlM_cons] at h
    obtain ⟨t', ht', h⟩ := Outcome.bind_eq_ok h
    obtain ⟨pattern, -, hadd⟩ := Outcome.bind_eq_ok ht'
    rcases mem_functions_of_foldlM h hg with hg | hg
    · exact Or.inl (List.mem_cons_of_mem _ hg)
    · rw [← Except.ok.inj hadd] at hg
      rcases mem_replaceIn hg with rfl | hg
      · exact Or.inl (List.mem_cons_self ..)
      · exact Or.inr hg

end RuleTable

/-! ### What standard tables take -/

/-- A span that a rule of a standard table takes, with the action of the rule. -/
inductive Reducible : Action → Stream → Prop where
  | call {name : String} {body : Stream} : Reducible (.call name) ([.named name] ++ body.wrap)
  | site {step : Step} {head body : Stream} : Site step head body → Reducible (.step step) (head ++ body.wrap)
  | redex {step : Step} {span : Stream} : Redex step span → Reducible (.step step) span

theorem RuleTable.IsStandard.reducible {t : RuleTable} (ht : t.IsStandard) {r : Rule} (hr : r ∈ t.all)
    {span : Stream} (h : r.pattern.Parses span) : Reducible r.action span := by
  rw [RuleTable.all, ht.rules, ← Rule.brackets_append_flat] at hr
  rcases List.mem_append.mp hr with hr | hr
  · obtain ⟨name, arguments, rfl⟩ := ht.calls r hr
    obtain ⟨body, rfl, -⟩ := Pattern.parses_call.mp h
    exact .call
  rcases List.mem_append.mp hr with hr | hr
  · obtain ⟨step, head, body, haction, rfl, hsite, -⟩ := Site.of_parses hr h
    rw [haction]
    exact .site hsite
  · obtain ⟨step, haction, hredex⟩ := Redex.of_parses hr h
    rw [haction]
    exact .redex hredex

/-- The topmost match of a standard table takes a reducible span of the stream. -/
theorem RuleTable.IsStandard.taken {t : RuleTable} (ht : t.IsStandard) {ts span : Stream} {r : Rule} {k : Nat}
    (h : Rule.firstMatch? t.all ts = some (r, k, span)) :
    ∃ pre post, ts = pre ++ (span ++ post) ∧ k = pre.length ∧ Reducible r.action span := by
  obtain ⟨above, below, hall, -, hfind⟩ := Rule.firstMatch?_some h
  obtain ⟨pre, post, hts, hk, hf⟩ := Pattern.foundAt_of_find? hfind
  exact ⟨pre, post, hts, hk, ht.reducible (by simp [hall]) hf.parses⟩

namespace Reducible
variable {action : Action} {span : Stream}

theorem two_le (h : Reducible action span) : 2 ≤ span.length := by
  cases h with
  | call => simp [Stream.wrap]
  | site _ =>
    simp only [Stream.wrap, List.length_append, List.length_cons, List.length_nil]
    omega
  | redex h => cases h <;> simp

end Reducible

/-! ### Every contraction lowers the potential -/

theorem Redex.weight_ge {step : Step} {span : Stream} (h : Redex step span) : 5 ≤ span.weight := by
  cases h with
  | operation hl ho hr => rcases ho with ho | ho <;> simp [hl, ho, hr, Category.weight]
  | texts hl ho hr => simp [hl, ho, hr, Category.weight]
  | combination hl ho hr => simp [hl, ho, hr, Category.weight]
  | negation hm ht => simp [hm, ht, Category.weight]
  | power hb ho hm ht => simp [hb, ho, hm, ht, Category.weight]
  | product hl ho hm hr => simp [hl, ho, hm, hr, Category.weight]
  | percentage ht ho => simp [ht, ho, Category.weight]
  | range hl ho hm hu hr => simp [hl, ho, hm, hu, hr, Category.weight]

/-- What is put in place of a reducible span is not empty and lowers the potential of the stream around it. -/
theorem Reducible.potential_lt {action : Action} {span new : Stream} {settings : Settings} {table : RuleTable}
    {nested : Stream → Traced Token} (h : Reducible action span)
    (hf : (Replacement.ofAction settings nested table action span).outcome = .ok new) (pre post : Stream) :
    new ≠ [] ∧ Stream.potential (pre ++ (new ++ post)) < Stream.potential (pre ++ (span ++ post)) := by
  have bracketed : ∀ {head body : Stream} (t : Token), t.category.cost < (head ++ body.wrap).weight := by
    intro head body t
    have := t.category.cost_le
    rw [Stream.weight_append, Stream.weight_wrap]
    omega
  cases h with
  | call =>
    obtain ⟨t, -, rfl⟩ := Outcome.map_eq_ok hf
    exact ⟨by simp, Stream.potential_single (bracketed t) pre post⟩
  | site hsite =>
    obtain ⟨t, rfl, -⟩ := hsite.result hf
    exact ⟨by simp, Stream.potential_single (bracketed t) pre post⟩
  | redex hredex =>
    -- Only a range leaves more than a token behind.
    rcases hredex.result hf with ⟨t, rfl, ht⟩ | ⟨l, o, m, u, r, rfl, rfl, hl, ho, hm, hu, hr⟩
    · refine ⟨by simp, Stream.potential_single ?_ pre post⟩
      have hcost : t.category.cost ≤ 4 := by
        rcases ht with ht | ht <;> simp [ht, Category.cost, Category.weight, Category.completes]
      have := hredex.weight_ge
      omega
    · exact ⟨by simp, Stream.potential_range hl ho hm hu hr pre post⟩

/-! ### Failures of steps -/

theorem Outcome.bind_eq_error {α β : Type} {o : Outcome α} {g : α → Outcome β} {f : Failure}
    (h : o.bind g = .error f) : o = .error f ∨ ∃ a, o = .ok a ∧ g a = .error f := by
  cases o with
  | error f' => exact Or.inl (congrArg Except.error (Except.error.inj h))
  | ok a => exact Or.inr ⟨a, rfl, h⟩

theorem Outcome.map_eq_error {α β : Type} {o : Outcome α} {g : α → β} {f : Failure}
    (h : o.map g = .error f) : o = .error f := by
  cases o with
  | error f' => exact congrArg Except.error (Except.error.inj h)
  | ok a => cases h

/-- An action was given another number of tokens than it takes apart. -/
def Failure.isMisfit : Failure → Bool
  | .argumentCount | .callForm => true
  | _ => false

theorem Failure.isOrdinary_of_isMisfit {f : Failure} (h : f.isMisfit = true) : f.IsOrdinary := by
  cases f <;> first | decide | cases h

/-- The span has as many tokens as the step takes apart; for a step on brackets it starts with the name of its function,
    if it has one, and the opening bracket, and it ends with the closing one. -/
def Step.Accepts : Step → Stream → Prop
  | .apply, span => span.length = 3
  | .negate, span | .percentage, span => span.length = 2
  | .powNegate, span | .mulNegate, span => span.length = 4
  | .expandRange, span => span.length = 5
  | .choose, span => span.length = 8
  | .round, span => ∃ body, span = [.named "round"] ++ Stream.wrap body
  | .roundInt, span => ∃ name ∈ ["roundup", "rounddown"], ∃ body, span = [.named name] ++ Stream.wrap body
  | .not, span => ∃ body, span = [.named "not"] ++ Stream.wrap body
  | .evaluateGroup, span => ∃ body, span = Stream.wrap body

namespace Replacement

/-- Why a step fails: by an ordinary failure, since the middle one of its tokens names no operation, or as a nested
    reduction does. -/
inductive FailsBy (nested : Stream → Traced Token) (step : Step) (span : Stream) (f : Failure) : Prop where
  | ordinary : f.IsOrdinary → FailsBy nested step span f
  | operator {l o r : Token} : step = .apply → span = [l, o, r] → Operation.named o.value = .error f →
      FailsBy nested step span f
  | nested {u : Stream} : u ∈ issued step span → (nested u).outcome = .error f → FailsBy nested step span f

/-- Why a step fails, where an ordinary failure is one of its operands, unless the step does not accept the span. -/
inductive BreaksBy (nested : Stream → Traced Token) (step : Step) (span : Stream) (f : Failure) : Prop where
  | value : f.isOfValue = true → BreaksBy nested step span f
  | operator {l o r : Token} : step = .apply → span = [l, o, r] → Operation.named o.value = .error f →
      BreaksBy nested step span f
  | nested {u : Stream} : u ∈ issued step span → (nested u).outcome = .error f → BreaksBy nested step span f
  | misfit : f.isMisfit = true → ¬ step.Accepts span → BreaksBy nested step span f

variable {settings : Settings} {nested : Stream → Traced Token} {step : Step} {span : Stream} {f : Failure}

theorem BreaksBy.failsBy (h : BreaksBy nested step span f) : FailsBy nested step span f := by
  cases h with
  | value h => exact .ordinary (Failure.isOrdinary_of_isOfValue h)
  | operator hstep hspan h => exact .operator hstep hspan h
  | nested hu h => exact .nested hu h
  | misfit h _ => exact .ordinary (Failure.isOrdinary_of_isMisfit h)

theorem named_breaks {v : Value} (h : Operation.named v = .error f) :
    f.isOfValue = true ∨ ∃ name, f = .unknownOperator name := by
  unfold Operation.named at h
  split at h
  · exact Or.inl (Except.error.inj h ▸ rfl)
  · split at h
    · cases h
    · exact Or.inr ⟨_, (Except.error.inj h).symm⟩
  · split at h
    · exact Or.inr ⟨_, (Except.error.inj h).symm⟩
    · exact Or.inl (Except.error.inj h ▸ rfl)

theorem named_error {v : Value} (h : Operation.named v = .error f) : f.IsOrdinary ∨ ∃ name, f = .unknownOperator name :=
  (named_breaks h).imp_left Failure.isOrdinary_of_isOfValue

theorem apply_breaks (h : apply span = .error f) : BreaksBy nested .apply span f := by
  unfold apply at h
  split at h
  · rcases Outcome.bind_eq_error h with h | ⟨op, -, h⟩
    · exact .operator rfl rfl h
    · rcases Outcome.bind_eq_error h with h | ⟨t, -, h⟩
      · exact .value (op.isOfValue_apply _ _ f (Outcome.map_eq_error h))
      · cases h
  · rename_i hother
    refine .misfit (Except.error.inj h ▸ rfl) fun hlength => ?_
    match span, hlength with
    | [l, o, r], _ => exact hother l o r rfl

theorem negate_breaks (h : negate span = .error f) : BreaksBy nested .negate span f := by
  unfold negate at h
  split at h
  · exact .value (Value.isOfValue_mul _ _ f (Outcome.map_eq_error h))
  · rename_i hother
    refine .misfit (Except.error.inj h ▸ rfl) fun hlength => ?_
    match span, hlength with
    | [m, t], _ => exact hother m t rfl

theorem percentage_breaks (h : percentage span = .error f) : BreaksBy nested .percentage span f := by
  unfold percentage at h
  split at h
  · exact .value (Value.isOfValue_div _ _ f (Outcome.map_eq_error h))
  · rename_i hother
    refine .misfit (Except.error.inj h ▸ rfl) fun hlength => ?_
    match span, hlength with
    | [t, m], _ => exact hother t m rfl

theorem powNegate_breaks (h : powNegate span = .error f) : BreaksBy nested .powNegate span f := by
  unfold powNegate at h
  split at h
  · refine .value (Outcome.IsOfValue.bind (Value.isOfValue_mul _ _) (fun _ => ?_) f h)
    exact (Value.isOfValue_pow _ _).bind fun _ => Outcome.isOfValue_ok _
  · rename_i hother
    refine .misfit (Except.error.inj h ▸ rfl) fun hlength => ?_
    match span, hlength with
    | [b, o, m, t], _ => exact hother b o m t rfl

theorem mulNegate_breaks (h : mulNegate span = .error f) : BreaksBy nested .mulNegate span f := by
  unfold mulNegate at h
  split at h
  · refine .value (Outcome.IsOfValue.bind (Value.isOfValue_mul _ _) (fun _ => ?_) f h)
    exact (Value.isOfValue_mul _ _).bind fun _ => Outcome.isOfValue_ok _
  · rename_i hother
    refine .misfit (Except.error.inj h ▸ rfl) fun hlength => ?_
    match span, hlength with
    | [l, o, m, r], _ => exact hother l o m r rfl

theorem expandRange_breaks (h : expandRange span = .error f) : BreaksBy nested .expandRange span f := by
  unfold expandRange at h
  split at h
  · cases h
  · rename_i hother
    refine .misfit (Except.error.inj h ▸ rfl) fun hlength => ?_
    match span, hlength with
    | [l, o, m, u, r], _ => exact hother l o m u r rfl

theorem choose_breaks (h : choose span = .error f) : BreaksBy nested .choose span f := by
  unfold choose at h
  split at h
  · cases h
  · rename_i hother
    refine .misfit (Except.error.inj h ▸ rfl) fun hlength => ?_
    match span, hlength with
    | [a, b, c, d, u, v, w, x], _ => exact hother a b c d u v w x rfl

theorem round_breaks (h : (round settings nested span).outcome = .error f) : BreaksBy nested .round span f := by
  unfold round at h
  split at h
  · rename_i hnone
    refine .misfit (Except.error.inj h ▸ rfl) ?_
    rintro ⟨body, rfl⟩
    cases (inside?_wrap _ body).symm.trans hnone
  · rename_i tokens htokens
    have rounded : ∀ {v p : Value} {g : Float → Stream}, ((Rounding.toPlaces v p settings.halfThreshold).bind
        fun x => .ok (g x)) = .error f → f.isOfValue = true := by
      intro v p g h
      rcases Outcome.bind_eq_error h with h | ⟨x, -, h⟩
      · exact Rounding.isOfValue_toPlaces _ _ _ f h
      · cases h
    have hissued : issued .round span = (chunks tokens).head?.getD [] :: (chunks tokens)[1]?.toList := by
      simp only [issued, htokens]
    rw [Traced.outcome_bind] at h
    rcases Outcome.bind_eq_error h with h | ⟨t, -, h⟩
    · exact .nested (hissued ▸ List.mem_cons_self ..) h
    · split at h
      · rename_i part hpart
        simp only [Traced.outcome_bind, Traced.outcome_pure, Traced.outcome_ofOutcome] at h
        rcases Outcome.bind_eq_error h with h | ⟨p, -, h⟩
        · exact .nested (by simp [hissued, hpart]) h
        · exact .value (rounded h)
      · simp only [Traced.outcome_bind, Traced.outcome_pure, Traced.outcome_ofOutcome] at h
        exact .value (rounded h)

theorem roundInt_breaks (h : (roundInt nested span).outcome = .error f) : BreaksBy nested .roundInt span f := by
  unfold roundInt at h
  split at h
  · rename_i hnone
    refine .misfit (Except.error.inj h ▸ rfl) ?_
    rintro ⟨name, -, body, rfl⟩
    cases (inside?_wrap _ body).symm.trans hnone
  · rename_i tokens htokens
    rw [Traced.outcome_bind] at h
    rcases Outcome.bind_eq_error h with h | ⟨t, -, h⟩
    · exact .nested (by simp [issued, htokens]) h
    · rw [Traced.outcome_bind] at h
      rcases Outcome.bind_eq_error h with h | ⟨n, -, h⟩
      · rw [Traced.outcome_ofOutcome] at h
        split at h
        · exact .value (Rounding.isOfValue_up _ f h)
        · exact .value (Rounding.isOfValue_down _ f h)
      · cases h

theorem ofStep_breaks (h : (ofStep settings nested step span).outcome = .error f) : BreaksBy nested step span f := by
  cases step with
  | apply => exact apply_breaks h
  | negate => exact negate_breaks h
  | powNegate => exact powNegate_breaks h
  | mulNegate => exact mulNegate_breaks h
  | percentage => exact percentage_breaks h
  | expandRange => exact expandRange_breaks h
  | choose => exact choose_breaks h
  | round => exact round_breaks h
  | roundInt => exact roundInt_breaks h
  | not =>
    rcases Outcome.bind_eq_error (Traced.outcome_bind .. ▸ h) with h | ⟨v, -, h⟩
    · exact .nested (List.mem_singleton_self _) h
    · cases h
  | evaluateGroup =>
    rcases Outcome.bind_eq_error (Traced.outcome_bind .. ▸ h) with h | ⟨v, -, h⟩
    · exact .nested (List.mem_singleton_self _) h
    · cases h

theorem ofStep_error (h : (ofStep settings nested step span).outcome = .error f) : FailsBy nested step span f :=
  (ofStep_breaks h).failsBy

/-- A call fails if no function has its name, or as the body of the function does. -/
theorem ofCall_error {table : RuleTable} {name : String} (h : ofCall table name span = .error f) :
    f = .unknownFunction name ∨ ∃ g, table.lookup? name = some g ∧
      g.body.run ((UserFunction.argumentsOf span).map (·.value)) = .error f := by
  unfold ofCall at h
  split at h
  · exact Or.inl (Except.error.inj h).symm
  · rename_i g hg
    exact Or.inr ⟨g, hg, Outcome.map_eq_error h⟩

end Replacement
end Reckoner
