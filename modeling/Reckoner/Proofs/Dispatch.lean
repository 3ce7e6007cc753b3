import Reckoner.Function.Standard
import Reckoner.Proofs.Nesting
import Reckoner.Proofs.RegistrationHistory
import Reckoner.Proofs.SingleCalls

/-!
# What actions are given

In the reduction of a stream each action is given the segment that its rule takes (`Engine.Dispatches`). Under a
standard table a step accepts it, since the pattern of its rule allows nothing else (`Reducible.accepts`), and the
arguments of a function of single values are every other token behind the opening bracket
(`UserFunction.TakesValues.argumentsOf`). So no step fails because it was given another number of tokens than it takes
apart, and a body is given as many values as its signature has shapes (`Engine.reduce_dispatch`).
-/

namespace Reckoner

/-! ### Steps -/

section Steps
variable {step : Step} {head body span : Stream}

theorem Site.accepts (h : Site step head body) : step.Accepts (head ++ body.wrap) := by
  cases h with
  | choose => rfl
  | round _ | roundTo _ _ _ | not _ | group _ => exact ⟨_, rfl⟩
  | roundUp _ | roundDown _ => exact ⟨_, by simp, _, rfl⟩

theorem Redex.accepts (h : Redex step span) : step.Accepts span := by
  cases h <;> rfl

theorem Reducible.accepts (h : Reducible (.step step) span) : step.Accepts span := by
  cases h with
  | site hsite => exact hsite.accepts
  | redex hredex => exact hredex.accepts

end Steps

/-- The outcome is not the failure of an action that was given another number of tokens than it takes apart. -/
def Outcome.Fits {α : Type} (o : Outcome α) : Prop := ∀ f, o = .error f → f.isMisfit = false

theorem Failure.not_isMisfit_of_isOfValue {f : Failure} (h : f.isOfValue = true) : f.isMisfit = false := by
  cases f <;> first | rfl | cases h

namespace Replacement
variable {settings : Settings} {nested : Stream → Traced Token} {step : Step} {span : Stream}

theorem ofStep_fits (h : Reducible (.step step) span) (hn : ∀ u ∈ issued step span, (nested u).outcome.Fits) :
    (ofStep settings nested step span).outcome.Fits := by
  intro f hf
  cases ofStep_breaks hf with
  | value hvalue => exact Failure.not_isMisfit_of_isOfValue hvalue
  | operator _ _ hnamed =>
    rcases named_breaks hnamed with hvalue | ⟨name, rfl⟩
    · exact Failure.not_isMisfit_of_isOfValue hvalue
    · rfl
  | nested hu hout => exact hn _ hu f hout
  | misfit _ hnot => exact absurd h.accepts hnot

end Replacement

/-! ### Arguments -/

/-- The matcher takes one token, which is neither a bracket nor a comma. -/
def Matcher.TakesValue (m : Matcher) : Prop := m.TakesOne ∧ ∀ t, t.isDelimiter = true → m.accepts t = false

theorem Matcher.TakesValue.not_isDelimiter {m : Matcher} {t : Token} (h : m.TakesValue) (ht : m.accepts t = true) :
    t.isDelimiter = false := by
  refine Bool.eq_false_iff.mpr fun hdelimiter => ?_
  rw [h.2 t hdelimiter] at ht
  cases ht

def UserFunction.TakesValues (f : UserFunction) : Prop := ∀ s ∈ f.signature, ∃ m, s.matcher? = .ok m ∧ m.TakesValue

namespace Pattern

/-- Between commas the tokens that are no delimiters stand at the even places. -/
theorem filter_of_parses : ∀ {ms : List Matcher} {body : Stream}, (∀ m ∈ ms, m.TakesValue) →
    Parses (ms.intersperse .comma) body → (body.filter fun t => !t.isDelimiter).length = ms.length ∧
      ∀ i, (body.filter fun t => !t.isDelimiter)[i]? = body[2 * i]?
  | [], body, _, h => by
    rw [parses_nil.mp h]
    exact ⟨rfl, fun _ => rfl⟩
  | [m], body, hms, h => by
    have hvalue := hms m (List.mem_singleton_self m)
    obtain ⟨t, rest, rfl, ht, hrest⟩ := (parses_single hvalue.1.1 hvalue.1.2).mp h
    obtain rfl := parses_nil.mp hrest
    rw [List.filter_cons_of_pos (by simp [hvalue.not_isDelimiter ht])]
    refine ⟨rfl, fun i => ?_⟩
    cases i with
    | zero => rfl
    | succ i => rfl
  | m :: m' :: ms, body, hms, h => by
    obtain ⟨hvalue, hrest⟩ := List.forall_mem_cons.mp hms
    rw [List.intersperse_cons_cons, parses_single hvalue.1.1 hvalue.1.2] at h
    obtain ⟨t, rest, rfl, ht, h⟩ := h
    -- The argument is kept and the comma behind it is not, so that the places go on by two.
    obtain ⟨u, rest, rfl, hu, h⟩ := parses_comma.mp h
    obtain ⟨hlen, hget⟩ := filter_of_parses hrest h
    have hcomma : u.isDelimiter = true := by simp [Token.isDelimiter, hu]
    rw [List.filter_cons_of_pos (by simp [hvalue.not_isDelimiter ht]), List.filter_cons_of_neg (by simp [hcomma])]
    refine ⟨congrArg (· + 1) hlen, fun i => ?_⟩
    cases i with
    | zero => rfl
    | succ i => exact hget i

end Pattern

/-- The arguments of a call are as many as the shapes of the signature, every other token behind the opening bracket. -/
theorem UserFunction.TakesValues.argumentsOf {f : UserFunction} {p : Pattern} {span : Stream} (h : f.TakesValues)
    (hp : f.pattern = .ok p) (hspan : p.Parses span) :
    (argumentsOf span).length = f.signature.length ∧
      ∀ i < f.signature.length, (argumentsOf span)[i]? = span[2 + 2 * i]? := by
  obtain ⟨ms, hlen, hms, rfl⟩ := exists_matchers h hp
  obtain ⟨body, rfl, hbody⟩ := Pattern.parses_call.mp hspan
  obtain ⟨hlength, hget⟩ := Pattern.filter_of_parses hms hbody
  have harguments : UserFunction.argumentsOf ([.named f.name] ++ body.wrap) = body.filter fun t => !t.isDelimiter := by
    rw [UserFunction.argumentsOf, List.dropLast_append_of_ne_nil (by simp [Stream.wrap]), dropLast_wrap]
    rfl
  rw [harguments, hlength, hlen]
  refine ⟨rfl, fun i hi => ?_⟩
  obtain ⟨t, ht⟩ : ∃ t, (body.filter fun t => !t.isDelimiter)[i]? = some t :=
    ⟨_, List.getElem?_eq_getElem (by omega)⟩
  have hinside := (List.getElem?_eq_some_iff.mp ((hget i).symm.trans ht)).1
  have hplace : ([Token.named f.name] ++ body.wrap)[2 + 2 * i]? = (body ++ [Token.closing])[2 * i]? := by
    rw [Nat.add_comm]
    rfl
  rw [hget, hplace, List.getElem?_append_left hinside]

/-- A rule of a call has the pattern of the function that was last registered under the name. -/
theorem RuleTable.exists_registered {fs : List UserFunction} {t : RuleTable} {r : Rule} {name : String}
    (hadd : fs.foldlM RuleTable.add {} = .ok t) (hr : r ∈ t.all) (haction : r.action = .call name) :
    ∃ f, f.pattern = .ok r.pattern ∧ UserFunction.latest? fs name = some f := by
  have ht : t.IsStandard := isStandard_default.foldlM hadd
  rcases List.mem_append.mp hr with hr | hr
  · obtain ⟨f, hname, hpattern, hlatest⟩ := ((Records.empty _).foldlM hadd).rules r hr
    obtain rfl : name = f.name := by simpa [haction] using hname
    exact ⟨f, hpattern, hlatest⟩
  · obtain ⟨step, hstep⟩ := Rule.exists_step r (ht.rules ▸ hr)
    rw [haction] at hstep
    cases hstep

namespace Engine
variable {e : Engine} {nested : Stream → Traced Token} {depth depth' : Int} {s u span : Stream} {action : Action}
  {rounds : Nat}

/-! ### What is dispatched -/

/-- In the reduction of a stream at a depth an action is given a span at its own depth: it is the action of the leading
    rule for what a level within the limit has made of its stream, and the span is the segment that the rule takes. -/
inductive Dispatches (e : Engine) (rounds : Nat) : Int → Stream → Int → Action → Stream → Prop where
  | level {depth : Int} {s last : Stream} {cs : List Contraction} {r : Rule} {i k : Nat} : depth ≤ e.limit →
      e.Rewrites (e.reduceWithin rounds (e.levels (depth + 1)) (depth + 1)) depth (e.entry s) cs last →
      2 ≤ last.length → Rule.Leads e.table.all last r i k →
      Dispatches e rounds depth s depth r.action (last.segment i k)
  | inside {depth depth' depth'' : Int} {s u : Stream} {action : Action} {span : Stream} :
      Nests e rounds depth s depth' u → Dispatches e rounds depth' u depth'' action span →
      Dispatches e rounds depth s depth'' action span

theorem Dispatches.exists_rule (h : e.Dispatches rounds depth s depth' action span) :
    ∃ r ∈ e.table.all, r.action = action ∧ r.pattern.Parses span := by
  induction h with
  | level _ _ _ hleads =>
    obtain ⟨⟨above, below, hall, -⟩, hoccurs, -⟩ := hleads
    exact ⟨_, by simp [hall], rfl, hoccurs.parses⟩
  | inside _ _ ih => exact ih

/-- A contraction that a level reports is its own one, or it is reported by a reduction that the level issues. -/
theorem mem_loop (rounds : Nat) (s : Stream) : ∀ c ∈ (e.loop nested depth rounds s).contractions,
    (∃ cs last r i, e.Rewrites nested depth s cs last ∧ 2 ≤ last.length ∧ Rule.Leads e.table.all last r i c.length ∧
      c.action = r.action ∧ c.depth = depth) ∨
    ∃ u, e.Issues nested depth s u ∧ c ∈ (nested u).contractions := by
  refine loop_induction (motive := fun _ s x => ∀ c ∈ x.contractions,
    (∃ cs last r i, e.Rewrites nested depth s cs last ∧ 2 ≤ last.length ∧ Rule.Leads e.table.all last r i c.length ∧
      c.action = r.action ∧ c.depth = depth) ∨
    ∃ u, e.Issues nested depth s u ∧ c ∈ (nested u).contractions)
    ?nil ?single ?stuck ?stopped ?step rounds s
  case nil | single | stuck | stopped =>
    intros
    contradiction
  case step =>
    intro rounds s r i span hlen h ih c hc
    obtain ⟨k, hleads, hspan⟩ := Rule.firstMatch?_eq_some_iff.mp h
    obtain rfl : span = s.segment i k := hspan
    have hle := hleads.occurs.le
    have hi : i = (s.take i).length := by
      rw [List.length_take]
      omega
    rw [loop_contractions hlen h (s.split_segment i k) hi] at hc
    rcases List.mem_append.mp hc with hc | hc
    · cases haction : r.action with
      | call name =>
        rw [haction] at hc
        cases hc
      | step step =>
        rw [haction] at hc
        obtain ⟨u, hu, hc⟩ := Replacement.mem_events (Traced.mem_contractionsOf.mp hc)
        exact Or.inr ⟨u, ⟨[], s, r, i, k, step, .refl s, hlen, hleads, haction, hu⟩, Traced.mem_contractionsOf.mpr hc⟩
    · cases hfire : e.fire nested r.action (s.segment i k) with
      | error f =>
        rw [hfire] at hc
        cases hc
      | ok new =>
        rw [hfire] at hc
        rcases List.mem_cons.mp hc with rfl | hc
        · exact Or.inl ⟨[], s, r, i, .refl s, hlen, (Stream.length_segment hle).symm ▸ hleads, rfl, rfl⟩
        · -- What comes behind the first contraction comes behind it in the rewriting.
          rcases ih _ c hc with ⟨cs, last, r', i', hrewrites, hrest⟩ | ⟨u, ⟨cs, last, r', i', k', step, hrewrites, hrest⟩, hc⟩
          · exact Or.inl ⟨_, last, r', i', .step hlen hleads hle hfire hrewrites, hrest⟩
          · exact Or.inr ⟨u, ⟨_, last, r', i', k', step, .step hlen hleads hle hfire hrewrites, hrest⟩, hc⟩

theorem dispatches_of_mem {c : Contraction} (h : c ∈ (e.reduceWithin rounds (e.levels depth) depth s).contractions) :
    ∃ span, e.Dispatches rounds depth s c.depth c.action span ∧ span.length = c.length := by
  generalize hn : e.levels depth = levels at h
  induction levels generalizing depth s with
  | zero => cases h
  | succ levels ih =>
    have hd : depth ≤ e.limit := by
      unfold Engine.levels at hn
      omega
    obtain rfl : e.levels (depth + 1) = levels := by
      have := levels_of_le hd
      omega
    rcases mem_loop rounds (e.entry s) c h with ⟨cs, last, r, i, hrewrites, hlen, hleads, haction, hdepth⟩ | ⟨u, hissues, hc⟩
    · rw [haction, hdepth]
      exact ⟨_, .level hd hrewrites hlen hleads, Stream.length_segment hleads.occurs.le⟩
    · obtain ⟨span, hdispatches, hspan⟩ := ih rfl hc
      exact ⟨span, .inside (.issued hd hissues) hdispatches, hspan⟩

/-! ### Which actions do not fit -/

theorem Ends.misfit {left : Nat} {f : Failure} (h : e.Ends nested left s (.error f)) (hf : f.isMisfit = true) :
    ∃ r i k, Rule.Leads e.table.all s r i k ∧
      (Replacement.ofAction e.settings nested e.table r.action (s.segment i k)).outcome = .error f := by
  refine h.action_error ?_ ?_ fun u => ?_ <;> rintro rfl <;> cases hf

section Standard
variable (ht : e.table.IsStandard)
include ht

/-- In a stream without delimiters there is no action that does not fit. -/
theorem fits_of_flat (hu : u.IsFlat) (levels : Nat) : (e.reduceWithin rounds levels depth u).outcome.Fits := by
  intro f h
  cases levels with
  | zero =>
    cases h
    rfl
  | succ levels =>
    obtain ⟨cs, last, hrewrites, -, hends⟩ :=
      loop_rewrites (lt_depth_of_mem rounds levels depth) rounds (e.entry u) (e.entry_ne_nil u)
    have hfailed : (e.loop (e.reduceWithin rounds levels (depth + 1)) depth rounds (e.entry u)).outcome = .error f := h
    rw [hfailed] at hends
    refine Bool.eq_false_iff.mpr fun hf => ?_
    obtain ⟨r, i, k, hleads, hout⟩ := hends.misfit hf
    -- No delimiter has come up in between, so that the rule takes a redex, inside of which nothing is reduced.
    have hlast := hrewrites.flat ht (flat_entry hu)
    rw [last.split_segment i k] at hlast
    have hred := ht.reducible_of_leads hleads
    obtain ⟨step, haction, hredex⟩ := hred.redex_of_flat hlast
    rw [haction] at hred hout
    rw [Replacement.ofStep_fits hred (fun v hv => absurd (Replacement.issued_redex hredex ▸ hv) List.not_mem_nil) f hout] at hf
    cases hf

theorem Dispatches.step {step : Step} (h : e.Dispatches rounds depth s depth' (.step step) span) : step.Accepts span ∧
    (Replacement.ofStep e.settings (e.reduceWithin rounds (e.levels (depth' + 1)) (depth' + 1)) step span).outcome.Fits := by
  obtain ⟨r, hr, haction, hparses⟩ := h.exists_rule
  have hred : Reducible (.step step) span := haction ▸ ht.reducible hr hparses
  exact ⟨hred.accepts, Replacement.ofStep_fits hred fun u hu => fits_of_flat ht (Replacement.flat_of_issued hred hu) _⟩

/-- Only the body of a function says that something does not fit, of the values that it is given. -/
theorem exists_call_of_misfit {f : Failure} (h : (e.reduce depth s).outcome = .error f) (hf : f.isMisfit = true) :
    ∃ name span g, e.Dispatches (e.roundsFor s) depth s depth (.call name) span ∧ e.table.lookup? name = some g ∧
      g.body.run ((UserFunction.argumentsOf span).map (·.value)) = .error f := by
  rcases Int.lt_or_le e.limit depth with hlt | hd
  · rw [reduce_of_limit_lt hlt] at h
    cases h
    cases hf
  obtain ⟨cs, last, hrewrites, -, hends⟩ :=
    loop_rewrites (lt_depth_of_mem_inner s) (e.roundsFor s) (e.entry s) (e.entry_ne_nil s)
  rw [← reduce_eq_inner hd, h] at hends
  obtain ⟨r, i, k, hleads, hout⟩ := hends.misfit hf
  have hdispatches := Dispatches.level hd hrewrites hends.two_le hleads
  cases haction : r.action with
  | step step =>
    rw [haction] at hout hdispatches
    rw [(hdispatches.step ht).2 f hout] at hf
    cases hf
  | call name =>
    rw [haction] at hout hdispatches
    rcases Replacement.ofCall_error (Outcome.map_eq_error hout) with rfl | ⟨g, hg, hrun⟩
    · cases hf
    · exact ⟨name, _, g, hdispatches, hg, hrun⟩

end Standard

/-- Under the standard rules and any user functions no action is given another number of tokens than it takes apart. All
    contractions that a reduction reports were dispatched. A step that is dispatched accepts its span and does not fail
    for its form. A call that is dispatched runs the body of the function that was last registered under its name; if
    the shapes of the function are single values, on as many values as there are shapes, those of every other token
    behind the opening bracket. A failure for the form of what was given is that of such a body. -/
theorem reduce_dispatch {fs : List UserFunction} {e : Engine} (hadd : fs.foldlM RuleTable.add {} = .ok e.table)
    (hlower : ∀ f ∈ fs, Text.lower f.name = f.name) (depth : Int) (s : Stream) :
    (∀ c ∈ (e.reduce depth s).contractions,
      ∃ span, e.Dispatches (e.roundsFor s) depth s c.depth c.action span ∧ span.length = c.length) ∧
    (∀ d step span, e.Dispatches (e.roundsFor s) depth s d (.step step) span → step.Accepts span ∧
      (Replacement.ofStep e.settings (e.reduceWithin (e.roundsFor s) (e.levels (d + 1)) (d + 1)) step span).outcome.Fits) ∧
    (∀ d name span, e.Dispatches (e.roundsFor s) depth s d (.call name) span →
      ∃ f, UserFunction.latest? fs name = some f ∧
        let values := (UserFunction.argumentsOf span).map (·.value)
        Replacement.ofCall e.table name span = (f.body.run values).map (⟨f.returns, ·⟩) ∧
        (f.TakesValues → values.length = f.signature.length ∧
          ∀ i < f.signature.length, values[i]? = span[2 + 2 * i]?.map (·.value))) ∧
    ∀ f, (e.reduce depth s).outcome = .error f → f.isMisfit = true →
      ∃ name span g, e.Dispatches (e.roundsFor s) depth s depth (.call name) span ∧ e.table.lookup? name = some g ∧
        g.body.run ((UserFunction.argumentsOf span).map (·.value)) = .error f := by
  have ht : e.table.IsStandard := RuleTable.isStandard_default.foldlM hadd
  refine ⟨fun c hc => dispatches_of_mem hc, fun d step span h => h.step ht, fun d name span h => ?_,
    fun f h hf => exists_call_of_misfit ht h hf⟩
  obtain ⟨r, hr, haction, hparses⟩ := h.exists_rule
  obtain ⟨f, hpattern, hlatest⟩ := RuleTable.exists_registered hadd hr haction
  have hmem : f ∈ fs := List.mem_reverse.mp (List.mem_of_find?_eq_some hlatest)
  have hname : f.name = name := by simpa using List.find?_some hlatest
  refine ⟨f, hlatest, ?_, fun hvalues => ?_⟩
  · have hlookup : e.table.lookup? name = some f := by
      rw [((RuleTable.Records.empty _).foldlM hadd).lookup?, ← hname, hlower f hmem, hname]
      exact hlatest
    rw [Replacement.ofCall, hlookup]
  · obtain ⟨hlength, hget⟩ := hvalues.argumentsOf hpattern hparses
    refine ⟨(List.length_map _).trans hlength, fun i hi => ?_⟩
    rw [List.getElem?_map, hget i hi]

/-- The call that takes a difference is given two values, once the product in front of the comma is computed. -/
theorem reduce_dispatch_difference :
    ∃ (f : UserFunction) (e : Engine) (s call : Stream), RuleTable.add {} f = .ok e.table ∧ f.TakesValues ∧
      s = [.named f.name] ++ Stream.wrap [.number (.int 7), ⟨.operator, .text "multiply"⟩, .number (.int 2), .comma,
        .number (.int 5)] ∧
      e.Dispatches (e.roundsFor s) 0 s 0 (.call f.name) call ∧
      let values := (UserFunction.argumentsOf call).map (·.value)
      values.length = 2 ∧ ∀ i < 2, values[i]? = call[2 + 2 * i]?.map (·.value) := by
  let f := UserFunction.make "sub" .numeric [.category .numeric, .category .numeric] ⟨"sub", Body.difference⟩
  let e : Engine := { table := ⟨⟨[f]⟩, [⟨.call f.name [.numeric, .comma, .numeric], .call f.name⟩], Rule.standard⟩ }
  let s : Stream := [.named f.name] ++ Stream.wrap [.number (.int 7), ⟨.operator, .text "multiply"⟩, .number (.int 2), .comma,
    .number (.int 5)]
  have hvalue : ∃ m, Shape.matcher? (.category .numeric) = .ok m ∧ m.TakesValue := by
    refine ⟨.numeric, rfl, ⟨rfl, rfl⟩, fun t ht => Bool.eq_false_iff.mpr fun hacc => ?_⟩
    rw [Token.isDelimiter, Matcher.accepts_category.mp hacc] at ht
    cases ht
  have hvalues : f.TakesValues := List.forall_mem_cons.mpr ⟨hvalue, List.forall_mem_singleton.mpr hvalue⟩
  have hcontractions : (e.reduce 0 s).contractions.map (fun c => (c.action, c.depth)) =
      [(.step .apply, 0), (.call f.name, 0)] := by decide +kernel
  have hlatest : UserFunction.latest? [f] f.name = some f := @UserFunction.latest?_snoc_self f []
  obtain ⟨hdispatched, -, hcalls, -⟩ :=
    @reduce_dispatch [f] e rfl (List.forall_mem_singleton.mpr (Text.lower_lower _)) 0 s
  obtain ⟨c, hc, hcall⟩ := List.mem_map.mp (hcontractions ▸ List.mem_cons_of_mem _ (List.mem_singleton_self _))
  obtain ⟨haction, hdepth⟩ := Prod.mk.inj hcall
  obtain ⟨call, hdispatches, -⟩ := hdispatched c hc
  rw [haction, hdepth] at hdispatches
  obtain ⟨g, hg, -, harguments⟩ := hcalls 0 f.name call hdispatches
  obtain rfl : f = g := Option.some.inj (hlatest.symm.trans hg)
  exact ⟨f, e, s, call, rfl, hvalues, rfl, hdispatches, harguments hvalues⟩

end Engine
end Reckoner
