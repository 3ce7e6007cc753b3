import Reckoner.Proofs.Nesting
import Reckoner.Proofs.SingleCalls

/-!
# The order of registration

Functions of distinct names whose arguments are single tokens can be registered in any order. The order decides which
call of a stream is answered first. But calls never overlap, so that answering one leaves the others as they are
(`Engine.Answers.diamond`), and a stream reduces to the same token whichever call is answered first
(`Engine.answering`). Once no calls are left, the standard rules take over, and all they have reduced inside of the
stream are streams without brackets, where no function is called. So a stream reduces to the same tokens under both
orders (`Engine.reduce_perm_iff`).
-/

namespace Reckoner

/-! ### Tables of the same functions -/

namespace RuleTable
variable {t u : RuleTable} {f : UserFunction} {fs gs : List UserFunction} {r : Rule}

/-- The tables have the same functions and the same rules for them, in any order. -/
structure Reorders (t u : RuleTable) : Prop where
  rules : ∀ r, r ∈ t.functionRules ↔ r ∈ u.functionRules
  lookup? : ∀ name, t.lookup? name = u.lookup? name

theorem mem_functionRules_of_foldlM : ∀ {fs : List UserFunction} {t : RuleTable}, fs.foldlM RuleTable.add t = .ok u →
    r ∈ u.functionRules → (∃ f ∈ fs, ∃ p, f.pattern = .ok p ∧ r = ⟨p, .call f.name⟩) ∨ r ∈ t.functionRules
  | [], t, h, hr => by
    rw [← Except.ok.inj h] at hr
    exact Or.inr hr
  | f :: fs, t, h, hr => by
    rw [List.foldlM_cons] at h
    obtain ⟨t', ht', h⟩ := Outcome.bind_eq_ok h
    obtain ⟨p, hp, hadd⟩ := Outcome.bind_eq_ok ht'
    rcases mem_functionRules_of_foldlM h hr with ⟨g, hg, hrule⟩ | hr
    · exact Or.inl ⟨g, List.mem_cons_of_mem _ hg, hrule⟩
    · rw [← Except.ok.inj hadd] at hr
      rcases List.mem_cons.mp hr with rfl | hr
      · exact Or.inl ⟨f, List.mem_cons_self .., p, hp, rfl⟩
      · exact Or.inr (List.mem_filter.mp hr).1

section Distinct
variable (hnames : (fs.map (·.name)).Nodup) (h : fs.foldlM RuleTable.add {} = .ok u)
include hnames h

/-- Under distinct names every function is the one that is called. -/
theorem calls_of_mem (hf : f ∈ fs) : ∃ p, f.pattern = .ok p ∧ u.Calls f p := by
  obtain ⟨before, after, rfl⟩ := List.append_of_mem hf
  refine calls_of_foldlM (fun g hg hname => ?_) h
  rw [List.map_append, List.map_cons] at hnames
  have hnot := (List.nodup_cons.mp (List.nodup_append.mp hnames).2.1).1
  exact hnot (hname ▸ List.mem_map_of_mem hg)

theorem mem_functionRules_iff : r ∈ u.functionRules ↔ ∃ f ∈ fs, ∃ p, f.pattern = .ok p ∧ r = ⟨p, .call f.name⟩ := by
  constructor
  · exact fun hr => (mem_functionRules_of_foldlM h hr).resolve_right List.not_mem_nil
  · rintro ⟨f, hf, p, hp, rfl⟩
    obtain ⟨q, hq, hcalls⟩ := calls_of_mem hnames h hf
    obtain rfl : p = q := Except.ok.inj (hp.symm.trans hq)
    exact hcalls.rule

theorem lookup?_eq_some_iff {name : String} : u.lookup? name = some f ↔ f ∈ fs ∧ f.name = Text.lower name := by
  constructor
  · intro hfind
    rw [RuleTable.lookup?, Registry.lookup?] at hfind
    have hname := List.find?_some hfind
    have hmem := mem_functions_of_foldlM h (List.mem_of_find?_eq_some hfind)
    exact ⟨hmem.resolve_right List.not_mem_nil, eq_of_beq hname⟩
  · rintro ⟨hf, hname⟩
    obtain ⟨p, -, hcalls⟩ := calls_of_mem hnames h hf
    rw [RuleTable.lookup?, Registry.lookup?, ← hname]
    exact hcalls.found

theorem takesSingles_of_foldlM (hsingles : ∀ f ∈ fs, f.TakesSingles) : u.TakesSingles where
  singles r hr := by
    obtain ⟨f, hf, p, hp, rfl⟩ := (mem_functionRules_iff hnames h).mp hr
    exact (hsingles f hf).rule hp
  unique r hr r' hr' haction := by
    obtain ⟨f, hf, p, hp, rfl⟩ := (mem_functionRules_iff hnames h).mp hr
    obtain ⟨q, -, hcalls⟩ := calls_of_mem hnames h hf
    rw [hcalls.only _ hr rfl, hcalls.only r' hr' haction.symm]

end Distinct

theorem reorders_of_perm (hperm : fs.Perm gs) (hnames : (fs.map (·.name)).Nodup)
    (ht : fs.foldlM RuleTable.add {} = .ok t) (hu : gs.foldlM RuleTable.add {} = .ok u) : t.Reorders u := by
  have hnames' : (gs.map (·.name)).Nodup := (hperm.map _).nodup_iff.mp hnames
  constructor
  · intro r
    simp only [mem_functionRules_iff hnames ht, mem_functionRules_iff hnames' hu, hperm.mem_iff]
  · intro name
    refine Option.ext fun f => ?_
    rw [lookup?_eq_some_iff hnames ht, lookup?_eq_some_iff hnames' hu, hperm.mem_iff]

/-- In a stream with a call the topmost match is one. -/
theorem TakesSingles.firstMatch? (h : t.TakesSingles) {span : Stream} (hr : r ∈ t.functionRules)
    (hp : r.pattern.Parses span) (pre post : Stream) :
    ∃ r' pre' span' post', r' ∈ t.functionRules ∧ r'.pattern.Parses span' ∧
      pre ++ (span ++ post) = pre' ++ (span' ++ post') ∧
      Rule.firstMatch? t.all (pre ++ (span ++ post)) = some (r', pre'.length, span') := by
  have hfind := (h.singles r hr).find?_ne_none hp pre post
  cases hfirst : Rule.firstMatch? t.all (pre ++ (span ++ post)) with
  | none => exact absurd (Rule.firstMatch?_eq_none.mp hfirst r (List.mem_append_left _ hr)) hfind
  | some found =>
    obtain ⟨r', k, span'⟩ := found
    obtain ⟨above, below, hall, habove, hfind'⟩ := Rule.firstMatch?_some hfirst
    obtain ⟨pre', post', hs, rfl, hfound⟩ := Pattern.foundAt_of_find? hfind'
    obtain ⟨rest, hrules⟩ := Rule.mem_of_split hall hr fun hmem => hfind (habove r hmem)
    exact ⟨r', pre', span', post', by simp [hrules], hfound.parses, hs, rfl⟩

/-- Without calls only the standard rules count. -/
theorem IsStandard.firstMatch? (ht : t.IsStandard) {s : Stream} (h : ∀ r ∈ t.functionRules, r.pattern.find? s = none) :
    Rule.firstMatch? t.all s = Rule.firstMatch? Rule.standard s := by
  rw [RuleTable.all, Rule.firstMatch?_append h, ht.rules]

/-- No function is called in a stream without delimiters. -/
theorem IsStandard.firstMatch?_flat (ht : t.IsStandard) {s : Stream} (hs : s.IsFlat) :
    Rule.firstMatch? t.all s = Rule.firstMatch? Rule.standard s := by
  refine ht.firstMatch? fun r hr => ?_
  obtain ⟨name, arguments, rfl⟩ := ht.calls r hr
  exact Pattern.find?_call (Or.inl (hs.not_mem rfl))

end RuleTable

namespace Engine
variable {e : Engine} {depth : Int} {s a b : Stream} {t : Token}

/-! ### Answers to calls -/

/-- A call of the stream is answered, with the token in place of the call. -/
inductive Answers (e : Engine) (depth : Int) : Stream → Stream → Prop where
  | intro {r : Rule} {pre span new : Stream} (post : Stream) : r ∈ e.table.functionRules → r.pattern.Parses span →
      e.fire (e.reduce (depth + 1)) r.action span = .ok new →
      Answers e depth (pre ++ (span ++ post)) (pre ++ (new ++ post))

/-- The answer to a call of the stream is a failure. -/
inductive Refuses (e : Engine) (depth : Int) : Stream → Prop where
  | intro {r : Rule} {pre span : Stream} {f : Failure} (post : Stream) : r ∈ e.table.functionRules →
      r.pattern.Parses span → e.fire (e.reduce (depth + 1)) r.action span = .error f →
      Refuses e depth (pre ++ (span ++ post))

section Standard
variable (ht : e.table.IsStandard) (hsingles : e.table.TakesSingles)

include ht in
theorem Answers.potential_lt (h : Answers e depth s a) : a.potential < s.potential := by
  cases h with
  | intro post hr hp hfire =>
    have hred := ht.reducible (List.mem_append_left _ hr) hp
    exact (hred.potential_lt (e.ofAction_of_fire _ _ hfire).1 _ post).2

/-- Calls that are apart can be answered one after the other in both orders. -/
theorem answers_apart {r₁ r₂ : Rule} {pre₁ span₁ new₁ mid span₂ new₂ : Stream}
    (hr₁ : r₁ ∈ e.table.functionRules) (hr₂ : r₂ ∈ e.table.functionRules)
    (hp₁ : r₁.pattern.Parses span₁) (hp₂ : r₂.pattern.Parses span₂)
    (hf₁ : e.fire (e.reduce (depth + 1)) r₁.action span₁ = .ok new₁)
    (hf₂ : e.fire (e.reduce (depth + 1)) r₂.action span₂ = .ok new₂) (post₂ : Stream) :
    ∃ c, Answers e depth (pre₁ ++ (new₁ ++ (mid ++ (span₂ ++ post₂)))) c ∧
      Answers e depth ((pre₁ ++ (span₁ ++ mid)) ++ (new₂ ++ post₂)) c := by
  have second := @Answers.intro e depth r₂ (pre₁ ++ (new₁ ++ mid)) span₂ new₂ post₂ hr₂ hp₂ hf₂
  have first := @Answers.intro e depth r₁ pre₁ span₁ new₁ (mid ++ (new₂ ++ post₂)) hr₁ hp₁ hf₁
  refine ⟨pre₁ ++ (new₁ ++ (mid ++ (new₂ ++ post₂))), ?_, ?_⟩
  · simpa only [List.append_assoc] using second
  · simpa only [List.append_assoc] using first

include hsingles

/-- Two answers give the same stream, or an answer leads from each of the streams to a common one. -/
theorem Answers.diamond (ha : Answers e depth s a) (hb : Answers e depth s b) :
    a = b ∨ ∃ c, Answers e depth a c ∧ Answers e depth b c := by
  cases ha with
  | @intro r₁ pre₁ span₁ new₁ post₁ hr₁ hp₁ hf₁ =>
    generalize hs : pre₁ ++ (span₁ ++ post₁) = s₂ at hb
    cases hb with
    | @intro r₂ pre₂ span₂ new₂ post₂ hr₂ hp₂ hf₂ =>
      -- The same call, or the second one stands behind the first one, or in front of it.
      rcases hsingles.same_or_apart hr₁ hr₂ hp₁ hp₂ hs with ⟨rfl, rfl, rfl, rfl⟩ | ⟨mid, rfl, rfl⟩ | ⟨mid, rfl, rfl⟩
      · rw [hf₁] at hf₂
        exact Or.inl (by rw [Except.ok.inj hf₂])
      · exact Or.inr (answers_apart hr₁ hr₂ hp₁ hp₂ hf₁ hf₂ post₂)
      · obtain ⟨c, hc₂, hc₁⟩ := answers_apart hr₂ hr₁ hp₂ hp₁ hf₂ hf₁ post₁
        exact Or.inr ⟨c, hc₁, hc₂⟩

/-- A call that fails is still there when another one has been answered. -/
theorem Refuses.of_answers (h : Refuses e depth s) (ha : Answers e depth s a) : Refuses e depth a := by
  cases ha with
  | @intro r₁ pre₁ span₁ new₁ post₁ hr₁ hp₁ hf₁ =>
    generalize hs : pre₁ ++ (span₁ ++ post₁) = s₂ at h
    cases h with
    | @intro r₂ pre₂ span₂ f post₂ hr₂ hp₂ hf₂ =>
      rcases hsingles.same_or_apart hr₁ hr₂ hp₁ hp₂ hs with ⟨rfl, rfl, rfl, rfl⟩ | ⟨mid, rfl, rfl⟩ | ⟨mid, rfl, rfl⟩
      · -- A call with an answer does not fail.
        rw [hf₁] at hf₂
        cases hf₂
      · have := @Refuses.intro e depth r₂ (pre₁ ++ (new₁ ++ mid)) span₂ f post₂ hr₂ hp₂ hf₂
        simpa only [List.append_assoc] using this
      · have := @Refuses.intro e depth r₂ pre₂ span₂ f (mid ++ (new₁ ++ post₁)) hr₂ hp₂ hf₂
        simpa only [List.append_assoc] using this

include ht

/-- A stream with a call fails by one of its calls, or it reduces as after the answer to one. -/
theorem reduce_call (hrounds : e.rounds = none) (hd : depth ≤ e.limit) {r : Rule} {span : Stream}
    (hr : r ∈ e.table.functionRules) (hp : r.pattern.Parses span) (pre post : Stream) (t : Token) :
    (Refuses e depth (pre ++ (span ++ post)) ∧ (e.reduce depth (pre ++ (span ++ post))).outcome ≠ .ok t) ∨
      ∃ a, Answers e depth (pre ++ (span ++ post)) a ∧
        ((e.reduce depth (pre ++ (span ++ post))).outcome = .ok t ↔ (e.reduce depth a).outcome = .ok t) := by
  obtain ⟨r', pre', span', post', hr', hp', hs, hmatch⟩ := hsingles.firstMatch? hr hp pre post
  have hlen : 2 ≤ (pre ++ (span ++ post)).length := by
    have := (ht.reducible (List.mem_append_left _ hr) hp).two_le
    simp only [List.length_append]
    omega
  have hred := reduce_match ht hrounds hd hlen hmatch hs rfl
  rw [hred, hs]
  cases hfire : e.fire (e.reduce (depth + 1)) r'.action span' with
  | error f => exact Or.inl ⟨.intro post' hr' hp' hfire, fun h => by cases h⟩
  | ok new => exact Or.inr ⟨_, .intro post' hr' hp' hfire, Iff.rfl⟩

/-- The calls of a stream can be answered in any order. -/
theorem answering (hrounds : e.rounds = none) (hd : depth ≤ e.limit) (t : Token) :
    Joining Stream.potential (fun _ => True) (Answers e depth) (Refuses e depth)
      (fun s => (e.reduce depth s).outcome = .ok t) where
  shrinks _ ha := ⟨trivial, ha.potential_lt ht⟩
  diamond _ ha hb := ha.diamond hsingles hb
  stays _ hrefuses ha := hrefuses.of_answers hsingles ha
  first := by
    rintro s - (⟨post, hr, hp, -⟩ | ⟨a, ⟨post, hr, hp, -⟩⟩)
    · exact reduce_call ht hsingles hrounds hd hr hp _ post t
    · exact reduce_call ht hsingles hrounds hd hr hp _ post t

end Standard

/-! ### Under another order -/

section Reordered
variable {u : RuleTable} (ht : e.table.IsStandard) (hu : u.IsStandard) (hreorders : e.table.Reorders u)

include hreorders in
theorem fire_call_reordered {nested nested' : Stream → Traced Token} (name : String) (span : Stream) :
    Engine.fire { e with table := u } nested (.call name) span = e.fire nested' (.call name) span := by
  have hcall : Replacement.ofCall u name span = Replacement.ofCall e.table name span := by
    rw [Replacement.ofCall, Replacement.ofCall, hreorders.lookup?]
  simp only [fire, Replacement.ofAction, Traced.outcome_ofOutcome, hcall]

include ht hreorders in
theorem fire_rule_reordered {nested nested' : Stream → Traced Token} {r : Rule} (hr : r ∈ e.table.functionRules)
    (span : Stream) : Engine.fire { e with table := u } nested r.action span = e.fire nested' r.action span := by
  obtain ⟨name, arguments, rfl⟩ := ht.calls r hr
  exact fire_call_reordered hreorders name span

include ht hreorders in
theorem Answers.reordered (h : Answers e depth s a) : Answers { e with table := u } depth s a := by
  cases h with
  | intro post hr hp hfire =>
    exact .intro post ((hreorders.rules _).mp hr) hp ((fire_rule_reordered ht hreorders hr _).trans hfire)

include ht hreorders in
theorem Refuses.reordered (h : Refuses e depth s) : Refuses { e with table := u } depth s := by
  cases h with
  | intro post hr hp hfire =>
    exact .intro post ((hreorders.rules _).mp hr) hp ((fire_rule_reordered ht hreorders hr _).trans hfire)

variable (hrounds : e.rounds = none)
include ht hu hrounds

/-- What is reduced inside of a stream holds no brackets, so that no function is called there. -/
theorem fire_step_reordered {step : Step} {span : Stream} (hred : Reducible (.step step) span) :
    Engine.fire { e with table := u } (Engine.reduce { e with table := u } (depth + 1)) (.step step) span =
      e.fire (e.reduce (depth + 1)) (.step step) span := by
  have hflat : ∀ v : Stream, v.IsFlat →
      (Engine.reduce { e with table := u } (depth + 1) v).outcome = (e.reduce (depth + 1) v).outcome := by
    intro v hv
    rcases Int.lt_or_le e.limit (depth + 1) with hlt | hle
    · rw [reduce_of_limit_lt hlt, @reduce_of_limit_lt { e with table := u } _ hlt]
    · refine (reduce_flat_congr ht hu (fun ts hts => ?_) hrounds hle hle hv).symm
      rw [hu.firstMatch?_flat hts, ht.firstMatch?_flat hts]
  have hstep := @Replacement.ofStep_outcome_congr e.settings _ _ step span fun v hv =>
    hflat v (Replacement.flat_of_issued hred hv)
  simp only [fire, Replacement.ofAction, hstep]

/-- In a stream without calls the standard rules take the same step. -/
theorem reduce_uncalled_reordered (hd : depth ≤ e.limit) (hreorders : e.table.Reorders u)
    (hnone : ∀ r ∈ e.table.functionRules, r.pattern.find? s = none)
    (ih : ∀ v : Stream, v.potential < s.potential →
      ((e.reduce depth v).outcome = .ok t ↔ (Engine.reduce { e with table := u } depth v).outcome = .ok t)) :
    (e.reduce depth s).outcome = .ok t ↔ (Engine.reduce { e with table := u } depth s).outcome = .ok t := by
  let e' : Engine := { e with table := u }
  have hmatch := ht.firstMatch? hnone
  have hmatch' := hu.firstMatch? fun r hr => hnone r ((hreorders.rules r).mpr hr)
  match s with
  | [] => rw [reduce_nil ht hrounds hd, @reduce_nil e' depth hu hrounds hd]
  | [v] => rw [reduce_single ht hrounds hd, @reduce_single e' depth hu hrounds hd]
  | v :: w :: s =>
    have hlen : 2 ≤ (v :: w :: s).length := by simp
    cases h : Rule.firstMatch? Rule.standard (v :: w :: s) with
    | none =>
      rw [reduce_stuck ht hrounds hd hlen (hmatch.trans h),
        @reduce_stuck e' depth _ hu hrounds hd hlen (hmatch'.trans h)]
    | some found =>
      obtain ⟨r, k, span⟩ := found
      obtain ⟨pre, post, hs, hk, hred⟩ := ht.taken (hmatch.trans h)
      rw [reduce_match ht hrounds hd hlen (hmatch.trans h) hs hk,
        @reduce_match e' depth _ _ _ _ _ _ hu hrounds hd hlen (hmatch'.trans h) hs hk]
      obtain ⟨above, below, hall, -, -⟩ := Rule.firstMatch?_some h
      obtain ⟨step, haction⟩ := Rule.exists_step r (by simp [hall])
      rw [haction] at hred ⊢
      rw [fire_step_reordered ht hu hrounds hred]
      cases hfire : e.fire (e.reduce (depth + 1)) (.step step) span with
      | error f => exact Iff.rfl
      | ok new => exact ih _ (hs ▸ (hred.potential_lt (e.ofAction_of_fire _ _ hfire).1 pre post).2)

/-- Tables of the same functions of single arguments reduce a stream to the same tokens. -/
theorem reduce_reordered_iff (hsingles : e.table.TakesSingles) (hsingles' : u.TakesSingles)
    (hreorders : e.table.Reorders u) (hd : depth ≤ e.limit) : (e.reduce depth s).outcome = .ok t ↔
      (Engine.reduce { e with table := u } depth s).outcome = .ok t := by
  have answering' := @answering { e with table := u } depth hu hsingles' hrounds hd t
  induction hn : s.potential using Nat.strongRecOn generalizing s with
  | ind n ih =>
    by_cases hcall : ∃ r ∈ e.table.functionRules, r.pattern.find? s ≠ none
    · obtain ⟨r, hr, hfind⟩ := hcall
      obtain ⟨⟨k, span⟩, hfind⟩ := Option.ne_none_iff_exists'.mp hfind
      obtain ⟨pre, post, rfl, -, hfound⟩ := Pattern.foundAt_of_find? hfind
      -- The call that is answered first in one order can be answered first in the other one.
      rcases reduce_call ht hsingles hrounds hd hr hfound.parses pre post t with ⟨hrefuses, hne⟩ | ⟨a, ha, hiff⟩
      · exact iff_of_false hne (answering'.not_done trivial (hrefuses.reordered ht hreorders))
      · rw [hiff, answering'.step_iff trivial (ha.reordered ht hreorders)]
        exact ih _ (hn ▸ ha.potential_lt ht) rfl
    · refine reduce_uncalled_reordered ht hu hrounds hd hreorders (fun r hr => ?_) fun v hv => ih _ (hn ▸ hv) rfl
      exact Classical.not_not.mp fun hne => hcall ⟨r, hr, hne⟩

end Reordered

/-- Functions of distinct names whose arguments are single tokens can be registered in any order: a stream reduces to a
    token under one order if and only if it does under the other one. -/
theorem reduce_perm_iff {fs gs : List UserFunction} {u : RuleTable} (hperm : fs.Perm gs)
    (hnames : (fs.map (·.name)).Nodup) (hsingles : ∀ f ∈ fs, f.TakesSingles)
    (ht : fs.foldlM RuleTable.add {} = .ok e.table) (hu : gs.foldlM RuleTable.add {} = .ok u)
    (hrounds : e.rounds = none) (depth : Int) (s : Stream) (t : Token) :
    (e.reduce depth s).outcome = .ok t ↔ (Engine.reduce { e with table := u } depth s).outcome = .ok t := by
  rcases Int.lt_or_le e.limit depth with hlt | hle
  · rw [reduce_of_limit_lt hlt, @reduce_of_limit_lt { e with table := u } _ hlt]
  · have hnames' : (gs.map (·.name)).Nodup := (hperm.map _).nodup_iff.mp hnames
    exact reduce_reordered_iff (RuleTable.isStandard_default.foldlM ht) (RuleTable.isStandard_default.foldlM hu) hrounds
      (RuleTable.takesSingles_of_foldlM hnames ht hsingles)
      (RuleTable.takesSingles_of_foldlM hnames' hu fun f hf => hsingles f (hperm.mem_iff.mpr hf))
      (RuleTable.reorders_of_perm hperm hnames ht hu) hle

/-- A call that gives the name of a function, which is called then, in both orders of the two functions. -/
theorem reduce_perm_iff_named :
    ∃ (f g : UserFunction) (t u : RuleTable), [f, g].foldlM RuleTable.add {} = .ok t ∧
      [g, f].foldlM RuleTable.add {} = .ok u ∧ f.returns = .function ∧
      (Engine.reduce { table := t } 0 ([.named f.name] ++ Stream.wrap [] ++ Stream.wrap [.number (.int 21)])).outcome =
        .ok (.number (.int 42)) ∧
      (Engine.reduce { table := u } 0 ([.named f.name] ++ Stream.wrap [] ++ Stream.wrap [.number (.int 21)])).outcome =
        .ok (.number (.int 42)) := by
  let f := UserFunction.make "pick" .function [] ⟨"pick", fun _ => .ok (.text "double")⟩
  let g := UserFunction.make "double" .numeric [.category .numeric] ⟨"double", Body.double⟩
  let pick : Rule := ⟨.call "pick" [], .call "pick"⟩
  let double : Rule := ⟨.call "double" [.numeric], .call "double"⟩
  let e : Engine := { table := ⟨⟨[f, g]⟩, [double, pick], Rule.standard⟩ }
  let u : RuleTable := ⟨⟨[g, f]⟩, [pick, double], Rule.standard⟩
  have ht : [f, g].foldlM RuleTable.add {} = .ok e.table := rfl
  have hu : [g, f].foldlM RuleTable.add {} = .ok u := rfl
  have hnames : ([f, g].map (·.name)).Nodup := by decide +kernel
  have hsingles : ∀ h ∈ [f, g], h.TakesSingles := by
    simp only [List.forall_mem_cons, List.not_mem_nil, false_implies, implies_true, and_true]
    refine ⟨fun s hs => absurd hs List.not_mem_nil, fun s hs => ?_⟩
    rw [List.mem_singleton.mp hs]
    exact ⟨.numeric, rfl, rfl, rfl⟩
  have hfirst : (e.reduce 0 ([.named f.name] ++ Stream.wrap [] ++ Stream.wrap [.number (.int 21)])).outcome =
      .ok (.number (.int 42)) := Outcome.eq_ok_int (by decide +kernel)
  exact ⟨f, g, e.table, u, ht, hu, rfl, hfirst,
    (reduce_perm_iff (List.Perm.swap g f []) hnames hsingles ht hu rfl 0 _ _).mp hfirst⟩

end Engine
end Reckoner
