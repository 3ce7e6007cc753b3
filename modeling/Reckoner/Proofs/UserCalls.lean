import Reckoner.Function.Standard
import Reckoner.Proofs.Arithmetic
import Reckoner.Proofs.Registration
import Reckoner.Tokenizer.Scanner

/-!
# Calls of functions of one number

A call of a user function of one number takes a single number only. A longer argument is in brackets by itself, for
the rule on groups takes the brackets of the call as soon as nothing but operators and numbers is between them. The
group leaves the value of the argument behind the name of the function, where no rule matches. So the call of a line
is the body's value if the line is a number, and a failure if it has operators (`Engine.reduce_call_line`).
-/

namespace Reckoner

/-! ### What a line with operators is made of can be written -/

section Writable
variable {L : Level} {v u : Value} {links rest : Links}

/-- What a level leaves behind can be written only if what it started with can. -/
theorem Level.writable_of_fold (h : L.fold Sign.contracted v links = .ok (u, rest)) (hu : u.isWritable = true)
    (hrest : ∀ l ∈ rest, l.2.isWritable = true) : v.isWritable = true ∧ ∀ l ∈ links, l.2.isWritable = true := by
  induction links generalizing v u rest with
  | nil =>
    obtain ⟨rfl, -⟩ := Prod.mk.inj (Except.ok.inj h)
    exact ⟨hu, by simp⟩
  | cons l links ih =>
    obtain ⟨s, w⟩ := l
    rw [fold] at h
    split at h
    · obtain ⟨x, hx, h⟩ := Outcome.bind_eq_ok h
      obtain ⟨hv, hw, -⟩ := Operation.writable_of_contracted hx
      exact ⟨hv, List.forall_mem_cons.mpr ⟨hw, (ih h hu hrest).2⟩⟩
    · obtain ⟨⟨w', links'⟩, hfold, hp⟩ := Outcome.map_eq_ok h
      obtain ⟨rfl, rfl⟩ := Prod.mk.inj hp
      obtain ⟨hw', hlinks'⟩ := List.forall_mem_cons.mp hrest
      exact ⟨hu, List.forall_mem_cons.mpr (ih hfold hw' hlinks')⟩

/-- A level that leaves a single number of a line has computed it. -/
theorem Level.writable_of_fold_nil (h : L.fold Sign.contracted v links = .ok (u, [])) (hne : links ≠ []) :
    u.isWritable = true := by
  induction links generalizing v with
  | nil => exact absurd rfl hne
  | cons l links ih =>
    obtain ⟨s, w⟩ := l
    rw [fold] at h
    split at h
    · obtain ⟨x, hx, h⟩ := Outcome.bind_eq_ok h
      by_cases hnil : links = []
      · subst hnil
        obtain ⟨rfl, -⟩ := Prod.mk.inj (Except.ok.inj h)
        exact (Operation.writable_of_contracted hx).2.2
      · exact ih h hnil
    · obtain ⟨p, -, hp⟩ := Outcome.map_eq_ok h
      cases (Prod.mk.inj hp).2

theorem Level.writable_of_foldAll {Ls : List Level} (h : Level.foldAll Sign.contracted Ls v links = .ok (u, rest))
    (hrest : rest = []) (hne : links ≠ []) : v.isWritable = true ∧ ∀ l ∈ links, l.2.isWritable = true := by
  induction Ls generalizing v links with
  | nil =>
    obtain ⟨-, rfl⟩ := Prod.mk.inj (Except.ok.inj h)
    exact absurd hrest hne
  | cons L Ls ih =>
    obtain ⟨⟨w, links'⟩, hfold, h⟩ := Outcome.bind_eq_ok h
    by_cases hnil : links' = []
    · subst hnil
      exact Level.writable_of_fold hfold (Level.writable_of_fold_nil hfold hne) (by simp)
    · obtain ⟨hw, hlinks'⟩ := ih h hnil
      exact Level.writable_of_fold hfold hw hlinks'

theorem Links.writable_of_value (h : Links.value Sign.contracted v links = .ok u) (hne : links ≠ []) :
    v.isWritable = true ∧ (∀ l ∈ links, l.2.isWritable = true) ∧ u.isWritable = true := by
  obtain ⟨⟨w, rest⟩, hfold, rfl⟩ := Outcome.map_eq_ok h
  have hrest : rest = [] := Level.links_of_foldAll _ (fun l _ => l.1.level.mem_all) hfold
  obtain ⟨hv, hlinks⟩ := Level.writable_of_foldAll hfold hrest hne
  have hop : ∀ s v w u, Value.isWritable v = true → Value.isWritable w = true → Sign.contracted s v w = .ok u →
      Sign.contracted s v w = .ok u ∧ Value.isWritable u = true := fun _ _ _ _ _ _ h =>
    ⟨h, (Operation.writable_of_contracted h).2.2⟩
  exact ⟨hv, hlinks, (Links.value_mono hop hv hlinks h).2⟩

end Writable

/-! ### The rules on a call -/

section Patterns
variable {name : String} {v : Value} {links : Links}

/-- A call without names inside names one function. -/
theorem name_of_mem_call {name' : String} {body : Stream} (hbody : ∀ t ∈ body, t.category ≠ .function)
    (h : Token.named name' ∈ [Token.named name] ++ body.wrap) : name' = name := by
  simp only [Stream.wrap, List.cons_append, List.nil_append, List.mem_cons, List.mem_append, List.not_mem_nil,
    or_false] at h
  rcases h with h | h | h | h
  · simpa [Token.named] using h
  · cases h
  · exact absurd rfl (hbody _ h)
  · cases h

theorem Stream.category_line_ne {t : Token} (ht : t ∈ Stream.line v links) : t.category ≠ .function := by
  rcases category_line ht with hc | hc <;> simp [hc]

theorem Rule.find?_calls {s : Stream} (h : ∀ name ∈ builtinFunctions, Token.named name ∉ s) :
    ∀ r ∈ Rule.calls, r.pattern.find? s = none := by
  have hcalls : ∀ r ∈ Rule.calls, ∃ name ∈ builtinFunctions, ∃ arguments, r.pattern = .call name arguments := by
    simp [Rule.calls, Rule.standard, builtinFunctions, Pattern.choice, Pattern.roundCall,
      Pattern.roundCallWithPlaces, Pattern.roundUpCall, Pattern.roundDownCall, Pattern.notCall]
  intro r hr
  obtain ⟨name, hname, arguments, hpattern⟩ := hcalls r hr
  rw [hpattern]
  exact Pattern.find?_call (Or.inr (h name hname))

/-- A rule does not take the call of its function if the arguments do not parse. -/
theorem Pattern.find?_call_wrap {p : Pattern} {body : Stream} (hbody : body.IsUnbracketed) (hp : ¬ p.Parses body) :
    (Pattern.call name p).find? ([Token.named name] ++ body.wrap) = none := by
  refine Pattern.find?_eq_none_of fun pre span post hts hcall _ => ?_
  obtain ⟨body', rfl, hbody'⟩ := Pattern.parses_call.mp hcall
  have hflat : Stream.IsFlat [Token.named name] := by simp [Stream.IsFlat, Token.isDelimiter, Token.named]
  have hsplit : [Token.named name] ++ (body.wrap ++ []) = (pre ++ [Token.named name]) ++ (body'.wrap ++ post) := by
    rw [List.append_nil, hts]
    simp only [List.append_assoc]
  obtain ⟨-, rfl, -⟩ := Stream.wrap_unique hflat hbody (by simp [Stream.IsFlat]) hsplit
  exact hp hbody'

/-- A function of one number does not take a line with operators. -/
theorem Pattern.find?_call_line (hne : links ≠ []) :
    (Pattern.call name [.numeric]).find? ([Token.named name] ++ (Stream.line v links).wrap) = none := by
  refine Pattern.find?_call_wrap (Stream.flat_line v links).isUnbracketed fun hp => ?_
  obtain ⟨t, rest, heq, -, hrest⟩ := (Pattern.parses_single rfl rfl).mp hp
  rw [Pattern.parses_nil.mp hrest] at heq
  cases links with
  | nil => exact hne rfl
  | cons l links => cases (List.cons.inj heq).2

/-- The brackets of a call are a group behind its name. -/
theorem Pattern.foundAt_group {body : Stream} (hbody : body.IsFlat) :
    Pattern.group.FoundAt [Token.named name] body.wrap [] := by
  have hdetermined : Pattern.Determined .group := Rule.determined_of_mem_brackets (List.mem_of_getElem? (i := 6) rfl)
  have hparse : Pattern.Parses .group body.wrap :=
    (Pattern.parses_wrap (p := [Matcher.nonGroup.star])).mpr ⟨body, rfl, Pattern.parses_flat_nil.mpr hbody⟩
  refine ⟨hparse, fun h => Bool.noConfusion h, Pattern.prefix?_of_parses hdetermined hparse [], fun a b hab hb => ?_⟩
  obtain rfl : b = [Token.named name] := by
    cases a with
    | nil => exact hab.symm
    | cons t a =>
      obtain ⟨-, hnil⟩ := List.cons.inj hab
      exact absurd (List.append_eq_nil_iff.mp hnil.symm).2 hb
  cases hp : Pattern.prefix? .group ([Token.named name] ++ (body.wrap ++ [])) with
  | none => rfl
  | some taken =>
    obtain ⟨hparse, rest, hts⟩ := Pattern.parses_of_prefix? hp
    obtain ⟨body', rfl, -⟩ := (Pattern.parses_wrap (p := [Matcher.nonGroup.star])).mp hparse
    cases (List.cons.inj hts).1

end Patterns

/-- No name of a function is part of a redex. -/
theorem Redex.category_ne {step : Step} {span : Stream} (h : Redex step span) : ∀ t ∈ span, t.category ≠ .function := by
  cases h with
  | operation hl ho hr => rcases ho with ho | ho <;> simp [hl, ho, hr]
  | texts hl ho hr => simp [hl, ho, hr]
  | combination hl ho hr => simp [hl, ho, hr]
  | negation hm ht => simp [hm, ht]
  | power hb ho hm ht => simp [hb, ho, hm, ht]
  | product hl ho hm hr => simp [hl, ho, hm, hr]
  | percentage ht ho => simp [ht, ho]
  | range hl ho hm hu hr => simp [hl, ho, hm, hu, hr]

/-! ### Reductions of calls -/

namespace Engine
variable {e : Engine} {depth : Int} {f : UserFunction} {v u : Value} {links : Links} {nested : Stream → Traced Token}

theorem fire_call (h : e.table.lookup? f.name = some f) (span : Stream) :
    e.fire nested (.call f.name) span = (f.body.run ((UserFunction.argumentsOf span).map (·.value))).bind fun w =>
      if span.isWritable && w.isWritable then .ok [⟨f.returns, w⟩] else .error .longInteger := by
  have hout : (Replacement.ofAction e.settings nested e.table (.call f.name) span).outcome =
      (f.body.run ((UserFunction.argumentsOf span).map (·.value))).map fun w => [⟨f.returns, w⟩] := by
    show (Replacement.ofCall e.table f.name span).map _ = _
    rw [Replacement.ofCall, h]
    dsimp only
    cases f.body.run ((UserFunction.argumentsOf span).map (·.value)) <;> rfl
  rw [fire, hout]
  cases f.body.run ((UserFunction.argumentsOf span).map (·.value)) with
  | error g => rfl
  | ok w =>
    have hnew : Stream.isWritable [⟨f.returns, w⟩] = w.isWritable := by simp [Stream.isWritable]
    show (if span.isWritable && Stream.isWritable [⟨f.returns, w⟩] then _ else _) = _
    rw [hnew]
    rfl

section Standard
variable (ht : e.table.IsStandard) (hrounds : e.rounds = none) (hd : depth ≤ e.limit)
include ht hrounds hd

/-- The name of a function in front of a number is left as it is. -/
theorem reduce_named_number (name : String) (u : Value) : (e.reduce depth [.named name, .number u]).outcome =
    .error (stuck [.named name, .number u]) := by
  have hopening : Token.opening ∉ [Token.named name, .number u] := by
    simp [Token.opening, Token.named, Token.number]
  refine reduce_stuck ht hrounds hd (by simp) (Rule.firstMatch?_eq_none.mpr fun r hr => ?_)
  rw [RuleTable.all, ht.rules, ← Rule.brackets_append_flat] at hr
  rcases List.mem_append.mp hr with hr | hr
  · obtain ⟨name', arguments, rfl⟩ := ht.calls r hr
    exact Pattern.find?_call (Or.inl hopening)
  rcases List.mem_append.mp hr with hr | hr
  · exact Pattern.find?_brackets hopening r hr
  · refine Pattern.find?_eq_none_of fun pre span post hts hp _ => ?_
    obtain ⟨step, -, hredex⟩ := Redex.of_parses hr hp
    have hlen := (Reducible.redex hredex).two_le
    -- A redex has two tokens at least, so that the name is one of them.
    cases pre with
    | nil =>
      cases span with
      | nil => simp at hlen
      | cons t span => exact hredex.category_ne t (by simp) ((List.cons.inj hts).1 ▸ rfl)
    | cons t pre =>
      have := congrArg List.length hts
      simp only [List.length_cons, List.length_nil, List.length_append] at this
      omega

/-- A stream that the rule of a function takes as a whole is what the body makes of its arguments. -/
theorem reduce_call_taken {p : Pattern} {s : Stream} (hcalls : e.table.Calls f p) (hlower : Text.lower f.name = f.name)
    (hs : ∀ name, Token.named name ∈ s → name = f.name) (hp : p.Determined) (hne : p ≠ []) (hparse : p.Parses s)
    (hlen : 2 ≤ s.length) : (e.reduce depth s).outcome =
      (f.body.run ((UserFunction.argumentsOf s).map (·.value))).bind fun w =>
        if s.isWritable && w.isWritable then .ok ⟨f.returns, w⟩ else .error .longInteger := by
  have hmatch := hcalls.firstMatch? ht hs hp hne hparse
  rw [reduce_match ht hrounds hd hlen hmatch (by rw [List.nil_append, List.append_nil]) rfl]
  show (e.fire _ (.call f.name) _).bind _ = _
  rw [fire_call (hcalls.lookup? hlower), Outcome.bind_assoc]
  refine Outcome.bind_congr fun w _ => ?_
  split
  · exact reduce_single ht hrounds hd _
  · rfl

variable (hcalls : e.table.Calls f (.call f.name [.numeric]))
include hcalls

/-- The call of a number is what the body makes of it. -/
theorem reduce_call_number (hlower : Text.lower f.name = f.name) (v : Value) :
    (e.reduce depth ([.named f.name] ++ Stream.wrap [.number v])).outcome = (f.body.run [v]).bind fun w =>
      if v.isWritable && w.isWritable then .ok ⟨f.returns, w⟩ else .error .longInteger := by
  have hdetermined : (Pattern.call f.name [.numeric]).Determined :=
    Pattern.determined_of_call ⟨Or.inl rfl, Or.inl rfl, trivial⟩
  have hparse : (Pattern.call f.name [.numeric]).Parses ([.named f.name] ++ Stream.wrap [.number v]) :=
    Pattern.parses_call.mpr ⟨_, rfl, (Pattern.parses_single rfl rfl).mpr
      ⟨_, _, rfl, Matcher.accepts_category.mpr rfl, .nil⟩⟩
  have hwritable : Stream.isWritable ([.named f.name] ++ Stream.wrap [.number v]) = v.isWritable := by
    rw [isWritable_call]
    simp [Stream.isWritable, Token.number]
  rw [reduce_call_taken ht hrounds hd hcalls hlower (fun _ => name_of_mem_call (by simp [Token.number])) hdetermined
    (by simp [Pattern.call]) hparse (by simp [Stream.wrap]), hwritable]
  rfl

/-- The brackets of the call of a line with operators are contracted as a group. -/
theorem reduce_call_group (hname : f.name ∉ builtinFunctions) (hne : links ≠ []) (v : Value) :
    (e.reduce depth ([.named f.name] ++ (Stream.line v links).wrap)).outcome =
      (e.fire (e.reduce (depth + 1)) (.step .evaluateGroup) (Stream.line v links).wrap).bind fun new =>
        (e.reduce depth ([.named f.name] ++ new)).outcome := by
  have habove : ∀ r ∈ e.table.functionRules ++ Rule.calls,
      r.pattern.find? ([.named f.name] ++ ((Stream.line v links).wrap ++ [])) = none := by
    intro r hr
    rw [List.append_nil]
    rcases List.mem_append.mp hr with hr | hr
    · by_cases hown : r = ⟨.call f.name [.numeric], .call f.name⟩
      · subst hown
        exact Pattern.find?_call_line hne
      · exact hcalls.find?_ne ht (fun _ => name_of_mem_call fun _ => Stream.category_line_ne) r hr hown
    · refine Rule.find?_calls (fun name hbuiltin hmem => ?_) r hr
      exact hname (name_of_mem_call (fun _ => Stream.category_line_ne) hmem ▸ hbuiltin)
  have hall : e.table.all = (e.table.functionRules ++ Rule.calls) ++ ⟨.group, .step .evaluateGroup⟩ :: Rule.flat := by
    rw [RuleTable.all, ht.rules, ← Rule.brackets_append_flat, ← Rule.calls_append_group]
    simp only [List.append_assoc, List.cons_append, List.nil_append]
  have hred := @reduce_foundAt e depth [.named f.name] (Stream.line v links).wrap [] ⟨.group, .step .evaluateGroup⟩
    ht hrounds hd _ _ hall (by simp [Stream.wrap]) habove (by simp [Pattern.group])
    (Pattern.foundAt_group (Stream.flat_line v links))
  simpa only [List.append_nil] using hred

end Standard

/-- What a call of a function of one number gives for a line that has a value. The last function that was registered
    under the name is called if the line is a single number. A line with operators is reduced to its value, but then
    no rule matches the name and the value. -/
theorem reduce_call_line {before after : List UserFunction} {name : String} {returns : Category} {body : Body}
    (hadd : (before ++ UserFunction.make name returns [.category .numeric] body :: after).foldlM RuleTable.add {} =
      .ok e.table) (hafter : ∀ g ∈ after, g.name ≠ Text.lower name) (hname : Text.lower name ∉ builtinFunctions)
    (hrounds : e.rounds = none) (hd : depth < e.limit)
    (hline : (e.reduce depth (Stream.line v links)).outcome = .ok (.number u)) :
    (e.reduce depth ([.named (Text.lower name)] ++ (Stream.line v links).wrap)).outcome =
      if links.isEmpty then
        (body.run [u]).bind fun w => if u.isWritable && w.isWritable then .ok ⟨returns, w⟩ else .error .longInteger
      else .error (.noRuleMatched [.named (Text.lower name), .number u]) := by
  have ht : e.table.IsStandard := RuleTable.isStandard_default.foldlM hadd
  obtain ⟨p, hp, hcalls⟩ := RuleTable.calls_of_foldlM hafter hadd
  obtain rfl : Pattern.call (Text.lower name) [.numeric] = p := Except.ok.inj hp
  rw [reduce_line ht hrounds (Int.le_of_lt hd)] at hline
  obtain ⟨u', hvalue, htoken⟩ := Outcome.map_eq_ok hline
  obtain rfl : u' = u := by simpa [Token.number] using htoken
  cases links with
  | nil =>
    obtain rfl : v = u' := Except.ok.inj hvalue
    exact reduce_call_number ht hrounds (Int.le_of_lt hd) hcalls (Text.lower_lower name) v
  | cons l links =>
    have hne : l :: links ≠ [] := by simp
    obtain ⟨hv, hlinks, hu⟩ := Links.writable_of_value hvalue hne
    have hnested : (e.reduce (depth + 1) (Stream.line v (l :: links))).outcome = .ok (.number u') := by
      rw [reduce_line ht hrounds (by omega), hvalue]
      rfl
    have hpair : Stream.isWritable [.named (Text.lower name), .number u'] = true := by
      simpa [Stream.isWritable, Token.number, Token.named, Value.isWritable] using hu
    refine (reduce_call_group ht hrounds (Int.le_of_lt hd) hcalls hname hne v).trans ?_
    rw [fire_group hnested (Stream.isWritable_line hv hlinks) hu]
    show (e.reduce depth [.named (Text.lower name), .number u']).outcome = _
    rw [reduce_named_number ht hrounds (Int.le_of_lt hd), stuck, if_pos hpair]
    rfl

/-- The doubled sum fails, the doubled number does not. -/
theorem reduce_call_line_double :
    ∃ (f : UserFunction) (table : RuleTable), RuleTable.add {} f = .ok table ∧
      (Engine.reduce { table := table } 0 ([.named "double"] ++ (Stream.line (.int 1) [(.add, .int 2)]).wrap)).outcome =
        .error (.noRuleMatched [.named "double", .number (.int 3)]) ∧
      (Engine.reduce { table := table } 0 ([.named "double"] ++ (Stream.line (.int 21) []).wrap)).outcome =
        .ok (.number (.int 42)) := by
  let f := UserFunction.make "double" .numeric [.category .numeric] ⟨"double", Body.double⟩
  let e : Engine := { table := ⟨⟨[f]⟩, [⟨.call "double" [.numeric], .call "double"⟩], Rule.standard⟩ }
  have hadd : ([] ++ f :: []).foldlM RuleTable.add {} = .ok e.table := rfl
  have hafter : ∀ g ∈ ([] : List UserFunction), g.name ≠ Text.lower "double" := by simp
  have hname : Text.lower "double" ∉ builtinFunctions := by decide +kernel
  refine ⟨f, e.table, rfl, ?_, ?_⟩
  · have hsum : (e.reduce 0 (Stream.line (.int 1) [(.add, .int 2)])).outcome = .ok (.number (.int 3)) :=
      Outcome.eq_ok_int (by decide +kernel)
    exact (reduce_call_line hadd hafter hname rfl (by decide) hsum).trans (if_neg (by simp))
  · have hnumber : (e.reduce 0 (Stream.line (.int 21) [])).outcome = .ok (.number (.int 21)) :=
      Outcome.eq_ok_int (by decide +kernel)
    have hshort : ((Value.int 21).isWritable && (Value.int 42).isWritable) = true := by decide +kernel
    have hrun : Body.double [.int 21] = .ok (.int 42) := rfl
    refine (reduce_call_line hadd hafter hname rfl (by decide) hnumber).trans ?_
    simp only [List.isEmpty_nil, if_true, hrun, Except.bind]
    exact if_pos hshort

/-- A sum has a value and the function has one there, but the call of the sum does not give it. -/
theorem reduce_call_ne_body :
    ∃ (f : UserFunction) (table : RuleTable), RuleTable.add {} f = .ok table ∧ f.signature = [.category .numeric] ∧
      f.name ∉ builtinFunctions ∧
      (Engine.reduce { table := table } 0 (Stream.line (.int 1) [(.add, .int 2)])).outcome = .ok (.number (.int 3)) ∧
      f.body.run [.int 3] = .ok (.int 6) ∧
      (Engine.reduce { table := table } 0 ([.named f.name] ++ (Stream.line (.int 1) [(.add, .int 2)]).wrap)).outcome ≠
        .ok ⟨f.returns, .int 6⟩ := by
  let f := UserFunction.make "double" .numeric [.category .numeric] ⟨"double", Body.double⟩
  let e : Engine := { table := ⟨⟨[f]⟩, [⟨.call "double" [.numeric], .call "double"⟩], Rule.standard⟩ }
  have hcall : Outcome.isInt 6 (e.reduce 0 ([.named f.name] ++ (Stream.line (.int 1) [(.add, .int 2)]).wrap)).outcome = false := by
    decide +kernel
  refine ⟨f, e.table, rfl, rfl, by decide +kernel, Outcome.eq_ok_int (by decide +kernel), rfl, fun h => ?_⟩
  rw [h] at hcall
  cases hcall

end Engine
end Reckoner
