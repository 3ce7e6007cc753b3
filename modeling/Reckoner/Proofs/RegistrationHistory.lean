import Reckoner.Proofs.LowerCase
import Reckoner.Proofs.Registration

/-!
# The history of registrations

The registry keeps a name at the place of its first registration, and the rules put a function that is registered again
on top. Both are changed one after the other, with the pattern of the signature formed in front of both, so that a
registration that fails changes neither (`RuleTable.run_register`). After any history of registrations the rules and the
registry are determined by those that succeeded (`RuleTable.Records`), which every further registration extends
(`RuleTable.Records.snoc`).
-/

namespace Reckoner

/-! ### The last occurrences of a list -/

section EraseDups
variable {α : Type} [BEq α] [LawfulBEq α]

/-- Elements that go before duplicates are erased do not come back. -/
theorem eraseDups_filter (p : α → Bool) : ∀ l : List α, (l.filter p).eraseDups = l.eraseDups.filter p
  | [] => rfl
  | a :: l => by
    have hrest := eraseDups_filter p (l.filter fun b => !b == a)
    rw [List.eraseDups_cons]
    cases ha : p a with
    | true => rw [List.filter_cons_of_pos ha, List.filter_cons_of_pos ha, List.eraseDups_cons, List.filter_comm, hrest]
    | false =>
      have hskip : (l.filter fun b => !b == a).filter p = l.filter p := by
        rw [List.filter_filter]
        refine List.filter_congr fun b _ => ?_
        cases hb : b == a with
        | true => simp [eq_of_beq hb, ha]
        | false => simp
      rw [List.filter_cons_of_neg (by simp [ha]), List.filter_cons_of_neg (by simp [ha]), ← hrest, hskip]
termination_by l => l.length
decreasing_by exact Nat.lt_succ_of_le (List.length_filter_le ..)

theorem nodup_eraseDups : ∀ l : List α, l.eraseDups.Nodup
  | [] => List.nodup_nil
  | a :: l => by
    rw [List.eraseDups_cons]
    refine List.nodup_cons.mpr ⟨fun hmem => ?_, nodup_eraseDups _⟩
    simpa using (List.mem_filter.mp (List.mem_eraseDups.mp hmem)).2
termination_by l => l.length
decreasing_by exact Nat.lt_succ_of_le (List.length_filter_le ..)

/-- Among first occurrences a further element only counts if it is new. -/
theorem eraseDups_snoc (l : List α) (a : α) :
    (l ++ [a]).eraseDups = if a ∈ l then l.eraseDups else l.eraseDups ++ [a] := by
  rw [List.eraseDups_append, List.removeAll]
  split <;> simp_all [List.eraseDups_cons]

/-- Among last occurrences a further element takes the place of its earlier one. -/
theorem eraseDups_reverse_snoc (l : List α) (a : α) :
    (l ++ [a]).reverse.eraseDups = a :: l.reverse.eraseDups.filter (· != a) := by
  rw [List.reverse_append, List.reverse_singleton, List.singleton_append, List.eraseDups_cons, eraseDups_filter]
  rfl

end EraseDups

/-! ### The registry -/

namespace Registry
variable {f : UserFunction}

theorem map_name_replaceIn : ∀ fs : List UserFunction, (replaceIn f fs).map (·.name) =
    if f.name ∈ fs.map (·.name) then fs.map (·.name) else fs.map (·.name) ++ [f.name]
  | [] => rfl
  | g :: fs => by
    by_cases hg : g.name = f.name
    · simp [replaceIn, hg]
    · have hne : ¬ f.name = g.name := fun h => hg h.symm
      have hstep : (replaceIn f (g :: fs)).map (·.name) = g.name :: (replaceIn f fs).map (·.name) := by
        simp [replaceIn, hg]
      rw [hstep, map_name_replaceIn fs, List.map_cons]
      by_cases hmem : f.name ∈ fs.map (·.name)
      · rw [if_pos hmem, if_pos (List.mem_cons_of_mem _ hmem)]
      · rw [if_neg hmem, if_neg (by simp only [List.mem_cons, hne, hmem, or_self, not_false_iff]), List.cons_append]

end Registry

namespace UserFunction

/-- The function that was last registered under a name. -/
def latest? (fs : List UserFunction) (name : String) : Option UserFunction := fs.reverse.find? (·.name == name)

variable {f : UserFunction} {fs : List UserFunction} {name : String}

theorem latest?_snoc_self : latest? (fs ++ [f]) f.name = some f := by
  rw [latest?, List.reverse_append, List.reverse_singleton, List.singleton_append, List.find?_cons_of_pos]
  exact beq_self_eq_true f.name

theorem latest?_snoc_ne (h : f.name ≠ name) : latest? (fs ++ [f]) name = latest? fs name := by
  rw [latest?, List.reverse_append, List.reverse_singleton, List.singleton_append, List.find?_cons_of_neg (by simpa using h), latest?]

end UserFunction

theorem Action.bne_call (name name' : String) : (Action.call name != .call name') = (name != name') := by
  by_cases h : name = name'
  · rw [h, bne_self_eq_false, bne_self_eq_false]
  · rw [bne_iff_ne.mpr h, bne_iff_ne.mpr fun hcall => h (Action.call.inj hcall)]

/-! ### The table -/

namespace RuleTable
variable {t u : RuleTable} {f : UserFunction} {fs : List UserFunction}

/-- A registration changes the whole table or nothing. -/
theorem run_register (t : RuleTable) (f : UserFunction) : (register f).run.run t =
    match t.add f with
    | .ok u => (.ok f, u)
    | .error e => (.error e, t) := by
  cases h : f.pattern <;> simp only [add, h] <;> simp only [register, h] <;> rfl

/-- The table after some attempts to register functions. -/
def afterRegistering (t : RuleTable) (fs : List UserFunction) : RuleTable :=
  fs.foldl (fun t f => ((register f).run.run t).2) t

/-- The rules and the registry of a table are those of a history of registrations that succeeded. -/
structure Records (t : RuleTable) (fs : List UserFunction) : Prop where
  names : t.functionNames = (fs.map (·.name)).eraseDups
  found : ∀ name, t.functions.functions.find? (·.name == name) = UserFunction.latest? fs name
  actions : t.functionRules.map (·.action) = (fs.map (·.name)).reverse.eraseDups.map .call
  rules : ∀ r ∈ t.functionRules, ∃ f, r.action = .call f.name ∧ f.pattern = .ok r.pattern ∧
    UserFunction.latest? fs f.name = some f

/-- A registration puts its function behind the history. -/
theorem Records.snoc (h : t.Records fs) (hadd : t.add f = .ok u) : u.Records (fs ++ [f]) := by
  obtain ⟨p, hp, hu⟩ := Outcome.bind_eq_ok hadd
  obtain rfl := Except.ok.inj hu
  constructor
  case names =>
    have hnames : t.functions.functions.map (·.name) = (fs.map (·.name)).eraseDups := h.names
    rw [functionNames, Registry.names, Registry.register, Registry.map_name_replaceIn, List.map_append, List.map_singleton,
      eraseDups_snoc, hnames]
    simp only [List.mem_eraseDups]
  case found =>
    intro name
    by_cases hname : f.name = name
    · rw [← hname, UserFunction.latest?_snoc_self]
      exact Registry.find?_replaceIn_self _
    · rw [UserFunction.latest?_snoc_ne hname, ← h.found]
      exact Registry.find?_replaceIn_ne hname _
  case actions =>
    have hfilter : (t.functionRules.filter fun r => r.action != .call f.name).map (·.action) =
        (t.functionRules.map (·.action)).filter (· != .call f.name) := by
      rw [List.filter_map]
      rfl
    have hcalls : ((fs.map (·.name)).reverse.eraseDups.map Action.call).filter (· != .call f.name) =
        ((fs.map (·.name)).reverse.eraseDups.filter (· != f.name)).map .call := by
      rw [List.filter_map]
      congr 1
      exact List.filter_congr fun name _ => Action.bne_call name f.name
    rw [List.map_cons, hfilter, h.actions, hcalls, List.map_append, List.map_singleton, eraseDups_reverse_snoc, List.map_cons]
  case rules =>
    intro r hr
    rcases List.mem_cons.mp hr with rfl | hr
    · exact ⟨f, rfl, hp, UserFunction.latest?_snoc_self⟩
    · -- The rule of another function, which stays the latest of its name.
      obtain ⟨hr, hother⟩ := List.mem_filter.mp hr
      obtain ⟨g, haction, hpattern, hlatest⟩ := h.rules r hr
      refine ⟨g, haction, hpattern, ?_⟩
      rw [UserFunction.latest?_snoc_ne, hlatest]
      rintro hname
      simp [haction, hname] at hother

theorem Records.foldlM {known : List UserFunction} : ∀ {fs : List UserFunction} {t : RuleTable}, t.Records known →
    fs.foldlM RuleTable.add t = .ok u → u.Records (known ++ fs)
  | [], t, h, hu => by
    rw [← Except.ok.inj hu, List.append_nil]
    exact h
  | f :: fs, t, h, hu => by
    rw [List.foldlM_cons] at hu
    obtain ⟨t', hadd, hu⟩ := Outcome.bind_eq_ok hu
    simpa only [List.append_assoc, List.singleton_append] using (h.snoc hadd).foldlM hu

/-- A name in any letter case finds the function that was last registered under it. -/
theorem Records.lookup? (h : t.Records fs) (name : String) : t.lookup? name = UserFunction.latest? fs (Text.lower name) :=
  h.found _

theorem Records.empty (rules : List Rule) : RuleTable.Records { rules } [] := by
  refine ⟨rfl, fun _ => rfl, rfl, fun r hr => absurd hr List.not_mem_nil⟩

/-- The registrations that succeed are those of a signature with known shapes. -/
def registered (fs : List UserFunction) : List UserFunction := fs.filter (·.pattern.isOk)

section Cases
variable {e : Failure} {p : Pattern}

theorem registered_cons_error (hp : f.pattern = .error e) : registered (f :: fs) = registered fs :=
  List.filter_cons_of_neg (by simp [hp, Except.isOk, Except.toBool])

theorem registered_cons_ok (hp : f.pattern = .ok p) : registered (f :: fs) = f :: registered fs :=
  List.filter_cons_of_pos (by simp [hp, Except.isOk, Except.toBool])

theorem add_of_pattern_error (t : RuleTable) (hp : f.pattern = .error e) : t.add f = .error e := by
  simp [add, hp, bind, Except.bind]

theorem add_of_pattern_ok (t : RuleTable) (hp : f.pattern = .ok p) : ∃ u, t.add f = .ok u ∧ u.rules = t.rules := by
  simp [add, hp, bind, Except.bind]

end Cases

theorem afterRegistering_cons (t : RuleTable) (f : UserFunction) (fs : List UserFunction) :
    t.afterRegistering (f :: fs) = ((register f).run.run t).2.afterRegistering fs := rfl

theorem afterRegistering_append (t : RuleTable) (fs gs : List UserFunction) :
    t.afterRegistering (fs ++ gs) = (t.afterRegistering fs).afterRegistering gs := by
  rw [afterRegistering, List.foldl_append]
  rfl

/-- Attempts that fail can be left out. -/
theorem afterRegistering_registered : ∀ (fs : List UserFunction) (t : RuleTable),
    t.afterRegistering (registered fs) = t.afterRegistering fs
  | [], _ => rfl
  | f :: fs, t => by
    cases hp : f.pattern with
    | error e =>
      rw [registered_cons_error hp, afterRegistering_registered, afterRegistering_cons, run_register,
        t.add_of_pattern_error hp]
    | ok p => rw [registered_cons_ok hp, afterRegistering_cons, afterRegistering_registered, afterRegistering_cons]

/-- Attempts extend the history by those that succeed, and never touch the other rules. -/
theorem Records.afterRegistering {known : List UserFunction} : ∀ (fs : List UserFunction) {t : RuleTable}, t.Records known →
    (t.afterRegistering fs).Records (known ++ registered fs) ∧ (t.afterRegistering fs).rules = t.rules
  | [], t, h => by
    rw [registered, List.filter_nil, List.append_nil]
    exact ⟨h, rfl⟩
  | f :: fs, t, h => by
    rw [afterRegistering_cons, run_register]
    cases hp : f.pattern with
    | error e =>
      rw [t.add_of_pattern_error hp, registered_cons_error hp]
      exact h.afterRegistering fs
    | ok p =>
      obtain ⟨u, hadd, hrules⟩ := t.add_of_pattern_ok hp
      obtain ⟨hrecords, hrest⟩ := (h.snoc hadd).afterRegistering fs
      rw [List.append_assoc, List.singleton_append] at hrecords
      rw [hadd, registered_cons_ok hp]
      exact ⟨hrecords, hrest.trans hrules⟩

/-- After any history of registrations the rules and the registry are in step. -/
theorem afterRegistering_inStep (rules : List Rule) (fs : List UserFunction) (hfs : ∀ f ∈ fs, Text.lower f.name = f.name) :
    let t := RuleTable.afterRegistering { rules } fs
    let names := (registered fs).map (·.name)
    (t.functionRules.map (·.action)).Nodup ∧
      t.functionRules.map (·.action) = names.reverse.eraseDups.map .call ∧
      (∀ r ∈ t.functionRules, ∃ f, r.action = .call f.name ∧ t.lookup? f.name = some f ∧ f.pattern = .ok r.pattern ∧
        UserFunction.latest? (registered fs) f.name = some f) ∧
      t.functionNames = names.eraseDups ∧
      t.all = t.functionRules ++ rules ∧
      t.size = names.eraseDups.length + rules.length ∧
      ∀ f e, f.pattern = .error e → (register f).run.run t = (.error e, t) := by
  intro t names
  obtain ⟨hrecords, hrules⟩ := (Records.empty rules).afterRegistering fs
  rw [List.nil_append] at hrecords
  have hnodup := nodup_eraseDups names.reverse
  refine ⟨?_, hrecords.actions, fun r hr => ?_, hrecords.names, ?_, ?_, fun f e hp => ?_⟩
  · rw [hrecords.actions]
    exact List.pairwise_map.mpr (hnodup.imp fun hne h => hne (Action.call.inj h))
  · obtain ⟨f, haction, hpattern, hlatest⟩ := hrecords.rules r hr
    have hmem := List.mem_reverse.mp (List.mem_of_find?_eq_some hlatest)
    refine ⟨f, haction, ?_, hpattern, hlatest⟩
    rw [lookup?, Registry.lookup?, hfs f (List.mem_filter.mp hmem).1, hrecords.found, hlatest]
  · rw [all, hrules]
  · have hlength := congrArg List.length hrecords.actions
    rw [List.length_map, List.length_map] at hlength
    have hperm : names.reverse.eraseDups.Perm names.eraseDups := by
      refine (List.perm_ext_iff_of_nodup hnodup (nodup_eraseDups _)).mpr fun name => ?_
      simp only [List.mem_eraseDups, List.mem_reverse]
    rw [size, hrules, hlength, hperm.length_eq]
  · rw [run_register, add_of_pattern_error _ hp]

/-- A name comes a second time in other letters, with a failure in between. -/
theorem afterRegistering_inStep_again :
    let max := UserFunction.make "Max" .numeric [.matcher "non_close_plus"] ⟨"max", fun _ => .ok (.int 0)⟩
    let double := UserFunction.make "double" .numeric [.category .numeric] ⟨"double", fun _ => .ok (.int 1)⟩
    let failing := UserFunction.make "double" .numeric [.matcher "no_such_shape"] ⟨"none", fun _ => .ok (.int 2)⟩
    let again := UserFunction.make "MAX" .numeric [.category .numeric] ⟨"first", fun _ => .ok (.int 3)⟩
    let t := RuleTable.afterRegistering {} [max, double, failing, again]
    t.functionRules.map (·.action) = [.call "max", .call "double"] ∧ t.functionNames = ["max", "double"] ∧
      t.size = 23 := by
  intro max double failing again t
  have hfs : ∀ f ∈ [max, double, failing, again], Text.lower f.name = f.name := by
    intro f hf
    simp only [List.mem_cons, List.not_mem_nil, or_false] at hf
    rcases hf with rfl | rfl | rfl | rfl <;> exact Text.lower_lower _
  obtain ⟨-, hactions, -, hnames, -, hsize, -⟩ := afterRegistering_inStep Rule.standard [max, double, failing, again] hfs
  have hregistered : (registered [max, double, failing, again]).map (·.name) = ["max", "double", "max"] := by
    decide +kernel
  rw [hregistered] at hactions hnames hsize
  exact ⟨hactions.trans (by decide +kernel), hnames.trans (by decide +kernel), hsize.trans (by decide +kernel)⟩

end RuleTable
end Reckoner
