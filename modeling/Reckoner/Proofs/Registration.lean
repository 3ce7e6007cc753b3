import Reckoner.Proofs.LowerCase
import Reckoner.Proofs.Chains

/-!
# Registration of functions

A function that is registered is found by its name, and a rule of the table calls it by the pattern of its signature,
the only rule that does (`RuleTable.Calls`). Functions of other names leave both as they are. So the last function that
is registered under a name is the one that is called (`RuleTable.calls_of_foldlM`).
-/

namespace Reckoner

namespace Registry
variable {f : UserFunction} {name : String}

theorem find?_replaceIn_self : ∀ fs : List UserFunction, (replaceIn f fs).find? (·.name == f.name) = some f
  | [] => by simp [replaceIn]
  | g :: fs => by
    by_cases hg : g.name = f.name
    · simp [replaceIn, hg]
    · simpa [replaceIn, hg] using find?_replaceIn_self fs

theorem find?_replaceIn_ne (h : f.name ≠ name) : ∀ fs : List UserFunction,
    (replaceIn f fs).find? (·.name == name) = fs.find? (·.name == name)
  | [] => by simp [replaceIn, h]
  | g :: fs => by
    by_cases hg : g.name = f.name
    · simp [replaceIn, hg, h]
    · by_cases hname : g.name = name
      · simp [replaceIn, hname, Ne.symm h]
      · simpa [replaceIn, hg, hname] using find?_replaceIn_ne h fs

end Registry

namespace RuleTable
variable {t u : RuleTable} {f g : UserFunction} {p : Pattern}

/-- The function is registered under its name, and the pattern is that of the rule which calls it. -/
structure Calls (t : RuleTable) (f : UserFunction) (p : Pattern) : Prop where
  found : t.functions.functions.find? (·.name == f.name) = some f
  rule : ⟨p, .call f.name⟩ ∈ t.functionRules
  only : ∀ r ∈ t.functionRules, r.action = .call f.name → r = ⟨p, .call f.name⟩

theorem calls_of_add (h : t.add f = .ok u) : ∃ p, f.pattern = .ok p ∧ u.Calls f p := by
  obtain ⟨p, hp, hu⟩ := Outcome.bind_eq_ok h
  rw [← Except.ok.inj hu]
  refine ⟨p, hp, Registry.find?_replaceIn_self _, List.mem_cons_self .., fun r hr haction => ?_⟩
  rcases List.mem_cons.mp hr with rfl | hr
  · rfl
  · have hother := (List.mem_filter.mp hr).2
    simp [haction] at hother

/-- A function of another name leaves a function and its rule alone. -/
theorem Calls.add (h : t.Calls f p) (hg : g.name ≠ f.name) (ha : t.add g = .ok u) : u.Calls f p := by
  obtain ⟨q, -, hu⟩ := Outcome.bind_eq_ok ha
  rw [← Except.ok.inj hu]
  refine ⟨(Registry.find?_replaceIn_ne hg _).trans h.found, ?_, fun r hr haction => ?_⟩
  · refine List.mem_cons_of_mem _ (List.mem_filter.mpr ⟨h.rule, ?_⟩)
    simpa using Ne.symm hg
  · rcases List.mem_cons.mp hr with rfl | hr
    · exact absurd (Action.call.inj haction) hg
    · exact h.only r (List.mem_filter.mp hr).1 haction

theorem Calls.foldlM : ∀ {fs : List UserFunction} {t : RuleTable}, t.Calls f p → (∀ g ∈ fs, g.name ≠ f.name) →
    fs.foldlM RuleTable.add t = .ok u → u.Calls f p
  | [], t, h, _, hu => by
    rw [← Except.ok.inj hu]
    exact h
  | g :: fs, t, h, hfs, hu => by
    obtain ⟨hg, hfs⟩ := List.forall_mem_cons.mp hfs
    rw [List.foldlM_cons] at hu
    obtain ⟨t', ht', hu⟩ := Outcome.bind_eq_ok hu
    exact (h.add hg ht').foldlM hfs hu

/-- The last function that is registered under a name is the one that is called. -/
theorem calls_of_foldlM {before after : List UserFunction} (hafter : ∀ g ∈ after, g.name ≠ f.name)
    (h : (before ++ f :: after).foldlM RuleTable.add t = .ok u) : ∃ p, f.pattern = .ok p ∧ u.Calls f p := by
  rw [List.foldlM_append] at h
  obtain ⟨t₁, -, h⟩ := Outcome.bind_eq_ok h
  rw [List.foldlM_cons] at h
  obtain ⟨t₂, hadd, h⟩ := Outcome.bind_eq_ok h
  obtain ⟨p, hp, hcalls⟩ := calls_of_add hadd
  exact ⟨p, hp, hcalls.foldlM hafter h⟩

/-- A name in lower case finds the function that is called by it. -/
theorem Calls.lookup? (h : t.Calls f p) (hlower : Text.lower f.name = f.name) : t.lookup? f.name = some f := by
  rw [RuleTable.lookup?, Registry.lookup?, hlower]
  exact h.found

end RuleTable

/-! ### Where a function is called -/

section Calls
variable {t : RuleTable} {f : UserFunction} {p : Pattern} {s : Stream} (ht : t.IsStandard) (h : t.Calls f p)
include ht h

/-- Only the rule of a function itself applies to it, where no other function is named. -/
theorem RuleTable.Calls.find?_ne (hs : ∀ name, Token.named name ∈ s → name = f.name) :
    ∀ r ∈ t.functionRules, r ≠ ⟨p, .call f.name⟩ → r.pattern.find? s = none := by
  intro r hr hne
  obtain ⟨name, arguments, rfl⟩ := ht.calls r hr
  refine Pattern.find?_call (Or.inr fun hmem => ?_)
  obtain rfl := hs name hmem
  exact hne (h.only _ hr rfl)

/-- A stream that is a call of the function is taken as a whole. -/
theorem RuleTable.Calls.firstMatch? (hs : ∀ name, Token.named name ∈ s → name = f.name) (hd : p.Determined)
    (hne : p ≠ []) (hp : p.Parses s) : Rule.firstMatch? t.all s = some (⟨p, .call f.name⟩, 0, s) := by
  obtain ⟨above, below, hrules, hnot⟩ := List.eq_append_cons_of_mem h.rule
  have habove : ∀ r ∈ above, r.pattern.find? ([] ++ (s ++ [])) = none := by
    intro r hr
    rw [List.nil_append, List.append_nil]
    refine h.find?_ne ht hs r (by simp [hrules, hr]) ?_
    rintro rfl
    exact hnot hr
  have hall : t.all = above ++ ⟨p, .call f.name⟩ :: (below ++ t.rules) := by
    rw [RuleTable.all, hrules, List.append_assoc, List.cons_append]
  have := @Rule.firstMatch?_of_foundAt _ ⟨p, .call f.name⟩ above (below ++ t.rules) [] [] habove hne (Pattern.foundAt_nil hd hp [])
  rwa [← hall, List.nil_append, List.append_nil] at this

end Calls
end Reckoner
