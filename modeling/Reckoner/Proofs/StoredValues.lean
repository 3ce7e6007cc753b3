import Reckoner.Proofs.LongIntegers
import Reckoner.Proofs.Sessions

/-!
# What a call of `store` leaves in the memory

A call that is refused changes nothing. Otherwise the entries are put into the memory one after the other, and each is
reported to the log behind its own change. So the call succeeds exactly if no name and no value holds an integer that is
too long to be reported, and an entry that does hold one ends the call when it is in the memory itself
(`Calculator.store_upTo_long`).
-/

namespace Reckoner

/-- The entry can be reported: no integer in its name or in its value is too long. -/
def IsReportable (e : Value × Value) : Prop := ¬ e.1.HoldsLong ∧ ¬ e.2.HoldsLong

theorem isReportable_iff {e : Value × Value} : IsReportable e ↔ (e.1.isWritable && e.2.isWritable) = true := by
  rw [Bool.and_eq_true, Value.isWritable_iff, Value.isWritable_iff]
  exact Iff.rfl

namespace Calculator
variable {c : Calculator} {name value : Value} {e : Value × Value} {before after es : List (Value × Value)}

/-! ### Names as keys -/

/-- The entry under the key for its name: the name itself, or its text in lower case if letter case does not count. -/
def filed (c : Calculator) (e : Value × Value) : Value × Value :=
  (if c.lexicon.caseSensitive then e.1 else .text (Text.lower e.1.display), e.2)

/-- There is a key for the name: if letter case does not count, the text of the name is needed, and a name that holds
    an integer that is too long has none. -/
def HasKey (c : Calculator) (name : Value) : Prop := c.lexicon.caseSensitive = true ∨ ¬ name.HoldsLong

theorem key_of_hasKey (hname : name.isKey = true) (h : c.HasKey name) : c.key name = .ok (c.filed (name, value)).1 := by
  rw [key, filed]
  cases hcase : c.lexicon.caseSensitive with
  | true => rw [if_pos rfl, if_pos hname, if_pos rfl]
  | false =>
    have hshort : ¬ name.HoldsLong := h.resolve_left (by simp [hcase])
    simp only [Bool.false_eq_true, if_false, (Value.isWritable_iff name).mpr hshort, if_true]

theorem key_of_not_hasKey (h : ¬ c.HasKey name) : c.key name = .error .longInteger := by
  obtain ⟨hcase, hlong⟩ := not_or.mp h
  have hwritable : ¬ name.isWritable = true := fun hw => hlong ((Value.isWritable_iff name).mp hw)
  rw [key, if_neg hcase, if_neg hwritable]

/-- Every name that comes out of a call can be a key. -/
theorem StoreCall.isKey_of_entries {call : StoreCall} (h : call.entries = .ok es) : ∀ e ∈ es, e.1.isKey = true := by
  have htexts : ∀ {named : List (String × Value)},
      ∀ n ∈ (Bindings.ofEntries (named.map fun e => (.text e.1, e.2))).map (·.1), n.isKey = true := by
    intro named n hn
    obtain ⟨e, he, rfl⟩ := List.mem_map.mp hn
    rcases Bindings.mem_putAll he with hmem | hmem
    · exact absurd hmem List.not_mem_nil
    · obtain ⟨e', he', heq⟩ := List.mem_map.mp hmem
      obtain ⟨x, -, rfl⟩ := List.mem_map.mp he'
      exact heq ▸ rfl
  unfold StoreCall.entries at h
  split at h
  · simp only at h
    split at h
    · obtain rfl := Except.ok.inj h
      exact fun e he => htexts _ (List.mem_map_of_mem he)
    · cases h
    · rename_i hname
      obtain rfl := Except.ok.inj h
      intro e he
      rcases Bindings.mem_put he with heq | hmem
      · rw [heq]
        generalize (call.positional[0]?.or (call.named? "name")).getD .null = name at hname
        cases name with
        | list items => exact absurd rfl (hname items)
        | _ => rfl
      · exact htexts _ hmem
  · cases h

/-! ### Storing entries one after the other -/

theorem filed_congr {c' : Calculator} (h : c'.lexicon.caseSensitive = c.lexicon.caseSensitive) : c'.filed = c.filed := by
  funext e
  rw [filed, filed, h]

theorem storeAll_cons (hname : e.1.isKey = true) (h : IsReportable e) : c.storeAll (e :: es) =
    (c.put (c.filed e).1 e.2).storeAll es := by
  rw [storeAll, key_of_hasKey hname (Or.inr h.1)]
  exact if_pos (isReportable_iff.mp h)

/-- Entries that can be reported are all put into the memory, and storing goes on behind them. -/
theorem storeAll_append : ∀ {before : List (Value × Value)} {c : Calculator}, (∀ e ∈ before, e.1.isKey = true) →
    (∀ e ∈ before, IsReportable e) → ∃ c' : Calculator, c.storeAll (before ++ es) = c'.storeAll es ∧
      c'.memory = c.memory.putAll (before.map c.filed) ∧ c'.lexicon.caseSensitive = c.lexicon.caseSensitive
  | [], c, _, _ => ⟨c, rfl, rfl, rfl⟩
  | e :: before, c, hkeys, hreport => by
    obtain ⟨hkey, hkeys⟩ := List.forall_mem_cons.mp hkeys
    obtain ⟨he, hreport⟩ := List.forall_mem_cons.mp hreport
    obtain ⟨c', hstore, hmemory, hcase⟩ := storeAll_append (c := c.put (c.filed e).1 e.2) hkeys hreport
    refine ⟨c', (storeAll_cons hkey he).trans hstore, ?_, hcase⟩
    rw [hmemory, filed_congr (c := c) rfl]
    rfl

theorem storeAll_of_reportable (hkeys : ∀ e ∈ es, e.1.isKey = true) (h : ∀ e ∈ es, IsReportable e) :
    (c.storeAll es).2 = .ok () ∧ (c.storeAll es).1.memory = c.memory.putAll (es.map c.filed) := by
  obtain ⟨c', hstore, hmemory, -⟩ := @storeAll_append [] es c hkeys h
  rw [List.append_nil] at hstore
  rw [hstore]
  exact ⟨rfl, hmemory⟩

/-- The first entry that cannot be reported is put into the memory if its key can be formed, and ends the storing. -/
theorem storeAll_of_long (hkeys : ∀ e' ∈ before ++ e :: after, e'.1.isKey = true)
    (hbefore : ∀ e' ∈ before, IsReportable e') (he : ¬ IsReportable e) :
    (c.storeAll (before ++ e :: after)).2 = .error .longInteger ∧
      (c.HasKey e.1 → (c.storeAll (before ++ e :: after)).1.memory = c.memory.putAll ((before ++ [e]).map c.filed)) ∧
      (¬ c.HasKey e.1 → (c.storeAll (before ++ e :: after)).1.memory = c.memory.putAll (before.map c.filed)) := by
  obtain ⟨hkeys, hrest⟩ := List.forall_mem_append.mp hkeys
  have hkey : e.1.isKey = true := hrest e (List.mem_cons_self ..)
  obtain ⟨c', hstore, hmemory, hcase⟩ := @storeAll_append (e :: after) before c hkeys hbefore
  have hsame : c'.HasKey e.1 ↔ c.HasKey e.1 := by rw [HasKey, HasKey, hcase]
  rw [hstore, storeAll]
  by_cases h : c.HasKey e.1
  · have hput : c'.key e.1 = .ok (c.filed e).1 := by
      rw [key_of_hasKey hkey (hsame.mpr h), filed_congr hcase]
    simp only [hput, if_neg fun hw => he (isReportable_iff.mpr hw)]
    refine ⟨trivial, fun _ => ?_, fun hnot => absurd h hnot⟩
    rw [List.map_append, Bindings.putAll, List.foldl_append]
    exact congrArg (fun b : Bindings => b.put (c.filed e).1 e.2) hmemory
  · simp only [key_of_not_hasKey fun h' => h (hsame.mp h')]
    exact ⟨trivial, fun h' => absurd h' h, fun _ => hmemory⟩

/-! ### Calls -/

/-- What a call of `store` leaves behind. A call that is refused changes nothing. A call whose names and values can all
    be reported succeeds, and the memory is updated with all its entries under their keys. Otherwise it fails at the first
    entry that cannot be reported, and the memory is updated with the entries in front of it and with that entry itself,
    unless the text of its name is needed for its key. -/
theorem store_upTo_long (c : Calculator) (call : StoreCall) :
    (∀ f, call.entries = .error f → c.store call = (c, .error f)) ∧
    ∀ es, call.entries = .ok es →
      ((∀ e ∈ es, IsReportable e) →
        (c.store call).2 = .ok () ∧ (c.store call).1.memory = c.memory.putAll (es.map c.filed)) ∧
      ∀ before e after, es = before ++ e :: after → (∀ e' ∈ before, IsReportable e') → ¬ IsReportable e →
        (c.store call).2 = .error .longInteger ∧
          (c.HasKey e.1 → (c.store call).1.memory = c.memory.putAll ((before ++ [e]).map c.filed)) ∧
          (¬ c.HasKey e.1 → (c.store call).1.memory = c.memory.putAll (before.map c.filed)) := by
  constructor
  · intro f hf
    rw [store, hf]
  · intro es hes
    have hkeys := StoreCall.isKey_of_entries hes
    rw [store, hes]
    refine ⟨storeAll_of_reportable hkeys, ?_⟩
    rintro before e after rfl hbefore he
    exact storeAll_of_long hkeys hbefore he

/-- A name by place that is an integer too long to be lowered ends the call behind `x=1`. -/
theorem store_upTo_long_name :
    let c : Calculator := {}
    let long : Value := .int (Nat.pow 10 4300)
    let call : StoreCall := { positional := [long, .int 2], named := [("x", .int 1)] }
    call.entries = .ok ([(.text "x", .int 1)] ++ [(long, .int 2)]) ∧ IsReportable (.text "x", .int 1) ∧
      ¬ IsReportable (long, .int 2) ∧ ¬ c.HasKey long ∧
      (c.store call).2 = .error .longInteger ∧ (c.store call).1.memory.map (·.1.display) = ["x"] := by
  intro c long call
  have hentries : call.entries = .ok ([(.text "x", .int 1)] ++ [(long, .int 2)]) := rfl
  have hfirst : IsReportable (.text "x", .int 1) := isReportable_iff.mpr (by decide +kernel)
  have hlong : long.HoldsLong := not_not.mp ((Value.isWritable_iff long).not.mp (by decide +kernel))
  have hsecond : ¬ IsReportable (long, .int 2) := fun h => h.1 hlong
  have hkey : ¬ c.HasKey long := fun h => h.elim nofun fun hshort => hshort hlong
  obtain ⟨hfailed, -, hmemory⟩ := ((store_upTo_long c call).2 _ hentries).2 _ _ _ rfl (by simpa using hfirst) hsecond
  refine ⟨hentries, hfirst, hsecond, hkey, hfailed, ?_⟩
  rw [hmemory hkey]
  decide +kernel

/-- A call that fails can leave some of its entries in the memory and lose the others. -/
theorem store_ne_allOrNothing :
    let c : Calculator := {}
    let call : StoreCall := { named := [("x", .int 1), ("y", .int (Nat.pow 10 4300)), ("z", .int 3)] }
    (c.store call).2 = .error .longInteger ∧ c.memory = [] ∧
      (c.store call).1.memory.map (·.1.display) = ["x", "y"] ∧
      (call.entries.map fun es => es.map (·.1.display)) = .ok ["x", "y", "z"] := by
  intro c call
  have hentries : call.entries =
      .ok ([(.text "x", .int 1)] ++ (.text "y", .int (Nat.pow 10 4300)) :: [(.text "z", .int 3)]) := rfl
  have hsecond : ¬ IsReportable (.text "y", .int (Nat.pow 10 4300)) := isReportable_iff.not.mpr (by decide +kernel)
  have hstore : c.store call = c.storeAll
      ([(.text "x", .int 1)] ++ (.text "y", .int (Nat.pow 10 4300)) :: [(.text "z", .int 3)]) := by
    rw [store, hentries]
  obtain ⟨hfailed, hmemory, -⟩ := @storeAll_of_long c _ _ _ (StoreCall.isKey_of_entries hentries)
    (by simpa using isReportable_iff.mpr (by decide +kernel)) hsecond
  rw [hstore, hmemory (Or.inr nofun), hentries]
  exact ⟨hfailed, rfl, by decide +kernel, rfl⟩

end Calculator
end Reckoner
