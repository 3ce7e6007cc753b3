import Mathlib.Data.List.DropRight
import Reckoner.Calculator.Session
import Reckoner.Proofs.RegistrationHistory
import Reckoner.Proofs.StandardRules

/-!
# What a session leaves behind

A calculator keeps its functions, its memory and a reader of texts. The reader is always the one that would be made
from the functions now (`Calculator.IsCurrent`), so that no answer depends on whether it has been kept. The functions
are those whose registration succeeded, and the memory holds what was stored since it was last cleared, the last value
under each key. So a session can be replayed by these registrations and one call of `store` for each key
(`Calculator.essence`), and the answers of both calculators are the same.
-/

namespace Reckoner

/-! ### Bindings -/

namespace Bindings
variable {b : Bindings} {name value : Value} {e : Value × Value}

/-- No name stands for the same key as one in front of it. -/
def Distinct (b : Bindings) : Prop := b.Pairwise fun e e' => e.1.same e'.1 = false

theorem mem_put : ∀ {b : Bindings}, e ∈ b.put name value → e.1 = name ∨ e.1 ∈ b.map (·.1)
  | [], h => Or.inl (congrArg Prod.fst (List.mem_singleton.mp h))
  | (n, v) :: rest, h => by
    unfold put at h
    split at h
    · rcases List.mem_cons.mp h with rfl | h
      · exact Or.inr (List.mem_cons_self ..)
      · exact Or.inr (List.mem_cons_of_mem _ (List.mem_map_of_mem h))
    · rcases List.mem_cons.mp h with rfl | h
      · exact Or.inr (List.mem_cons_self ..)
      · exact (mem_put h).imp_right (List.mem_cons_of_mem _)

theorem mem_putAll : ∀ {es : List (Value × Value)} {b : Bindings}, e ∈ b.putAll es →
    e.1 ∈ b.map (·.1) ∨ e.1 ∈ es.map (·.1)
  | [], _, h => Or.inl (List.mem_map_of_mem h)
  | e' :: es, b, h => by
    rcases mem_putAll (b := b.put e'.1 e'.2) h with h | h
    · obtain ⟨e'', he'', heq⟩ := List.mem_map.mp h
      rcases mem_put he'' with hname | hname
      · exact Or.inr (List.mem_cons.mpr (Or.inl (heq.symm.trans hname)))
      · exact Or.inl (heq ▸ hname)
    · exact Or.inr (List.mem_cons_of_mem _ h)

theorem Distinct.put : ∀ {b : Bindings}, b.Distinct → (b.put name value).Distinct
  | [], _ => List.pairwise_singleton _ _
  | (n, v) :: rest, h => by
    obtain ⟨hfirst, hrest⟩ := List.pairwise_cons.mp h
    unfold Bindings.put
    split
    · exact List.pairwise_cons.mpr ⟨hfirst, hrest⟩
    · rename_i hother
      refine List.pairwise_cons.mpr ⟨fun e he => ?_, Distinct.put hrest⟩
      rcases mem_put he with hname | hname
      · rw [hname]
        exact Bool.eq_false_iff.mpr hother
      · obtain ⟨e', he', heq⟩ := List.mem_map.mp hname
        rw [← heq]
        exact hfirst e' he'

theorem Distinct.putAll : ∀ {es : List (Value × Value)} {b : Bindings}, b.Distinct → (b.putAll es).Distinct
  | [], _, h => h
  | e :: _, b, h => Distinct.putAll (b := b.put e.1 e.2) h.put

theorem put_of_new : ∀ {b : Bindings}, (∀ e ∈ b, e.1.same name = false) → b.put name value = b ++ [(name, value)]
  | [], _ => rfl
  | (n, v) :: rest, h => by
    obtain ⟨hfirst, hrest⟩ := List.forall_mem_cons.mp h
    rw [Bindings.put, if_neg (Bool.eq_false_iff.mp hfirst), put_of_new hrest, List.cons_append]

theorem putAll_of_distinct : ∀ {es : List (Value × Value)} {b : Bindings}, (b ++ es).Pairwise (fun e e' => e.1.same e'.1 = false) →
    b.putAll es = b ++ es
  | [], b, _ => (List.append_nil b).symm
  | e :: es, b, h => by
    have hnew : b.put e.1 e.2 = b ++ [e] := put_of_new fun e' he' => (List.pairwise_append.mp h).2.2 e' he' e (List.mem_cons_self ..)
    have h' : ((b ++ [e]) ++ es).Pairwise fun e e' => e.1.same e'.1 = false := by rwa [List.append_assoc]
    rw [putAll, List.foldl_cons, hnew]
    exact (putAll_of_distinct h').trans (List.append_assoc ..)

/-- A table that is put in anew is the same table. -/
theorem ofEntries_ofEntries (es : List (Value × Value)) : ofEntries (ofEntries es) = ofEntries es := by
  have hdistinct : (ofEntries es).Distinct := Distinct.putAll List.Pairwise.nil
  exact putAll_of_distinct (b := []) hdistinct

/-- Under a text only what is put in under the text changes. -/
theorem get?_put_value (name : Value) (t : String) : ∀ b : Bindings,
    (b.put name value).get? (.text t) = if name.same (.text t) then some value else b.get? (.text t)
  | [] => by
    cases h : name.same (.text t) <;> simp [put, get?, h]
  | (n, v) :: rest => by
    have ih := get?_put_value name t rest
    unfold get? at ih ⊢
    rw [put]
    split
    · -- The name keeps its place, and its value is another one.
      rename_i hsame
      rw [List.find?_cons, List.find?_cons, Value.same_text_congr hsame]
      cases name.same (.text t) <;> rfl
    · rename_i hother
      rw [List.find?_cons, List.find?_cons]
      cases hn : n.same (.text t) with
      | true =>
        have hne : ¬ name.same (.text t) = true := fun hname => hother ((Value.same_text name t).mp hname ▸ hn)
        rw [if_neg hne]
      | false => exact ih

theorem get?_put (s t : String) (b : Bindings) :
    (b.put (.text s) value).get? (.text t) = if s = t then some value else b.get? (.text t) := by
  rw [get?_put_value]
  simp [Value.same]

/-- The last value under a name is the one that is found. -/
theorem get?_ofEntries (es : List (String × Value)) (t : String) :
    (ofEntries (es.map fun e => (.text e.1, e.2))).get? (.text t) = (es.reverse.find? (·.1 == t)).map (·.2) := by
  induction es using List.reverseRecOn with
  | nil => rfl
  | append_singleton es e ih =>
    rw [ofEntries, List.map_append, putAll, List.foldl_append, List.reverse_append, List.reverse_singleton,
      List.singleton_append, List.find?_cons]
    refine (get?_put e.1 t _).trans ?_
    by_cases h : e.1 = t
    · simp [h]
    · rw [if_neg h, beq_eq_false_iff_ne.mpr h]
      exact ih

end Bindings

/-! ### Readers -/

namespace Calculator
variable {c c' : Calculator} {name value k : Value}

/-- The calculator without its reader. -/
def unread (c : Calculator) : Calculator := { c with reader := none }

/-- The reader that has been kept, if any, knows the functions. -/
def IsCurrent (c : Calculator) : Prop := c.lexicon = .make c.table.functionNames c.caseSensitive

theorem isCurrent_of_none (h : c.reader = none) : c.IsCurrent := by
  rw [IsCurrent, lexicon, h, Option.getD_none]

theorem IsCurrent.lexicon_unread (h : c.IsCurrent) : c.lexicon = c.unread.lexicon := h

theorem key_congr (h : c.lexicon.caseSensitive = c'.lexicon.caseSensitive) : c.key = c'.key := by
  funext name
  rw [key, key, h]

theorem IsCurrent.bindings_unread (h : c.IsCurrent) (data : List (Value × Value)) :
    c.bindings data = c.unread.bindings data := by
  rw [bindings, bindings, key_congr (congrArg Lexicon.caseSensitive h.lexicon_unread)]
  rfl

theorem IsCurrent.tokenize_unread (h : c.IsCurrent) (text : String) : c.tokenize text = c.unread.tokenize text := by
  rw [tokenize, tokenize, h.lexicon_unread]

theorem IsCurrent.bind_unread (h : c.IsCurrent) (ts : Stream) (data : List (Value × Value)) :
    c.bind ts data = c.unread.bind ts data := by
  rw [bind, bind, h.bindings_unread]

/-- A function that is found under a name is one of the words of a reader that is made for the table. -/
theorem mem_make_of_lookup? {t : RuleTable} {name : String} {caseSensitive : Bool}
    (h : (t.lookup? name).isSome) : Text.lower name ∈ (Lexicon.make t.functionNames caseSensitive).functionNames := by
  obtain ⟨f, hf⟩ := Option.isSome_iff_exists.mp h
  rw [RuleTable.lookup?, Registry.lookup?] at hf
  have hname : f.name = Text.lower name := by simpa using List.find?_some hf
  have hmem : f.name ∈ t.functionNames := List.mem_map_of_mem (List.mem_of_find?_eq_some hf)
  by_cases hbuiltin : Text.lower name ∈ builtinFunctions
  · exact List.mem_append_left _ hbuiltin
  · refine List.mem_append_right _ (List.mem_filter.mpr ⟨List.mem_map.mpr ⟨f.name, hmem, ?_⟩, by simpa using hbuiltin⟩)
    rw [hname, Text.lower_lower]

/-! ### Storing -/

/-- The entries that come into the memory, under their keys, when values are stored one after the other. -/
def written (c : Calculator) : List (Value × Value) → List (Value × Value)
  | [] => []
  | (name, value) :: rest =>
    match c.key name with
    | .error _ => []
    | .ok key => (key, value) :: if name.isWritable && value.isWritable then c.written rest else []

/-- All entries come into the memory if their texts can be formed. -/
theorem written_of_writable (h : c.lexicon.caseSensitive = false) : ∀ {es : List (Value × Value)},
    (∀ e ∈ es, e.1.isWritable = true ∧ e.2.isWritable = true) →
    c.written es = es.map fun e => (.text (Text.lower e.1.display), e.2)
  | [], _ => rfl
  | (name, value) :: es, hes => by
    obtain ⟨⟨hname, hvalue⟩, hes⟩ := List.forall_mem_cons.mp hes
    have hkey : c.key name = .ok (.text (Text.lower name.display)) := by simp [key, h, hname]
    simp only at hname hvalue
    simp [written, hkey, hname, hvalue, written_of_writable h hes]

theorem written_congr (h : c.lexicon.caseSensitive = c'.lexicon.caseSensitive) : ∀ es : List (Value × Value), c.written es = c'.written es
  | [] => rfl
  | (name, value) :: rest => by rw [written, written, key_congr h, written_congr h rest]

theorem storeAll_snd_congr : ∀ {es : List (Value × Value)} {c c' : Calculator},
    c.lexicon.caseSensitive = c'.lexicon.caseSensitive → (c.storeAll es).2 = (c'.storeAll es).2
  | [], _, _, _ => rfl
  | (name, value) :: rest, c, c', h => by
    rw [storeAll, storeAll, key_congr h]
    cases c'.key name with
    | error f => rfl
    | ok k =>
      have ih : ((c.put k value).storeAll rest).2 = ((c'.put k value).storeAll rest).2 := storeAll_snd_congr h
      cases name.isWritable && value.isWritable
      · rfl
      · exact ih

/-- Storing changes the memory only, apart from the reader, which is needed for the first key. -/
theorem storeAll_fst : ∀ (es : List (Value × Value)) (c : Calculator), (c.storeAll es).1 =
    { c with memory := c.memory.putAll (c.written es), reader := if es.isEmpty then c.reader else some c.lexicon }
  | [], c => rfl
  | (name, value) :: rest, c => by
    rw [storeAll, written]
    cases c.key name with
    | error f => rfl
    | ok k =>
      have ih := storeAll_fst rest (c.put k value)
      have hsame : (c.put k value).lexicon.caseSensitive = c.lexicon.caseSensitive := rfl
      rw [written_congr hsame] at ih
      cases name.isWritable && value.isWritable
      · rfl
      · refine ih.trans ?_
        cases rest <;> rfl

/-! ### One request -/

/-- What a call of `store` puts into the memory. -/
def writtenBy (c : Calculator) (call : StoreCall) : List (Value × Value) :=
  match call.entries with
  | .ok es => c.written es
  | .error _ => []

theorem writtenBy_congr (h : c.lexicon.caseSensitive = c'.lexicon.caseSensitive) (call : StoreCall) :
    c.writtenBy call = c'.writtenBy call := by
  rw [writtenBy, writtenBy]
  cases call.entries with
  | error f => rfl
  | ok es => exact written_congr h es

theorem store_unread (c : Calculator) (call : StoreCall) :
    (c.store call).1.unread = { c.unread with memory := c.memory.putAll (c.writtenBy call) } := by
  rw [store, writtenBy]
  cases call.entries with
  | error f => rfl
  | ok es =>
    rw [storeAll_fst]
    rfl

theorem store_snd_congr (h : c.lexicon.caseSensitive = c'.lexicon.caseSensitive) (call : StoreCall) : (c.store call).2 = (c'.store call).2 := by
  rw [store, store]
  cases call.entries with
  | error f => rfl
  | ok es => exact storeAll_snd_congr h

theorem IsCurrent.store (h : c.IsCurrent) (call : StoreCall) : (c.store call).1.IsCurrent := by
  rw [Calculator.store]
  cases call.entries with
  | error f => exact h
  | ok es =>
    rw [storeAll_fst]
    cases es with
    | nil => exact h
    | cons e es => exact h

theorem perform_addFunction (c : Calculator) (f : UserFunction) : c.perform (.addFunction f) =
    match c.table.add f with
    | .ok t => ({ c with table := t, reader := none }, .ok (.function f))
    | .error e => (c, .error e) := by
  rw [perform, addFunction]
  cases c.table.add f <;> rfl

/-- The functions that are to be registered. -/
def Request.functions : Request → List UserFunction
  | .addFunction f => [f]
  | _ => []

/-- What a request puts into the memory. -/
def Request.written (c : Calculator) : Request → List (Value × Value)
  | .store call => c.writtenBy call
  | _ => []

theorem Request.written_congr (h : c.lexicon.caseSensitive = c'.lexicon.caseSensitive) (r : Request) :
    r.written c = r.written c' := by
  cases r with
  | store call => exact writtenBy_congr h call
  | _ => rfl

/-- The request is to empty the memory. -/
def Request.isClear : Request → Bool
  | .clear => true
  | _ => false

/-- Every answer is the same without the reader. -/
theorem IsCurrent.answer_unread (h : c.IsCurrent) (r : Request) : (c.perform r).2 = (c.unread.perform r).2 := by
  cases r with
  | store call =>
    have hstore := store_snd_congr (congrArg Lexicon.caseSensitive h.lexicon_unread) call
    simp only [perform, hstore]
  | clear => rfl
  | addFunction f =>
    rw [perform_addFunction, perform_addFunction, unread]
    cases c.table.add f <;> rfl
  | tokenize text => simp only [perform, h.tokenize_unread]
  | dependencies text data =>
    have hdependencies : c.dependencies text data = c.unread.dependencies text data := by
      rw [dependencies, dependencies, h.bindings_unread, h.tokenize_unread]
    simp only [perform, hdependencies]
  | bind ts data => simp only [perform, h.bind_unread]
  | evaluate text data =>
    have hevaluate : c.evaluate text data = c.unread.evaluate text data := by
      simp only [evaluate, h.tokenize_unread, h.bind_unread]
      rfl
    simp only [perform, hevaluate]

theorem perform_unread (c : Calculator) (r : Request) : (c.perform r).1.unread =
    { c.unread with
      table := c.table.afterRegistering r.functions
      memory := if r.isClear then [] else c.memory.putAll (r.written c) } := by
  cases r with
  | store call => exact store_unread c call
  | addFunction f =>
    rw [perform_addFunction, Request.functions, RuleTable.afterRegistering_cons, RuleTable.run_register]
    cases c.table.add f <;> rfl
  | bind ts data =>
    simp only [perform]
    split <;> rfl
  | _ => rfl

/-- A function that is registered is one that no reader lacks from then on. -/
theorem IsCurrent.perform (h : c.IsCurrent) (r : Request) : (c.perform r).1.IsCurrent := by
  cases r with
  | store call => exact h.store call
  | addFunction f =>
    rw [perform_addFunction]
    cases c.table.add f with
    | error e => exact h
    | ok t => exact isCurrent_of_none rfl
  | bind ts data =>
    simp only [Calculator.perform]
    split <;> exact h
  | _ => exact h

/-! ### Sessions -/

section Session
variable {r : Request} {rs : List Request}

/-- The requests behind the last one that emptied the memory. -/
def sinceClear (rs : List Request) : List Request := rs.rtakeWhile fun r => !r.isClear

/-- The functions that were to be registered. -/
def functionsOf (rs : List Request) : List UserFunction := rs.flatMap Request.functions

/-- What was stored since the memory was last emptied, the last value under each key. -/
def remembered (c : Calculator) (rs : List Request) : Bindings :=
  Bindings.ofEntries ((sinceClear rs).flatMap (Request.written c))

theorem after_snoc (c : Calculator) (rs : List Request) (r : Request) :
    c.after (rs ++ [r]) = ((c.after rs).perform r).1 := by
  rw [after, List.foldl_append]
  rfl

theorem functionsOf_snoc : functionsOf (rs ++ [r]) = functionsOf rs ++ r.functions := by
  rw [functionsOf, List.flatMap_append, List.flatMap_singleton, functionsOf]

theorem sinceClear_snoc : sinceClear (rs ++ [r]) = if r.isClear then [] else sinceClear rs ++ [r] := by
  rw [sinceClear, List.rtakeWhile_concat]
  cases r.isClear <;> rfl

theorem remembered_snoc : remembered c (rs ++ [r]) =
    if r.isClear then [] else (remembered c rs).putAll (r.written c) := by
  rw [remembered, sinceClear_snoc]
  split
  · rfl
  · rw [List.flatMap_append, List.flatMap_singleton, Bindings.ofEntries, Bindings.putAll, List.foldl_append]
    rfl

/-- After any session a new calculator has its functions and its memory, and no reader that is out of date. -/
theorem after_state (hreader : c.reader = none) (hmemory : c.memory = []) (rs : List Request) :
    (c.after rs).IsCurrent ∧ (c.after rs).unread =
      { c with table := c.table.afterRegistering (functionsOf rs), memory := remembered c rs } := by
  induction rs using List.reverseRecOn with
  | nil =>
    refine ⟨isCurrent_of_none hreader, ?_⟩
    obtain ⟨⟩ := c
    cases hreader
    cases hmemory
    rfl
  | append_singleton rs r ih =>
    obtain ⟨hcurrent, hstate⟩ := ih
    have htable : (c.after rs).table = c.table.afterRegistering (functionsOf rs) := congrArg table hstate
    have hmemory : (c.after rs).memory = remembered c rs := congrArg memory hstate
    have hcase : (c.after rs).unread.caseSensitive = c.caseSensitive := by rw [hstate]
    -- Keys are formed as at the start, as letter case counts or does not count throughout.
    have hwritten : r.written (c.after rs) = r.written c := by
      refine Request.written_congr ?_ r
      rw [hcurrent, isCurrent_of_none hreader]
      exact hcase
    rw [after_snoc, functionsOf_snoc, remembered_snoc, RuleTable.afterRegistering_append]
    refine ⟨hcurrent.perform r, ?_⟩
    rw [perform_unread, hstate, htable, hmemory, hwritten]

/-! ### Replaying a session -/

/-- The name is a key under which the calculator stores it. -/
structure IsOwnKey (c : Calculator) (k : Value) : Prop where
  key : c.key k = .ok k
  isKey : k.isKey = true
  ne_null : k ≠ .null

theorem isOwnKey_of_key (h : c.key name = .ok k) (hname : name ≠ .null) : c.IsOwnKey k := by
  unfold Calculator.key at h
  split at h
  · rename_i hcase
    split at h
    · rename_i hkey
      obtain rfl := Except.ok.inj h
      exact ⟨by rw [Calculator.key, if_pos hcase, if_pos hkey], hkey, hname⟩
    · cases h
  · rename_i hcase
    split at h
    · obtain rfl := Except.ok.inj h
      refine ⟨?_, rfl, by simp⟩
      rw [Calculator.key, if_neg hcase]
      simp only [Value.isWritable, Value.display, Text.lower_lower, if_true]
    · cases h

theorem StoreCall.entries_ne_null {call : StoreCall} {es : List (Value × Value)} (h : call.entries = .ok es) :
    ∀ e ∈ es, e.1 ≠ .null := by
  have htexts : ∀ {named : List (String × Value)} {e : Value × Value},
      e ∈ Bindings.ofEntries (named.map fun n => (.text n.1, n.2)) → e.1 ≠ .null := by
    intro named e he hnull
    rcases Bindings.mem_putAll he with hmem | hmem
    · exact absurd hmem List.not_mem_nil
    · obtain ⟨e', he', heq⟩ := List.mem_map.mp hmem
      obtain ⟨n, -, rfl⟩ := List.mem_map.mp he'
      exact Value.noConfusion (heq.trans hnull)
  unfold StoreCall.entries at h
  split at h
  · simp only at h
    split at h
    · obtain rfl := Except.ok.inj h
      exact fun e he => htexts he
    · cases h
    · rename_i hname _
      obtain rfl := Except.ok.inj h
      intro e he
      rcases Bindings.mem_put he with heq | hmem
      · exact heq ▸ hname
      · obtain ⟨e', he', heq⟩ := List.mem_map.mp hmem
        exact heq ▸ htexts he'
  · cases h

theorem isOwnKey_of_written : ∀ {es : List (Value × Value)}, (∀ e ∈ es, e.1 ≠ .null) → ∀ e ∈ c.written es, c.IsOwnKey e.1
  | [], _, e, he => absurd he List.not_mem_nil
  | (name, value) :: rest, hes, e, he => by
    obtain ⟨hname, hrest⟩ := List.forall_mem_cons.mp hes
    unfold written at he
    split at he
    · exact absurd he List.not_mem_nil
    · rename_i k hkey
      rcases List.mem_cons.mp he with rfl | he
      · exact isOwnKey_of_key hkey hname
      · split at he
        · exact isOwnKey_of_written hrest e he
        · exact absurd he List.not_mem_nil

theorem isOwnKey_of_remembered : ∀ e ∈ remembered c rs, c.IsOwnKey e.1 := by
  intro e he
  rcases Bindings.mem_putAll he with hmem | hmem
  · exact absurd hmem List.not_mem_nil
  · obtain ⟨e', he', heq⟩ := List.mem_map.mp hmem
    obtain ⟨r, -, hr⟩ := List.mem_flatMap.mp he'
    rw [← heq]
    cases r with
    | store call =>
      have hr : e' ∈ c.writtenBy call := hr
      unfold writtenBy at hr
      split at hr
      · rename_i es hentries
        exact isOwnKey_of_written (StoreCall.entries_ne_null hentries) e' hr
      · exact absurd hr List.not_mem_nil
    | _ => exact absurd hr List.not_mem_nil

/-- The call that stores a value under a key. -/
def storing (e : Value × Value) : Request := .store { positional := [e.1, e.2] }

theorem IsOwnKey.written_storing {e : Value × Value} (h : c.IsOwnKey e.1) : (storing e).written c = [e] := by
  obtain ⟨k, value⟩ := e
  have hentries : StoreCall.entries { positional := [k, value] } = .ok [(k, value)] := by
    obtain ⟨-, hkey, hnull⟩ := h
    cases k with
    | null => exact absurd rfl hnull
    | list vs => cases hkey
    | _ => rfl
  have hkey : c.key k = .ok k := h.key
  simp [storing, Request.written, writtenBy, hentries, written, hkey]

/-- The registrations that succeeded, and a call of `store` for each key of the memory. -/
def essence (c : Calculator) (rs : List Request) : List Request :=
  (RuleTable.registered (functionsOf rs)).map .addFunction ++ (remembered c rs).map storing

theorem functionsOf_essence : functionsOf (c.essence rs) = RuleTable.registered (functionsOf rs) := by
  have hadded : ∀ fs : List UserFunction, (fs.map Request.addFunction).flatMap Request.functions = fs := by
    intro fs
    rw [List.flatMap_map]
    exact List.flatMap_singleton' fs
  have hstored : ∀ b : Bindings, (b.map storing).flatMap Request.functions = [] := by
    intro b
    rw [List.flatMap_map]
    exact List.flatMap_eq_nil_iff.mpr fun _ _ => rfl
  rw [functionsOf, essence, List.flatMap_append, hadded, hstored, List.append_nil]

theorem remembered_essence : remembered c (c.essence rs) = remembered c rs := by
  have hkept : sinceClear (c.essence rs) = c.essence rs := by
    refine List.rtakeWhile_eq_self_iff.mpr fun r hr => ?_
    rcases List.mem_append.mp hr with hr | hr <;> obtain ⟨_, -, rfl⟩ := List.mem_map.mp hr <;> rfl
  have hadded : ∀ fs : List UserFunction, (fs.map Request.addFunction).flatMap (Request.written c) = [] := by
    intro fs
    rw [List.flatMap_map]
    exact List.flatMap_eq_nil_iff.mpr fun _ _ => rfl
  have hstored : ((remembered c rs).map storing).flatMap (Request.written c) = remembered c rs := by
    rw [List.flatMap_map, List.flatMap_congr fun e he => (isOwnKey_of_remembered e he).written_storing]
    exact List.flatMap_singleton' _
  rw [remembered, hkept, essence, List.flatMap_append, hadded, hstored, List.nil_append]
  exact Bindings.ofEntries_ofEntries _

/-- What a session leaves behind are its functions and its memory: every answer is that of a new calculator on which the
    registrations that succeeded are made and what is still remembered is stored, and a reader that is kept is the one
    that would be made for all registered functions. -/
theorem answer_essence (settings : Settings) (table : RuleTable) (limit : Option Int) (caseSensitive : Option Bool)
    (rs : List Request) :
    let c := Calculator.make settings table limit caseSensitive
    (∀ r, ((c.after rs).perform r).2 = ((c.after (c.essence rs)).perform r).2) ∧
      ∀ l, (c.after rs).reader = some l →
        l = .make (c.after rs).table.functionNames c.caseSensitive ∧
          ∀ name, ((c.after rs).table.lookup? name).isSome → Text.lower name ∈ l.functionNames := by
  intro c
  obtain ⟨hcurrent, hstate⟩ := after_state (c := c) rfl rfl rs
  obtain ⟨hcurrent', hstate'⟩ := after_state (c := c) rfl rfl (c.essence rs)
  constructor
  · intro r
    rw [functionsOf_essence, RuleTable.afterRegistering_registered, remembered_essence] at hstate'
    rw [hcurrent.answer_unread, hcurrent'.answer_unread, hstate, hstate']
  · intro l hl
    have hcase : (c.after rs).unread.caseSensitive = c.caseSensitive := by rw [hstate]
    have hreader : l = .make (c.after rs).table.functionNames (c.after rs).caseSensitive := by
      rw [← hcurrent, lexicon, hl, Option.getD_some]
    refine ⟨hreader.trans (congrArg _ hcase), fun name hname => ?_⟩
    rw [hreader]
    exact mem_make_of_lookup? hname

end Session

end Calculator
end Reckoner
