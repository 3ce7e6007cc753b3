import Reckoner.Function.Standard
import Reckoner.Proofs.FailureKinds
import Reckoner.Proofs.LetterCase

/-!
# Variables without a value

The value of a variable is the last one given with the text under a key for its name, or else that in the memory
(`Calculator.value?`). The names of a text that have no value are what `dependencies` answers and what an evaluation fails
for, which it does before anything is reduced (`Calculator.evaluate_dependencies`).
-/

namespace Reckoner

/-- The failure says that a text is not readable, or that variables have no value. -/
def Failure.isOfText : Failure → Bool
  | .unreadable _ _ | .unboundVariables _ => true
  | _ => false

theorem Failure.IsOrdinary.not_isOfText {f : Failure} (h : f.IsOrdinary) : f.isOfText = false := by
  cases f with
  | unreadable | unboundVariables => exact absurd rfl h.1
  | _ => rfl

/-- Unless a function does, no reduction fails as a text does that cannot be read or bound. -/
theorem Engine.CanFail.not_isOfText {e : Engine} {f : Failure} (h : e.CanFail f)
    (hbody : ∀ f ∈ e.table.functions.functions, ∀ vs g, f.body.run vs = .error g → g.isOfText = false) :
    f.isOfText = false := by
  cases h with
  | ordinary hord => exact hord.not_isOfText
  | reduction hreduction =>
    cases f with
    | unreadable | unboundVariables => cases hreduction
    | _ => rfl
  | body hg hrun => exact hbody _ hg _ _ hrun

/-! ### The values of variables -/

/-- The names of the variables in a stream. -/
def Stream.variableNames (ts : Stream) : List String :=
  ts.filterMap fun t => match t with
    | ⟨.identifier, .text name⟩ => some name
    | _ => none

theorem Stream.mem_variableNames {ts : Stream} {name : String} : name ∈ ts.variableNames ↔ ⟨.identifier, .text name⟩ ∈ ts := by
  rw [variableNames, List.mem_filterMap]
  constructor
  · rintro ⟨t, ht, hname⟩
    split at hname
    · cases hname
      exact ht
    · cases hname
  · exact fun ht => ⟨_, ht, rfl⟩

namespace Calculator
variable {c : Calculator} {text : String} {data : List (Value × Value)} {b : Bindings} {ts : Stream} {t : Token}

/-- The value of a variable: the last one given under a key for its name, or else the one in the memory. -/
def value? (c : Calculator) (data : List (Value × Value)) (name : String) : Option Value :=
  match data.reverse.find? fun e => (c.key e.1).toOption.any (·.same (.text name)) with
  | some e => some e.2
  | none => c.memory.get? (.text name)

/-- The names of the variables of a stream that have no value, each at its first place. -/
def missing (c : Calculator) (data : List (Value × Value)) (ts : Stream) : List String :=
  (ts.variableNames.filter fun name => (c.value? data name).isNone).eraseDups

/-- The token, or in place of a variable that of its value. -/
def replaced (c : Calculator) (data : List (Value × Value)) : Token → Outcome Token
  | ⟨.identifier, .text name⟩ =>
    match c.value? data name with
    | some v => Token.ofValue v
    | none => .error (.unboundVariables [name])
  | t => .ok t

theorem get?_bindings (hb : c.bindings data = .ok b) (name : String) : b.get? (.text name) = c.value? data name := by
  induction data using List.reverseRecOn generalizing b with
  | nil =>
    obtain rfl := Except.ok.inj hb
    rfl
  | append_singleton data e ih =>
    rw [bindings, List.foldlM_append] at hb
    obtain ⟨b', hb', hb⟩ := Outcome.bind_eq_ok hb
    rw [List.foldlM_cons] at hb
    obtain ⟨b'', hb'', hb⟩ := Outcome.bind_eq_ok hb
    obtain ⟨k, hk, hput⟩ := Outcome.map_eq_ok hb''
    obtain rfl : b'.put k e.2 = b := hput.trans (Except.ok.inj hb)
    have hkey : (c.key e.1).toOption.any (·.same (.text name)) = k.same (.text name) := by rw [hk]; rfl
    rw [Bindings.get?_put_value, value?, List.reverse_append, List.reverse_singleton, List.singleton_append,
      List.find?_cons, hkey]
    cases k.same (.text name) with
    | true => rfl
    | false => exact ih hb'

/-! ### Variables of a text -/

theorem map_value_variableNames : ∀ {ts : Stream}, (∀ t ∈ ts, t.category = .identifier → ∃ name, t.value = .text name) →
    (ts.filter (·.category == .identifier)).map (·.value) = ts.variableNames.map .text
  | [], _ => rfl
  | ⟨category, value⟩ :: ts, h => by
    obtain ⟨ht, hts⟩ := List.forall_mem_cons.mp h
    have ih := map_value_variableNames hts
    cases category with
    | identifier =>
      obtain ⟨name, rfl⟩ := ht rfl
      exact congrArg (Value.text name :: ·) ih
    | _ => exact ih

theorem unbound_eq (hb : c.bindings data = .ok b)
    (hts : ∀ t ∈ ts, t.category = .identifier → ∃ name, t.value = .text name) :
    unbound b ts = (ts.variableNames.filter fun name => (c.value? data name).isNone).map .text := by
  rw [unbound, map_value_variableNames hts, List.filter_map]
  refine congrArg (List.map Value.text) (List.filter_congr fun name _ => ?_)
  show (!b.has (.text name)) = (c.value? data name).isNone
  rw [Bindings.has_eq, get?_bindings hb, Option.not_isSome]

theorem distinct_texts (names : List String) : distinct (names.map .text) = names.eraseDups.map .text := by
  induction names using List.reverseRecOn with
  | nil => rfl
  | append_singleton names name ih =>
    rw [eraseDups_snoc, List.map_append, distinct, List.foldl_append]
    rw [distinct] at ih
    rw [ih]
    have hmem : (Value.text name).isIn (names.eraseDups.map .text) = true ↔ name ∈ names := by
      rw [Value.isIn_texts]
      simp
    by_cases h : name ∈ names
    · rw [if_pos h]
      exact if_pos (hmem.mpr h)
    · rw [if_neg h, List.map_append]
      exact if_neg (mt hmem.mp h)

theorem texts?_map : ∀ names : List String, texts? (names.map .text) = some names
  | [] => rfl
  | name :: names => by rw [List.map_cons, texts?, texts?_map names]; rfl

theorem dependencies_eq (hb : c.bindings data = .ok b) (hts : c.tokenize text = .ok ts) :
    c.dependencies text data = .ok ((c.missing data ts).map .text) := by
  rw [dependencies, hb, hts, missing, ← distinct_texts, ← unbound_eq hb (Lexicon.text_of_identifier hts)]
  rfl

/-- A token is bound as it is replaced if its variable has a value. -/
theorem bindToken_eq (hb : c.bindings data = .ok b) (ht : t.category = .identifier →
    ∃ name v, t.value = .text name ∧ c.value? data name = some v) : bindToken b t = c.replaced data t := by
  obtain ⟨category, value⟩ := t
  cases category with
  | identifier =>
    obtain ⟨name, v, rfl, hv⟩ := ht rfl
    show Token.ofValue ((b.get? (.text name)).getD .null) = _
    rw [get?_bindings hb, replaced, hv]
    rfl
  | _ => rfl

theorem missing_eq_nil_iff (hts : ∀ t ∈ ts, t.category = .identifier → ∃ name, t.value = .text name) :
    c.missing data ts = [] ↔ ∀ t ∈ ts, t.category = .identifier →
      ∃ name v, t.value = .text name ∧ c.value? data name = some v := by
  have hnone : c.missing data ts = [] ↔ ∀ name ∈ ts.variableNames, c.value? data name ≠ none := by
    rw [List.eq_nil_iff_forall_not_mem]
    simp only [missing, List.mem_eraseDups, List.mem_filter, Option.isNone_iff_eq_none, not_and, ne_eq]
  rw [hnone]
  constructor
  · rintro h ⟨category, value⟩ ht rfl
    obtain ⟨name, rfl⟩ := hts _ ht rfl
    obtain ⟨v, hv⟩ := Option.ne_none_iff_exists'.mp (h name (Stream.mem_variableNames.mpr ht))
    exact ⟨name, v, rfl, hv⟩
  · intro h name hname
    obtain ⟨name', v, hvalue, hv⟩ := h _ (Stream.mem_variableNames.mp hname) rfl
    obtain rfl := Value.text.inj hvalue
    rw [hv]
    exact Option.some_ne_none v

theorem bind_eq (hb : c.bindings data = .ok b) (hts : ∀ t ∈ ts, t.category = .identifier → ∃ name, t.value = .text name) :
    c.bind ts data = if c.missing data ts = [] then ts.mapM (c.replaced data)
      else .error (.unboundVariables (c.missing data ts)) := by
  have hkeys : (ts.filter (·.category == .identifier)).all (·.value.isKey) = true := by
    refine List.all_eq_true.mpr fun t ht => ?_
    obtain ⟨ht, hcategory⟩ := List.mem_filter.mp ht
    obtain ⟨name, hname⟩ := hts t ht (beq_iff_eq.mp hcategory)
    rw [hname]
    rfl
  have hmissing : distinct (unbound b ts) = (c.missing data ts).map .text := by
    rw [unbound_eq hb hts, distinct_texts, missing]
  rw [bind, hb]
  show (if !(ts.filter (·.category == .identifier)).all (·.value.isKey) then _ else _) = _
  rw [hkeys, hmissing]
  cases hnames : c.missing data ts with
  | nil => exact Outcome.mapM_congr fun t ht => bindToken_eq hb ((missing_eq_nil_iff hts).mp hnames t ht)
  | cons name names =>
    have htexts : texts? (.text name :: names.map .text) = some (name :: names) := texts?_map (name :: names)
    simp only [List.map_cons, htexts]
    rfl

/-! ### Evaluations -/

section Failures
variable {f : Failure}

theorem evaluate_of_tokenize_error (h : c.tokenize text = .error f) : (c.evaluate text data).outcome = .error f := by
  simp only [evaluate, Traced.outcome_bind, Traced.outcome_ofOutcome, h]
  rfl

theorem evaluate_of_bindings_error (hts : c.tokenize text = .ok ts) (h : c.bindings data = .error f) :
    (c.evaluate text data).outcome = .error f := by
  have hbind : c.bind ts data = .error f := by
    rw [bind, h]
    rfl
  simp only [evaluate, Traced.outcome_bind, Traced.outcome_ofOutcome, hts]
  show (c.bind ts data).bind _ = _
  rw [hbind]
  rfl

theorem dependencies_of_bindings_error (h : c.bindings data = .error f) : c.dependencies text data = .error f := by
  rw [dependencies, h]
  rfl

theorem dependencies_of_tokenize_error (hb : c.bindings data = .ok b) (h : c.tokenize text = .error f) :
    c.dependencies text data = .error f := by
  rw [dependencies, hb, h]
  rfl

theorem ne_unbound_of_tokenize (h : c.tokenize text = .error f) (names : List String) : f ≠ .unboundVariables names := by
  rintro rfl
  obtain ⟨pieces, stop, -, hfails⟩ := ((c.lexicon.tokenize_tiles text).2 _).mp h
  cases hfails

theorem exists_key_text (c : Calculator) (s : String) : ∃ k, c.key (.text s) = .ok k := by
  unfold key
  split
  · exact ⟨_, rfl⟩
  · exact ⟨_, rfl⟩

theorem isOfText_of_bindings (h : c.bindings data = .error f) : f.isOfText = false := by
  obtain ⟨e, -, he⟩ := exists_key_error h
  rcases key_error he with rfl | rfl <;> rfl

theorem isOfText_of_replaced (ht : t.category = .identifier → ∃ name v, t.value = .text name ∧ c.value? data name = some v)
    (h : c.replaced data t = .error f) : f.isOfText = false := by
  obtain ⟨category, value⟩ := t
  cases category with
  | identifier =>
    obtain ⟨name, v, rfl, hv⟩ := ht rfl
    have h : Token.ofValue v = .error f := by simpa only [replaced, hv] using h
    unfold Token.ofValue at h
    repeat' split at h
    all_goals cases h
    rfl
  | _ => cases h

end Failures

/-- What an evaluation comes to when its text is read and its keys are formed. -/
theorem evaluate_eq (hb : c.bindings data = .ok b) (hts : c.tokenize text = .ok ts) : (c.evaluate text data).outcome =
    if c.missing data ts = [] then (ts.mapM (c.replaced data)).bind fun bound => (c.engine.evaluate bound).outcome
    else .error (.unboundVariables (c.missing data ts)) := by
  simp only [evaluate, Traced.outcome_bind, Traced.outcome_ofOutcome]
  rw [hts]
  show (c.bind ts data).bind _ = _
  rw [bind_eq hb (Lexicon.text_of_identifier hts)]
  split <;> rfl

section Bodies
variable (hbody : ∀ f ∈ c.table.functions.functions, ∀ vs g, f.body.run vs = .error g → g.isOfText = false)
include hbody

theorem isOfText_of_bound {f : Failure} (hts : c.tokenize text = .ok ts) (hnone : c.missing data ts = [])
    (h : ((ts.mapM (c.replaced data)).bind fun bound => (c.engine.evaluate bound).outcome) = .error f) :
    f.isOfText = false := by
  have hvalues := (missing_eq_nil_iff (Lexicon.text_of_identifier hts)).mp hnone
  rcases Outcome.bind_eq_error h with h | ⟨bound, -, h⟩
  · obtain ⟨t, ht, h⟩ := Outcome.mapM_eq_error h
    exact isOfText_of_replaced (hvalues t ht) h
  · exact (Engine.canFail_of_evaluate h).not_isOfText hbody

theorem evaluate_unbound_iff (names : List String) :
    (c.evaluate text data).outcome = .error (.unboundVariables names) ↔
      names ≠ [] ∧ c.dependencies text data = .ok (names.map .text) := by
  cases hb : c.bindings data with
  | error f =>
    -- The answer fails for the key, the evaluation for the key or before that for the text.
    rw [dependencies_of_bindings_error hb]
    refine iff_of_false (fun h => ?_) fun h => by cases h.2
    cases hts : c.tokenize text with
    | error g =>
      exact ne_unbound_of_tokenize hts names (Except.error.inj ((evaluate_of_tokenize_error hts).symm.trans h))
    | ok ts =>
      obtain rfl := Except.error.inj ((evaluate_of_bindings_error hts hb).symm.trans h)
      cases isOfText_of_bindings hb
  | ok b =>
    cases hts : c.tokenize text with
    | error g =>
      rw [dependencies_of_tokenize_error hb hts, evaluate_of_tokenize_error hts]
      exact iff_of_false (fun h => ne_unbound_of_tokenize hts names (Except.error.inj h)) fun h => by cases h.2
    | ok ts =>
      rw [dependencies_eq hb hts, evaluate_eq hb hts]
      -- Nothing behind the variables fails for them.
      by_cases hnone : c.missing data ts = []
      · rw [if_pos hnone]
        refine iff_of_false (fun h => ?_) fun ⟨hne, h⟩ => hne ?_
        · cases isOfText_of_bound hbody hts hnone h
        · rw [hnone] at h
          exact List.map_eq_nil_iff.mp (Except.ok.inj h).symm
      · rw [if_neg hnone]
        constructor
        · intro h
          obtain rfl := Failure.unboundVariables.inj (Except.error.inj h)
          exact ⟨hnone, rfl⟩
        · rintro ⟨-, h⟩
          rw [List.map_injective_iff.mpr (fun _ _ => Value.text.inj) (Except.ok.inj h)]

theorem evaluate_unreadable_iff (hkeys : ∀ e ∈ data, ∃ k, c.key e.1 = .ok k) (t : String) (p : Nat) :
    (c.evaluate text data).outcome = .error (.unreadable t p) ↔
      c.dependencies text data = .error (.unreadable t p) := by
  cases hb : c.bindings data with
  | error f =>
    obtain ⟨e, he, hkey⟩ := exists_key_error hb
    obtain ⟨k, hk⟩ := hkeys e he
    cases hk.symm.trans hkey
  | ok b =>
    cases hts : c.tokenize text with
    | error g =>
      rw [dependencies_of_tokenize_error hb hts, evaluate_of_tokenize_error hts, Except.error.injEq, Except.error.injEq]
    | ok ts =>
      rw [dependencies_eq hb hts, evaluate_eq hb hts]
      refine iff_of_false (fun h => ?_) fun h => by cases h
      split at h
      · rename_i hnone
        cases isOfText_of_bound hbody hts hnone h
      · cases h

/-- An evaluation fails for unbound variables exactly if there are some among the answers of `dependencies`, which are
    the names without a value, each at its first place. It fails for an unreadable text exactly if `dependencies` does,
    at the same place, where all keys can be formed, as those that are texts can (`exists_key_text`). If there are no
    such variables, each variable is replaced by the last value given under a key for its name, or else by the one in
    the memory, before the text is reduced. -/
theorem evaluate_dependencies (text : String) (data : List (Value × Value)) :
    (∀ names, (c.evaluate text data).outcome = .error (.unboundVariables names) ↔
      names ≠ [] ∧ c.dependencies text data = .ok (names.map .text)) ∧
    (∀ vs, c.dependencies text data = .ok vs →
      ∃ ts, c.tokenize text = .ok ts ∧ vs = (c.missing data ts).map .text ∧ vs.Nodup) ∧
    ((∀ e ∈ data, ∃ k, c.key e.1 = .ok k) → ∀ t p, (c.evaluate text data).outcome = .error (.unreadable t p) ↔
      c.dependencies text data = .error (.unreadable t p)) ∧
    (c.dependencies text data = .ok [] → ∃ ts, c.tokenize text = .ok ts ∧
      (∀ t ∈ ts, t.category = .identifier → ∃ name v, t.value = .text name ∧ c.value? data name = some v) ∧
      c.bind ts data = ts.mapM (c.replaced data) ∧
      (c.evaluate text data).outcome =
        (ts.mapM (c.replaced data)).bind fun bound => (c.engine.evaluate bound).outcome) := by
  have answered : ∀ {vs}, c.dependencies text data = .ok vs → ∃ b ts, c.bindings data = .ok b ∧ c.tokenize text = .ok ts ∧
      vs = (c.missing data ts).map .text := by
    intro vs h
    obtain ⟨b, hb, h'⟩ := Outcome.bind_eq_ok h
    obtain ⟨ts, hts, -⟩ := Outcome.bind_eq_ok h'
    exact ⟨b, ts, hb, hts, Except.ok.inj (h.symm.trans (dependencies_eq hb hts))⟩
  refine ⟨fun names => evaluate_unbound_iff hbody names, fun vs h => ?_,
    fun hkeys t p => evaluate_unreadable_iff hbody hkeys t p, fun h => ?_⟩
  · obtain ⟨b, ts, -, hts, rfl⟩ := answered h
    exact ⟨ts, hts, rfl, List.Pairwise.map _ (fun _ _ hne h => hne (Value.text.inj h)) (nodup_eraseDups _)⟩
  · obtain ⟨b, ts, hb, hts, hvs⟩ := answered h
    have hnone := List.map_eq_nil_iff.mp hvs.symm
    have htexts := Lexicon.text_of_identifier hts
    refine ⟨ts, hts, (missing_eq_nil_iff htexts).mp hnone, ?_, ?_⟩
    · rw [bind_eq hb htexts, if_pos hnone]
    · rw [evaluate_eq hb hts, if_pos hnone]

end Bodies

/-- A call of a function with a variable that has no value, one with a sign that none can start with, and one with two
    variables that have values: what is given stands over the memory, and the last one given under a name counts. -/
theorem evaluate_dependencies_first :
    let f := UserFunction.make "First" .numeric [.category .numeric, .category .numeric] ⟨"first", Body.first⟩
    let table : RuleTable := ⟨⟨[f]⟩, [⟨.call "first" [.numeric, .numeric], .call "first"⟩], Rule.standard⟩
    let c : Calculator := { table, memory := [(.text "x", .int 1)] }
    let data := [(Value.text "Z", Value.int 2)]
    c.dependencies "first ( x , Y ) + z" data = .ok [.text "y"] ∧
      (c.evaluate "first ( x , Y ) + z" data).outcome = .error (.unboundVariables ["y"]) ∧
      (∀ t p, (c.evaluate "first ( x , $ )" data).outcome = .error (.unreadable t p) ↔
        c.dependencies "first ( x , $ )" data = .error (.unreadable t p)) ∧
      ∃ ts, c.tokenize "first ( x , z )" = .ok ts ∧
        c.bind ts [(.text "Z", .int 2), (.text "X", .int 3), (.text "z", .int 4)] =
          .ok [⟨.function, .text "first"⟩, ⟨.grouping, .text "open"⟩, ⟨.numeric, .int 3⟩, ⟨.comma, .text "comma"⟩,
            ⟨.numeric, .int 4⟩, ⟨.grouping, .text "close"⟩] := by
  intro f table c data
  have hbody : ∀ f ∈ c.table.functions.functions, ∀ vs g, f.body.run vs = .error g → g.isOfText = false := by
    intro f hf vs g h
    rw [List.mem_singleton.mp hf] at h
    cases vs with
    | nil => exact Except.error.inj h ▸ rfl
    | cons v vs => cases h
  have gap : ∀ c ∈ [' '], Text.isBlank c = true := List.forall_mem_singleton.mpr rfl
  have hspelled : Lexeme.Spelled _ "first ( x , Y ) + z".toList :=
    .cons (.word "first".toList (by decide)) (List.cons_ne_nil _ _) gap <|
    .cons (.symbol .grouping ("(", "open") (by decide)) (List.cons_ne_nil _ _) gap <|
    .cons (.word "x".toList (by decide)) (List.cons_ne_nil _ _) gap <|
    .cons (.symbol .comma (",", "comma") (by decide)) (List.cons_ne_nil _ _) gap <|
    .cons (.word "Y".toList (by decide)) (List.cons_ne_nil _ _) gap <|
    .cons (.symbol .grouping (")", "close") (by decide)) (List.cons_ne_nil _ _) gap <|
    .cons (.symbol .operator ("+", "add") (by decide)) (List.cons_ne_nil _ _) gap <|
    .single (.word "z".toList (by decide))
  have hnames : ∀ name ∈ ["first"], Text.isName name.toList = true := by decide
  have hts : c.tokenize "first ( x , Y ) + z" = .ok _ := Lexicon.tokenize_spelled hnames hspelled
  have hdependencies : c.dependencies "first ( x , Y ) + z" data = .ok [.text "y"] := by
    rw [dependencies, hts]
    rfl
  have hkeys : ∀ e ∈ data, ∃ k, c.key e.1 = .ok k := List.forall_mem_singleton.mpr (exists_key_text c "Z")
  have hspelled' : Lexeme.Spelled _ "first ( x , z )".toList :=
    .cons (.word "first".toList (by decide)) (List.cons_ne_nil _ _) gap <|
    .cons (.symbol .grouping ("(", "open") (by decide)) (List.cons_ne_nil _ _) gap <|
    .cons (.word "x".toList (by decide)) (List.cons_ne_nil _ _) gap <|
    .cons (.symbol .comma (",", "comma") (by decide)) (List.cons_ne_nil _ _) gap <|
    .cons (.word "z".toList (by decide)) (List.cons_ne_nil _ _) gap <|
    .single (.symbol .grouping (")", "close") (by decide))
  have hts' : c.tokenize "first ( x , z )" = .ok _ := Lexicon.tokenize_spelled hnames hspelled'
  have hnone : c.dependencies "first ( x , z )" [(.text "Z", .int 2), (.text "X", .int 3), (.text "z", .int 4)] = .ok [] := by
    rw [dependencies, hts']
    rfl
  obtain ⟨ts, hts, -, hbind, -⟩ := (evaluate_dependencies hbody _ _).2.2.2 hnone
  refine ⟨hdependencies, ((evaluate_dependencies hbody _ _).1 ["y"]).mpr ⟨List.cons_ne_nil _ _, hdependencies⟩,
    (evaluate_dependencies hbody _ _).2.2.1 hkeys, ts, hts, hbind.trans ?_⟩
  rw [← Except.ok.inj (hts'.symm.trans hts)]
  rfl

end Calculator
end Reckoner
