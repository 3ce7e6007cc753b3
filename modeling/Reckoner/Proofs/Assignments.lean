import Mathlib.Algebra.Group.Nat.Defs
import Reckoner.Command.Run
import Reckoner.Proofs.Lexemes
import Reckoner.Proofs.Sessions
import Reckoner.Proofs.Unfolding

/-!
# Assignments on the command line

The assignments `name=value` of a command line are collected under their names, and the table is passed to `store` as
named arguments. So a run evaluates its expression as if what is stored had been given with it, but the parameters of
`store` take the assignments to their own names, and of names that differ in letter case only the one that came first
for the last time counts (`Arguments.run_assignments`).
-/

namespace Reckoner

/-! ### Values of texts -/

namespace Reading

theorem valueOf_lt {digits : List Char} (h : ∀ c ∈ digits, c.isDigit = true) : valueOf digits < 10 ^ digits.length := by
  suffices hfold : ∀ n, digits.foldl (fun n c => 10 * n + (c.toNat - 48)) n < (n + 1) * 10 ^ digits.length by
    simpa [valueOf] using hfold 0
  induction digits with
  | nil => simp
  | cons c digits ih =>
    intro n
    obtain ⟨hc, hdigits⟩ := List.forall_mem_cons.mp h
    have hle : c.toNat - 48 ≤ 9 := by
      simp only [Char.isDigit, Bool.and_eq_true, decide_eq_true_eq] at hc
      have : c.toNat ≤ 57 := hc.2
      omega
    refine (ih hdigits _).trans_le ?_
    rw [List.length_cons, Nat.pow_succ', ← Nat.mul_assoc]
    refine Nat.mul_le_mul_right _ ?_
    show 10 * n + (c.toNat - 48) + 1 ≤ (n + 1) * 10
    omega

/-- What is read as an integer is short enough to be written. -/
theorem isShortInt_of_integer? {s : List Char} {n : Int} (h : integer? s = some n) : Value.isShortInt n = true := by
  unfold integer? at h
  dsimp only at h
  split at h
  · cases h
  · rename_i digits _
    split at h
    · cases h
    · rename_i hdigits
      simp only [Bool.or_eq_true, Bool.not_eq_true', decide_eq_true_eq, not_or, Bool.not_eq_false] at hdigits
      obtain ⟨⟨-, hall⟩, hlength⟩ := hdigits
      have habs : n.natAbs = valueOf digits := by
        rw [← Option.some.inj h]
        split <;> simp
      rw [Value.isShortInt, decide_eq_true_iff, habs]
      generalize digitLimit = limit at hlength
      exact (valueOf_lt (List.all_eq_true.mp hall)).trans_le (Nat.pow_le_pow_right (by omega) (Nat.le_of_not_lt hlength))

end Reading

namespace Value

theorem ofText_cases (s : String) : (∃ b, ofText s = .bool b) ∨ (∃ n, ofText s = .int n ∧ isShortInt n = true) ∨
    (∃ x, ofText s = .real x) ∨ ofText s = .text s := by
  unfold ofText
  dsimp only
  split
  · exact Or.inl ⟨true, rfl⟩
  split
  · exact Or.inl ⟨false, rfl⟩
  split
  · rename_i n hn
    exact Or.inr (Or.inl ⟨n, rfl, Reading.isShortInt_of_integer? hn⟩)
  split
  · exact Or.inr (Or.inr (Or.inl ⟨_, rfl⟩))
  · exact Or.inr (Or.inr (Or.inr rfl))

theorem isWritable_ofText (s : String) : (ofText s).isWritable = true := by
  rcases ofText_cases s with ⟨b, h⟩ | ⟨n, h, hshort⟩ | ⟨x, h⟩ | h
  · rw [h]; rfl
  · rw [h]; exact hshort
  · rw [h]; rfl
  · rw [h]; rfl

/-- A value that is read from a text has a token. -/
theorem exists_token_ofText (s : String) : ∃ c, Token.ofValue (ofText s) = .ok ⟨c, ofText s⟩ := by
  rcases ofText_cases s with ⟨b, h⟩ | ⟨n, h, -⟩ | ⟨x, h⟩ | h
  all_goals
    rw [h]
    exact ⟨_, rfl⟩

end Value

/-! ### Renaming the keys of a table -/

namespace Bindings
variable {g : Value → Value} {name value : Value}

theorem map_put : ∀ {b : Bindings}, (∀ e ∈ b, (g e.1).same (g name) = e.1.same name) →
    (b.put name value).map (fun e => (g e.1, e.2)) = put (b.map fun e => (g e.1, e.2)) (g name) value
  | [], _ => rfl
  | (n, v) :: rest, h => by
    obtain ⟨hn, hrest⟩ := List.forall_mem_cons.mp h
    rw [put, List.map_cons, put, hn]
    split
    · rfl
    · rw [List.map_cons, map_put hrest]

/-- A renaming that keeps different keys apart can be made before the table or in it. -/
theorem map_ofEntries {es : List (Value × Value)} (h : ∀ e ∈ es, ∀ e' ∈ es, (g e.1).same (g e'.1) = e.1.same e'.1) :
    (ofEntries es).map (fun e => (g e.1, e.2)) = ofEntries (es.map fun e => (g e.1, e.2)) := by
  induction es using List.reverseRecOn with
  | nil => rfl
  | append_singleton es e ih =>
    have hsnoc : ∀ (es : List (Value × Value)) (e : Value × Value), ofEntries (es ++ [e]) = (ofEntries es).put e.1 e.2 :=
      fun es e => List.foldl_append
    have hold := ih fun e he e' he' => h e (List.mem_append_left _ he) e' (List.mem_append_left _ he')
    rw [hsnoc, List.map_append, List.map_singleton, hsnoc, ← hold, map_put]
    intro e' he'
    rcases mem_putAll he' with hnil | hes
    · cases hnil
    · obtain ⟨e'', he'', heq⟩ := List.mem_map.mp hes
      rw [← heq]
      exact h e'' (List.mem_append_left _ he'') e (List.mem_append_right _ (List.mem_singleton_self e))

/-- The entries under the names by which they are kept if letter case does not count. -/
def lowered (es : List (Value × Value)) : List (Value × Value) := es.map fun e => (.text (Text.lower e.1.display), e.2)

/-- All names are texts. -/
def IsNamed (b : Bindings) : Prop := ∀ e ∈ b, ∃ s, e.1 = .text s

/-- What holds of all names and all values that are put into a table holds of what the table keeps. -/
theorem forall_put {P Q : Value → Prop} (hname : P name) (hvalue : Q value) :
    ∀ {b : Bindings}, (∀ e ∈ b, P e.1 ∧ Q e.2) → ∀ e ∈ b.put name value, P e.1 ∧ Q e.2
  | [], _ => List.forall_mem_singleton.mpr ⟨hname, hvalue⟩
  | (n, v) :: rest, h => by
    obtain ⟨hfirst, hrest⟩ := List.forall_mem_cons.mp h
    rw [put]
    split
    · exact List.forall_mem_cons.mpr ⟨⟨hfirst.1, hvalue⟩, hrest⟩
    · exact List.forall_mem_cons.mpr ⟨hfirst, forall_put hname hvalue hrest⟩

theorem forall_putAll {P Q : Value → Prop} : ∀ {es : List (Value × Value)} {b : Bindings},
    (∀ e ∈ es, P e.1 ∧ Q e.2) → (∀ e ∈ b, P e.1 ∧ Q e.2) → ∀ e ∈ b.putAll es, P e.1 ∧ Q e.2
  | [], _, _, h => h
  | e :: es, b, hes, h => by
    obtain ⟨he, hes⟩ := List.forall_mem_cons.mp hes
    exact @forall_putAll P Q es (b.put e.1 e.2) hes (forall_put he.1 he.2 h)

end Bindings

/-! ### Storing -/

namespace Calculator
open Bindings
variable {c : Calculator} {es : List (Value × Value)}

theorem bindings_of_writable (h : c.lexicon.caseSensitive = false) (hes : ∀ e ∈ es, e.1.isWritable = true) :
    c.bindings es = .ok (c.memory.putAll (lowered es)) := by
  unfold bindings
  generalize c.memory = b
  induction es generalizing b with
  | nil => rfl
  | cons e es ih =>
    obtain ⟨he, hes⟩ := List.forall_mem_cons.mp hes
    have hkey : c.key e.1 = .ok (.text (Text.lower e.1.display)) := by simp [key, h, he]
    rw [List.foldlM_cons, hkey]
    exact ih hes _

theorem storeAll_snd_of_writable : ∀ {es : List (Value × Value)} {c : Calculator}, c.lexicon.caseSensitive = false →
    (∀ e ∈ es, e.1.isWritable = true ∧ e.2.isWritable = true) → (c.storeAll es).2 = .ok ()
  | [], _, _, _ => rfl
  | (name, value) :: es, c, h, hes => by
    obtain ⟨⟨hname, hvalue⟩, hes⟩ := List.forall_mem_cons.mp hes
    simp only at hname hvalue
    have hkey : c.key name = .ok (.text (Text.lower name.display)) := by simp [key, h, hname]
    have ih : ((c.put (.text (Text.lower name.display)) value).storeAll es).2 = .ok () := storeAll_snd_of_writable h hes
    simp only [storeAll, hkey, hname, hvalue, Bool.and_self, if_true, ih]

/-- A variable that has a value is not unbound. -/
theorem unbound_of_get? {b : Bindings} {c : Category} {name value : Value} (h : b.get? name = some value) :
    unbound b [⟨c, name⟩] = [] := by
  obtain ⟨e, he, -⟩ := Option.map_eq_some_iff.mp h
  have hsame : e.1.same name = true := by simpa using List.find?_some he
  have hhas : b.has name = true := List.any_eq_true.mpr ⟨e, List.mem_of_find?_eq_some he, hsame⟩
  unfold unbound
  cases hc : c == Category.identifier <;> simp [hc, hhas]

/-- What is stored reaches an expression as if it were given with it. -/
theorem evaluate_storeAll (h : c.lexicon.caseSensitive = false)
    (hes : ∀ e ∈ es, e.1.isWritable = true ∧ e.2.isWritable = true) (text : String) :
    (c.storeAll es).1.evaluate text [] = c.evaluate text es := by
  have hlexicon : (c.storeAll es).1.lexicon = c.lexicon := by
    rw [storeAll_fst]
    cases es <;> rfl
  have hmemory : (c.storeAll es).1.memory = c.memory.putAll (lowered es) := by
    rw [storeAll_fst, written_of_writable h hes]
    rfl
  have hbind : ∀ ts, (c.storeAll es).1.bind ts [] = c.bind ts es := fun ts => by
    have hkept : (c.storeAll es).1.bindings [] = .ok (c.storeAll es).1.memory := rfl
    rw [bind, bind, hkept, hmemory, bindings_of_writable h fun e he => (hes e he).1]
  have hengine : (c.storeAll es).1.engine = c.engine := by
    rw [storeAll_fst]
    rfl
  simp only [evaluate, tokenize, hlexicon, hbind, hengine]

end Calculator

/-! ### Tables as named arguments -/

/-- What is stored of a table that is passed as named arguments: the values under `name` and `value` are taken for a
    variable and its value. -/
def Bindings.received (b : Bindings) : Bindings :=
  let others : Bindings := b.filter fun e => e.1.display != "name" && e.1.display != "value"
  match b.get? (.text "name") with
  | none => others
  | some v => others.put v ((b.get? (.text "value")).getD .null)

namespace Arguments
open Bindings Calculator
variable {b : Bindings}

theorem named_storeCall (h : b.IsNamed) : (storeCall b).named.map (fun e => (.text e.1, e.2)) = b := by
  induction b with
  | nil => rfl
  | cons e b ih =>
    obtain ⟨⟨s, hs⟩, hb⟩ := List.forall_mem_cons.mp h
    obtain ⟨n, v⟩ := e
    obtain rfl : n = .text s := hs
    exact congrArg ((.text s, v) :: ·) (ih hb)

theorem named?_storeCall (h : b.IsNamed) (hdistinct : b.Distinct) (t : String) :
    (storeCall b).named? t = b.get? (.text t) := by
  have hsame : ofEntries b = b := putAll_of_distinct (b := []) hdistinct
  rw [StoreCall.named?, ← get?_ofEntries, named_storeCall h, hsame]

theorem entries_storeCall (h : b.IsNamed) (hdistinct : b.Distinct)
    (hname : ∀ v, b.get? (.text "name") = some v → ∃ s, v = .ofText s) :
    (storeCall b).entries = if (b.get? (.text "self")).isSome then .error .argumentCount else .ok b.received := by
  have hpositional : (storeCall b).positional = [] := rfl
  have hacceptable : (storeCall b).isAcceptable = (b.get? (.text "self")).isNone := by
    simp [StoreCall.isAcceptable, hpositional, named?_storeCall h hdistinct]
  have hothers : Bindings.ofEntries (((storeCall b).named.filter fun e => e.1 != "name" && e.1 != "value").map
      fun e => (.text e.1, e.2)) = b.filter fun e => e.1.display != "name" && e.1.display != "value" := by
    have hfilter : ((storeCall b).named.filter fun e => e.1 != "name" && e.1 != "value").map
        (fun e => ((.text e.1, e.2) : Value × Value)) =
        ((storeCall b).named.map fun e => (.text e.1, e.2)).filter fun e => e.1.display != "name" && e.1.display != "value" := by
      rw [List.filter_map]
      rfl
    rw [hfilter, named_storeCall h]
    exact putAll_of_distinct (b := []) (List.Pairwise.filter _ hdistinct)
  rw [StoreCall.entries, hacceptable, hothers]
  simp only [hpositional, List.getElem?_nil, Option.none_or, named?_storeCall h hdistinct]
  cases b.get? (.text "self") with
  | some v => rfl
  | none =>
    unfold received
    generalize (b.filter fun e => e.1.display != "name" && e.1.display != "value") = others
    generalize (b.get? (.text "value")).getD .null = value
    cases hn : b.get? (.text "name") with
    | none => rfl
    | some v =>
      obtain ⟨s, hs⟩ := hname v hn
      rcases Value.ofText_cases s with ⟨b, hv⟩ | ⟨n, hv, -⟩ | ⟨x, hv⟩ | hv
      all_goals
        rw [hs, hv]
        rfl

end Arguments

/-! ### Assignments -/

/-- A variable of the command line and the text of its value. -/
structure Assignment where
  name : String
  text : String

namespace Assignment
open Text

def argument (b : Assignment) : String := b.name ++ "=" ++ b.text

/-- What the text of the value stands for, without the white space around it. -/
def value (b : Assignment) : Value := .ofText (String.ofList (trim b.text.toList))

def entry (b : Assignment) : Value × Value := (.text b.name, b.value)

/-- The name is a word of ASCII that is no keyword. -/
structure IsVariable (b : Assignment) : Prop where
  name : isName b.name.toList = true
  not_keyword : lower b.name ∉ ["and", "or", "true", "false"]

variable {b : Assignment} {bs : List Assignment} {settings : Settings} {limit : Int}

theorem trim_of_forall {cs : List Char} (h : ∀ c ∈ cs, isBlank c = false) : trim cs = cs := by
  have hkept : ∀ s : List Char, (∀ c ∈ s, isBlank c = false) → s.dropWhile isBlank = s := by
    intro s hs
    cases s with
    | nil => rfl
    | cons c s => exact List.dropWhile_cons_of_neg (by simp [hs c])
  rw [trim, hkept cs h, hkept _ fun c hc => h c (List.mem_reverse.mp hc), List.reverse_reverse]

theorem entryOf_argument (h : b.IsVariable) : Bindings.entryOf b.argument = .ok b.entry := by
  have hparts := isNamePart_of_isName h.name
  have hequals : ∀ c ∈ b.name.toList, (c != '=') = true := fun c hc => by
    have hplain : ∀ n < 128, isNamePart (Char.ofNat n) = true → (Char.ofNat n != '=') = true := by decide
    exact forall_isNamePart (p := fun c => isNamePart c = true → (c != '=') = true) hplain (hparts c hc) (hparts c hc)
  have hblank : ∀ c ∈ b.name.toList, isBlank c = false := fun c hc => Bool.eq_false_iff.mpr fun hblank => by
    have := isWord_of_isNamePart (hparts c hc)
    rw [isWord_of_isBlank hblank] at this
    cases this
  have htext : b.argument.toList = b.name.toList ++ '=' :: b.text.toList := by simp [argument]
  rw [Bindings.entryOf, htext, List.dropWhile_append_of_pos hequals, List.takeWhile_append_of_pos hequals]
  simp only [List.dropWhile_cons, List.takeWhile_cons, bne_self_eq_false, Bool.false_eq_true, if_false, List.append_nil,
    trim_of_forall hblank, String.ofList_toList]
  rfl

theorem ofTexts_arguments (h : ∀ b ∈ bs, b.IsVariable) :
    Bindings.ofTexts (bs.map argument) = .ok (Bindings.ofEntries (bs.map entry)) := by
  have hentries : (bs.map argument).mapM Bindings.entryOf = .ok (bs.map entry) := by
    induction bs with
    | nil => rfl
    | cons b bs ih =>
      obtain ⟨hb, hbs⟩ := List.forall_mem_cons.mp h
      rw [List.map_cons, List.mapM_cons, entryOf_argument hb, ih hbs]
      rfl
  rw [Bindings.ofTexts, hentries]
  rfl

/-! #### The value of a variable -/

/-- The value of the last assignment to a name in any letter case. -/
def last? (bs : List Assignment) (name : String) : Option Value :=
  (bs.reverse.find? fun b => lower b.name == lower name).map value

theorem exists_last? (h : b ∈ bs) : ∃ b' : Assignment, last? bs b.name = some b'.value := by
  cases hfind : bs.reverse.find? fun b' => lower b'.name == lower b.name with
  | none => simpa using List.find?_eq_none.mp hfind b (List.mem_reverse.mpr h)
  | some b' => exact ⟨b', congrArg (Option.map value) hfind⟩

theorem get?_lowered (bs : List Assignment) (name : String) :
    (Bindings.ofEntries (Bindings.lowered (bs.map entry))).get? (.text (lower name)) = last? bs name := by
  have hnames : Bindings.lowered (bs.map entry) = (bs.map fun b => (lower b.name, b.value)).map fun e => (.text e.1, e.2) := by
    simp only [Bindings.lowered, List.map_map, Function.comp_def, entry, Value.display]
  rw [hnames, Bindings.get?_ofEntries, ← List.map_reverse, List.find?_map, Option.map_map]
  simp only [Function.comp_def, last?]

/-- The reader of a calculator without functions takes a variable as an identifier. -/
theorem tokenize_name (hb : b.IsVariable) :
    (Lexicon.make [] false).tokenize b.name = .ok [⟨.identifier, .text (lower b.name)⟩] := by
  have hspelled : Lexeme.Spelled [.word b.name.toList hb.name] b.name.toList := .single (.word b.name.toList hb.name)
  have hshown : (Lexicon.make [] false).shown b.name.toList = lower b.name := congrArg lower (String.ofList_toList ..)
  have hkeyword := hb.not_keyword
  simp only [List.mem_cons, not_or] at hkeyword
  rw [Lexicon.tokenize_spelled (by simp) hspelled, Lexeme.tokens, Lexeme.token, Lexicon.wordToken, hshown]
  simp [hkeyword, Lexeme.tokens]

theorem evaluate_name (hcase : settings.caseSensitive = false) (hlimit : 0 ≤ limit) (hb : b.IsVariable) (hmem : b ∈ bs) :
    ∃ v, last? bs b.name = some v ∧ v.isWritable = true ∧
      ((Calculator.make settings {} (some limit) none).evaluate b.name (bs.map entry)).outcome = .ok v := by
  obtain ⟨b', hlast⟩ := exists_last? hmem
  refine ⟨b'.value, hlast, Value.isWritable_ofText _, ?_⟩
  generalize hc : Calculator.make settings {} (some limit) none = c
  have hlexicon : c.lexicon = .make [] false := by
    rw [← hc, ← hcase]
    rfl
  have hbindings : c.bindings (bs.map entry) = .ok (Bindings.ofEntries (Bindings.lowered (bs.map entry))) := by
    have hmemory : c.memory = [] := hc ▸ rfl
    rw [Calculator.bindings_of_writable (by rw [hlexicon]; rfl), hmemory]
    · rfl
    · intro e he
      obtain ⟨b, -, rfl⟩ := List.mem_map.mp he
      rfl
  obtain ⟨category, htoken⟩ := Value.exists_token_ofText (String.ofList (trim b'.text.toList))
  have hget := (get?_lowered bs b.name).trans hlast
  have hbind : c.bind [⟨.identifier, .text (lower b.name)⟩] (bs.map entry) = .ok [⟨category, b'.value⟩] := by
    have hunbound := Calculator.unbound_of_get? (c := .identifier) hget
    rw [Calculator.bind, hbindings]
    simp only [bind, Except.bind, hunbound, List.filter_cons, beq_self_eq_true, if_true, List.filter_nil, List.all_cons,
      List.all_nil, Value.isKey, Bool.and_self, Bool.not_true, Bool.false_eq_true, if_false, Calculator.distinct,
      List.foldl_nil, List.mapM_cons, List.mapM_nil, Calculator.bindToken, hget, Option.getD_some, value, htoken, pure,
      Except.pure]
  have hreduce : (c.engine.reduce 0 [⟨category, b'.value⟩]).outcome = .ok ⟨category, b'.value⟩ := by
    subst hc
    exact Engine.reduce_single RuleTable.isStandard_default rfl hlimit _
  rw [Calculator.evaluate, Calculator.tokenize, hlexicon, tokenize_name hb]
  simp only [Traced.outcome_bind, Traced.outcome_ofOutcome, Except.bind, hbind, Engine.evaluate, hreduce, Traced.outcome_pure]

/-! #### What is received of clear assignments -/

/-- The assignments as the table that is passed on. -/
def table (bs : List Assignment) : Bindings := .ofEntries (bs.map entry)

/-- No variable has the name of a parameter, and each is spelled in one way. -/
structure AreClear (bs : List Assignment) : Prop where
  not_parameter : ∀ b ∈ bs, b.name ∉ ["self", "name", "value"]
  one_spelling : ∀ b ∈ bs, ∀ b' ∈ bs, lower b.name = lower b'.name → b.name = b'.name

/-- All pairs that are understood are assignments, whatever their names are. -/
theorem exists_table {texts : List String} {b : Bindings} (h : Bindings.ofTexts texts = .ok b) : ∃ bs, b = table bs := by
  obtain ⟨es, hes, rfl⟩ := Outcome.map_eq_ok h
  suffices hentries : ∃ bs : List Assignment, es = bs.map entry by
    obtain ⟨bs, rfl⟩ := hentries
    exact ⟨bs, rfl⟩
  clear h
  induction texts generalizing es with
  | nil =>
    cases hes
    exact ⟨[], rfl⟩
  | cons text texts ih =>
    rw [List.mapM_cons] at hes
    obtain ⟨e, he, hes⟩ := Outcome.bind_eq_ok hes
    obtain ⟨es', hes', hes⟩ := Outcome.bind_eq_ok hes
    obtain rfl := Except.ok.inj hes
    obtain ⟨bs, rfl⟩ := ih es' hes'
    unfold Bindings.entryOf at he
    dsimp only at he
    split at he
    · cases he
    · rename_i value _
      refine ⟨⟨String.ofList (trim (text.toList.takeWhile (· != '='))), String.ofList value⟩ :: bs, ?_⟩
      rw [List.map_cons, ← Except.ok.inj he, entry, Assignment.value, String.toList_ofList]

theorem map_entry (bs : List Assignment) :
    bs.map entry = (bs.map fun b => (b.name, b.value)).map fun e => (.text e.1, e.2) := by
  simp only [List.map_map, Function.comp_def]
  rfl

theorem forall_table {P Q : Value → Prop} (h : ∀ b ∈ bs, P (.text b.name) ∧ Q b.value) :
    ∀ e ∈ table bs, P e.1 ∧ Q e.2 := by
  refine Bindings.forall_putAll (fun e he => ?_) (by simp)
  obtain ⟨b, hb, rfl⟩ := List.mem_map.mp he
  simpa only [entry] using h b hb

theorem isNamed_table (bs : List Assignment) : (table bs).IsNamed := fun e he =>
  (forall_table (P := fun n => ∃ s, n = .text s) (Q := fun _ => True) (fun b _ => ⟨⟨b.name, rfl⟩, trivial⟩) e he).1

theorem distinct_table (bs : List Assignment) : (table bs).Distinct := Bindings.Distinct.putAll List.Pairwise.nil

theorem get?_table (bs : List Assignment) (name : String) :
    (table bs).get? (.text name) = (bs.reverse.find? (·.name == name)).map value := by
  rw [table, map_entry, Bindings.get?_ofEntries, ← List.map_reverse, List.find?_map, Option.map_map]
  simp only [Function.comp_def]

theorem isSome_get?_table (bs : List Assignment) (name : String) :
    ((table bs).get? (.text name)).isSome = true ↔ name ∈ bs.map (·.name) := by
  rw [get?_table, Option.isSome_map, List.find?_isSome]
  simp

/-- Everything that is stored can be written to the log. -/
theorem isWritable_received (bs : List Assignment) :
    ∀ e ∈ (table bs).received, e.1.isWritable = true ∧ e.2.isWritable = true := by
  have hget : ∀ name v, (table bs).get? (.text name) = some v → v.isWritable = true := fun name v hv => by
    rw [get?_table] at hv
    obtain ⟨b, -, rfl⟩ := Option.map_eq_some_iff.mp hv
    exact Value.isWritable_ofText _
  have htable : ∀ e ∈ table bs, e.1.isWritable = true ∧ e.2.isWritable = true :=
    forall_table (P := fun v => v.isWritable = true) (Q := fun v => v.isWritable = true)
      fun b _ => ⟨rfl, Value.isWritable_ofText _⟩
  unfold Bindings.received
  split
  · exact fun e he => htable e (List.mem_of_mem_filter he)
  · rename_i v hv
    refine Bindings.forall_put (P := fun v => v.isWritable = true) (Q := fun v => v.isWritable = true) (hget _ v hv) ?_
      fun e he => htable e (List.mem_of_mem_filter he)
    cases hvalue : (table bs).get? (.text "value") with
    | none => rfl
    | some w => exact hget _ w hvalue

theorem AreClear.received (h : AreClear bs) : (table bs).received = table bs := by
  have habsent : (table bs).get? (.text "name") = none := Option.not_isSome_iff_eq_none.mp fun hsome => by
    obtain ⟨b, hb, hname⟩ := List.mem_map.mp ((isSome_get?_table bs "name").mp hsome)
    exact h.not_parameter b hb (by simp [hname])
  unfold Bindings.received
  rw [habsent]
  refine List.filter_eq_self.mpr fun e he => ?_
  obtain ⟨⟨b, hb, hname⟩, -⟩ :=
    forall_table (P := fun n => ∃ b ∈ bs, n = .text b.name) (Q := fun _ => True) (fun b hb => ⟨⟨b, hb, rfl⟩, trivial⟩) e he
  have hparameter := h.not_parameter b hb
  simp only [List.mem_cons, not_or] at hparameter
  simp [hname, Value.display, hparameter]

/-- If each name is spelled in one way, it does not matter whether the letters are lowered in the table or before. -/
theorem AreClear.lowered (h : AreClear bs) :
    Bindings.ofEntries (Bindings.lowered (table bs)) = Bindings.ofEntries (Bindings.lowered (bs.map entry)) := by
  have hmap : Bindings.lowered (table bs) = Bindings.ofEntries (Bindings.lowered (bs.map entry)) := by
    refine Bindings.map_ofEntries (g := fun v => .text (lower v.display)) fun e he e' he' => ?_
    obtain ⟨b, hb, rfl⟩ := List.mem_map.mp he
    obtain ⟨b', hb', rfl⟩ := List.mem_map.mp he'
    simp only [entry, Value.display, Value.same]
    rw [Bool.eq_iff_iff, beq_iff_eq, beq_iff_eq]
    exact ⟨h.one_spelling b hb b' hb', congrArg lower⟩
  rw [hmap, Bindings.ofEntries_ofEntries]

/-- What is received of clear assignments gives the same values as the assignments. -/
theorem evaluate_clear (hcase : settings.caseSensitive = false) (h : AreClear bs) (text : String) :
    (Calculator.make settings {} (some limit) none).evaluate text (table bs).received =
      (Calculator.make settings {} (some limit) none).evaluate text (bs.map entry) := by
  generalize hc : Calculator.make settings {} (some limit) none = c
  have hlexicon : c.lexicon.caseSensitive = false := by
    rw [← hc]
    exact hcase
  have hmemory : c.memory = [] := hc ▸ rfl
  have hnames : ∀ e ∈ bs.map entry, e.1.isWritable = true := List.forall_mem_map.mpr fun b _ => rfl
  have hbindings : c.bindings (table bs).received = c.bindings (bs.map entry) := by
    rw [Calculator.bindings_of_writable hlexicon fun e he => (isWritable_received bs e he).1,
      Calculator.bindings_of_writable hlexicon hnames, hmemory, h.received]
    exact congrArg Except.ok h.lowered
  simp only [Calculator.evaluate, Calculator.bind, hbindings]

end Assignment

/-! ### Runs -/

namespace Arguments
open Assignment

variable {settings : Settings} {a : Arguments} {bs : List Assignment}

/-- How a run ends with the value of its expression. -/
def conclude (expression : String) : Outcome Value → Logged Completion
  | .ok v => if v.isWritable then pure { exit := 0, output := v.display ++ "\n" } else .fail .longInteger
  | .error f =>
    if f.isExpression || f.isArithmetic then do
      Logged.error ("Failed to evaluate '" ++ expression ++ "': ") f
      pure { exit := 1 }
    else .fail f

section Store
variable {b : Bindings} {c : Calculator} {contents : Option String} (hgiven : Bindings.ofTexts a.bindings = .ok b)
include hgiven

theorem work_of_store (hdata : a.dataPath = "")
    (h : (Calculator.make settings {} (some a.limit) none).store (storeCall b) = (c, .ok ())) :
    a.work settings contents = conclude a.expression (c.evaluate a.expression []).outcome := by
  unfold work
  rw [hgiven]
  simp only [h, hdata]
  rfl

theorem work_of_store_error {f : Failure}
    (h : (Calculator.make settings {} (some a.limit) none).store (storeCall b) = (c, .error f)) :
    a.work settings contents = .fail f := by
  unfold work
  rw [hgiven]
  simp only [h]

end Store

theorem work_table (hcase : settings.caseSensitive = false) (hdata : a.dataPath = "")
    (hgiven : Bindings.ofTexts a.bindings = .ok (table bs)) (contents : Option String) :
    a.work settings contents = if "self" ∈ bs.map (·.name) then .fail .argumentCount
      else conclude a.expression ((Calculator.make settings {} (some a.limit) none).evaluate a.expression (table bs).received).outcome := by
  generalize hc : Calculator.make settings {} (some a.limit) none = c
  have hcase : c.lexicon.caseSensitive = false := by
    rw [← hc]
    exact hcase
  have hname : ∀ v, (table bs).get? (.text "name") = some v → ∃ s, v = .ofText s := fun v hv => by
    rw [get?_table] at hv
    obtain ⟨b, -, rfl⟩ := Option.map_eq_some_iff.mp hv
    exact ⟨_, rfl⟩
  have hentries := entries_storeCall (isNamed_table bs) (distinct_table bs) hname
  have hself := isSome_get?_table bs "self"
  by_cases h : "self" ∈ bs.map (·.name)
  · have hstore : c.store (storeCall (table bs)) = (c, .error .argumentCount) := by
      rw [Calculator.store, hentries, if_pos (hself.mpr h)]
    rw [if_pos h, work_of_store_error hgiven (hc ▸ hstore)]
  · have hwritable := isWritable_received bs
    have hstore : c.store (storeCall (table bs)) = ((c.storeAll (table bs).received).1, .ok ()) := by
      rw [Calculator.store, hentries, if_neg fun hsome => h (hself.mp hsome), ← Calculator.storeAll_snd_of_writable hcase hwritable]
    rw [if_neg h, work_of_store hgiven hdata (hc ▸ hstore), hc, Calculator.evaluate_storeAll hcase hwritable]

theorem work_assignments (hcase : settings.caseSensitive = false) (hdata : a.dataPath = "")
    (hbindings : a.bindings = bs.map argument) (hnames : ∀ b ∈ bs, b.IsVariable) (contents : Option String) :
    a.work settings contents = if "self" ∈ bs.map (·.name) then .fail .argumentCount
      else conclude a.expression ((Calculator.make settings {} (some a.limit) none).evaluate a.expression (table bs).received).outcome :=
  work_table hcase hdata (hbindings ▸ ofTexts_arguments hnames) contents

/-- The name of a severity chooses it for the log. -/
theorem threshold_of_ofName? {level : Severity} (h : Severity.ofName? (Text.upper a.logLevel) = some level) :
    a.threshold = .ok level := by
  unfold threshold
  split
  · rename_i hname
    rw [hname] at h
    cases h
  · rename_i hname
    rw [hname] at h
    cases h
  · rw [h]
    rfl

theorem run_of_threshold_error {f : Failure} {contents : Option String} (h : a.threshold = .error f) :
    a.run settings contents = .fail f := by
  rw [run, h]

theorem run_of_threshold {level : Severity} {contents : Option String} (h : a.threshold = .ok level) :
    a.run settings contents = (a.work settings contents).above level := by
  rw [run, h]

/-- A run evaluates its expression with what `store` receives of its assignments, and not with the assignments: one to
    `self` ends the run, `name` and `value` are taken for a variable and its value, and a name keeps the place where it
    was first spelled like this. If no assignment is to a parameter and each name is spelled in one way, the expression is
    evaluated with the assignments, the last one to a name counts, and a variable by itself is printed. All this needs a
    threshold for the log; without one the run fails before it looks at the assignments. -/
theorem run_assignments (hcase : settings.caseSensitive = false) (hdata : a.dataPath = "")
    (hbindings : a.bindings = bs.map argument) (hnames : ∀ b ∈ bs, b.IsVariable) (contents : Option String) :
    let fresh := Calculator.make settings {} (some a.limit) none
    let concluded := fun level data => (conclude a.expression (fresh.evaluate a.expression data).outcome).above level
    (∀ f, a.threshold = .error f → a.run settings contents = .fail f) ∧
    ∀ level, a.threshold = .ok level →
      ("self" ∈ bs.map (·.name) → a.run settings contents = .fail .argumentCount) ∧
      ("self" ∉ bs.map (·.name) → a.run settings contents = concluded level (table bs).received) ∧
      (AreClear bs → a.run settings contents = concluded level (bs.map entry) ∧
        ∀ b ∈ bs, a.expression = b.name → 0 ≤ a.limit → ∃ v, last? bs b.name = some v ∧
          a.run settings contents = pure { exit := 0, output := v.display ++ "\n" }) := by
  intro fresh concluded
  refine ⟨fun f hf => run_of_threshold_error hf, fun level hlevel => ?_⟩
  have hwork := work_assignments hcase hdata hbindings hnames contents
  have hself : "self" ∉ bs.map (·.name) → a.run settings contents = concluded level (table bs).received := fun h => by
    rw [run_of_threshold hlevel, hwork, if_neg h]
  refine ⟨fun h => ?_, hself, fun h => ?_⟩
  · rw [run_of_threshold hlevel, hwork, if_pos h]
    rfl
  · have hclear : a.run settings contents = concluded level (bs.map entry) := by
      have hnot : "self" ∉ bs.map (·.name) := fun hmem => by
        obtain ⟨b, hb, hname⟩ := List.mem_map.mp hmem
        exact h.not_parameter b hb (by simp [hname])
      have hsame := @evaluate_clear bs settings a.limit hcase h a.expression
      rw [hself hnot]
      simp only [concluded, fresh, hsame]
    refine ⟨hclear, fun b hb hexpression hlimit => ?_⟩
    obtain ⟨v, hlast, hwritable, hvalue⟩ := evaluate_name hcase hlimit (hnames b hb) hb
    refine ⟨v, hlast, ?_⟩
    rw [hclear]
    simp only [concluded, fresh, hexpression, hvalue, conclude, hwritable, if_true]
    rfl

/-- Of the assignments `x=2`, `rate=yes` and `x=3` the last one to `x` is printed. -/
theorem run_assignments_last :
    run {} { expression := "x", bindings := ["x=2", "rate=yes", "x=3"], resultColumn := "result", limit := 64, logLevel := "warn" }
      none = pure { exit := 0, output := "3\n" } := by
  let bs : List Assignment := [⟨"x", "2"⟩, ⟨"rate", "yes"⟩, ⟨"x", "3"⟩]
  let a : Arguments := { expression := "x", bindings := bs.map argument, resultColumn := "result", limit := 64, logLevel := "warn" }
  have hnames : ∀ b ∈ bs, b.IsVariable := by
    simp only [bs, List.forall_mem_cons]
    exact ⟨⟨by decide, by decide +kernel⟩, ⟨by decide, by decide +kernel⟩, ⟨by decide, by decide +kernel⟩, by simp⟩
  have hclear : AreClear bs := ⟨by decide, by decide +kernel⟩
  have hlevel : a.threshold = .ok .warning := threshold_of_ofName? (by decide +kernel)
  obtain ⟨-, -, h⟩ := (@run_assignments {} a bs rfl rfl rfl hnames none).2 .warning hlevel
  obtain ⟨v, hv, hrun⟩ := (h hclear).2 ⟨"x", "2"⟩ (by simp [bs]) rfl (by decide)
  have hlast : (last? bs "x").map Value.display = some "3" := by decide +kernel
  have hdisplay : v.display = "3" := by
    rw [hv] at hlast
    exact Option.some.inj hlast
  rw [hdisplay] at hrun
  exact hrun

/-- The variable `name` is lost, and with `x=1`, `X=2` and `x=3` the value of `X` is kept, which is not the last one. -/
theorem run_assignments_ne_last :
    let a : Arguments := { expression := "name", bindings := ["name=5"], resultColumn := "result", limit := 64, logLevel := "INFO" }
    let a' : Arguments := { a with expression := "x", bindings := ["x=1", "X=2", "x=3"] }
    ((last? [⟨"name", "5"⟩] "name").map Value.display = some "5" ∧
        (a.run {} none).outcome.toOption.map (fun r => (r.exit, r.output)) = some (1, "")) ∧
      ((last? [⟨"x", "1"⟩, ⟨"X", "2"⟩, ⟨"x", "3"⟩] "x").map Value.display = some "3" ∧
        (a'.run {} none).outcome.toOption.map (fun r => (r.exit, r.output)) = some (0, "2\n")) := by
  decide +kernel

end Arguments
end Reckoner
