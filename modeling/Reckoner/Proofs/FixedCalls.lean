import Reckoner.Proofs.ArgumentLists
import Reckoner.Proofs.Conditions
import Reckoner.Proofs.RegistrationOrder

/-!
# Calls of functions of several numbers

The commas between the arguments keep the brackets of a call from being taken as a group, and the rule of the function
takes single numbers only. So all arguments are reduced to their values before the function is called
(`Engine.reduce_call_numbers`). A choice by a comparison waits for its condition and for both of its branches in the
same way, whichever of them it gives (`Engine.reduce_conditional`). Both together are `Engine.reduce_arguments`.
-/

namespace Reckoner

/-! ### Signatures of numbers -/

theorem Shape.mapM_numbers : ∀ k : Nat, ((List.replicate k (Shape.category .numeric)).intersperse (.category .comma)).mapM
    Shape.matcher? = .ok ((List.replicate k Matcher.numeric).intersperse .comma)
  | 0 => rfl
  | 1 => rfl
  | k + 2 => by
    have ih := mapM_numbers (k + 1)
    simp only [List.replicate_succ, List.intersperse_cons_cons, List.mapM_cons] at ih ⊢
    rw [ih]
    rfl

/-- The pattern of a function of some numbers. -/
def Pattern.numbers (k : Nat) : Pattern := (List.replicate k Matcher.numeric).intersperse .comma

theorem UserFunction.pattern_numbers (name : String) (returns : Category) (body : Body) (k : Nat) :
    (UserFunction.make name returns (List.replicate k (.category .numeric)) body).pattern =
      .ok (.call (Text.lower name) (.numbers k)) := by
  show (Except.bind _ fun arguments => .ok (Pattern.call (Text.lower name) arguments)) = _
  rw [UserFunction.shapes, UserFunction.make, Shape.mapM_numbers]
  rfl

namespace Pattern

theorem determined_numbers (name : String) (k : Nat) : (Pattern.call name (.numbers k)).Determined :=
  Rule.TakesSingles.determined (.intro name fun m hm => by rw [(List.mem_replicate.mp hm).2]; exact ⟨rfl, rfl⟩)

theorem parses_line {ms : Pattern} {v : Value} {links : Links} {rest : Stream} :
    Parses (.numeric :: ms) (Stream.line v links ++ rest) ↔ Parses ms (links.tokens ++ rest) := by
  rw [parses_single rfl rfl]
  constructor
  · rintro ⟨t, _, hts, -, h⟩
    obtain ⟨-, rfl⟩ := List.cons.inj hts
    exact h
  · exact fun h => ⟨_, _, rfl, Matcher.accepts_category.mpr rfl, h⟩

theorem parses_tokens_comma {ms : Pattern} {links : Links} {rest : Stream} :
    Parses (.comma :: ms) (links.tokens ++ Token.comma :: rest) ↔ links = [] ∧ Parses ms rest := by
  rw [parses_comma]
  cases links with
  | nil => simp [Token.comma]
  | cons l links =>
    refine iff_of_false ?_ (by simp)
    rintro ⟨u, _, hts, hu, -⟩
    rw [← (List.cons.inj hts).1] at hu
    cases hu

/-- A function of some numbers takes as many arguments without operators. -/
theorem parses_numbers : ∀ {args : List (Value × Links)},
    Parses (.numbers args.length) (Stream.arguments args) ↔ ∀ a ∈ args, a.2 = []
  | [] => by simp [numbers, Stream.arguments, parses_nil]
  | [(v, links)] => by
    have hline := @parses_line [] v links []
    rw [List.append_nil, List.append_nil, parses_nil] at hline
    rw [Stream.arguments_singleton, List.forall_mem_singleton]
    refine hline.trans ?_
    rcases links with _ | ⟨⟨s, w⟩, links⟩ <;> simp
  | (v, links) :: b :: args => by
    have hnumbers : numbers ((v, links) :: b :: args).length = .numeric :: .comma :: numbers (b :: args).length := rfl
    rw [hnumbers, Stream.arguments_cons_cons, parses_line, parses_tokens_comma, parses_numbers]
    simp only [List.forall_mem_cons]

end Pattern

/-! ### Calls as rows -/

theorem Site.mem_builtinFunctions {step : Step} {name : String} {body : Stream} (h : Site step [.named name] body) :
    name ∈ builtinFunctions := by
  generalize hhead : [Token.named name] = head at h
  cases h <;> simp_all [Token.named, builtinFunctions]

theorem Pattern.find?_brackets_of_call {name : String} {body : Stream} (hbody : body.IsUnbracketed) (hcomma : Token.comma ∈ body)
    (hsite : ∀ step, ¬ Site step [.named name] body) :
    ∀ r ∈ Rule.brackets, r.pattern.find? ([.named name] ++ body.wrap) = none := by
  have hnil : Stream.IsFlat [] := by simp [Stream.IsFlat]
  have := Pattern.find?_brackets_call hnil hbody hnil hcomma hsite
  rwa [List.nil_append, List.append_nil] at this

/-- The commas keep the brackets of a call closed until all arguments are single numbers. -/
theorem Spaced.call {t : RuleTable} {f : UserFunction} {k : Nat} (ht : t.IsStandard)
    (hcalls : t.Calls f (.call f.name (.numbers k))) (hname : f.name ∉ builtinFunctions) (hk : 2 ≤ k) :
    Spaced t ([.named f.name, .opening] :: List.replicate (k - 1) [.comma]) [.closing] where
  between := by
    refine List.forall_mem_cons.mpr ⟨by simp [Token.named, Token.opening], fun lead hlead => ?_⟩
    rw [(List.mem_replicate.mp hlead).2]
    simp [Token.comma]
  behind := by simp [Token.closing]
  calls := by
    intro args hlen hlong r hr
    obtain rfl : args.length = k := by
      rw [hlen, List.length_cons, List.length_replicate]
      omega
    -- The rule of the function fails at an operator, the others at the name, and those on brackets at the comma.
    have hrow : Stream.rows ([.named f.name, .opening] :: List.replicate (args.length - 1) [.comma]) args [.closing] =
        Stream.call f.name args := Stream.rows_arguments (by rintro rfl; simp at hk)
    rw [hrow]
    rcases List.mem_append.mp hr with hr | hr
    · by_cases hown : r = ⟨.call f.name (.numbers args.length), .call f.name⟩
      · subst hown
        refine Pattern.find?_call_wrap (Stream.unbracketed_arguments args) fun hp => ?_
        obtain ⟨a, ha, hne⟩ := hlong
        exact hne (Pattern.parses_numbers.mp hp a ha)
      · exact hcalls.find?_ne ht (fun _ => Stream.name_of_mem_call) r hr hown
    · exact Pattern.find?_brackets_of_call (Stream.unbracketed_arguments args) (Stream.comma_mem_arguments hk)
        (fun step h => hname h.mem_builtinFunctions) r hr

namespace Engine
variable {e : Engine} {depth : Int} (ht : e.table.IsStandard) (hrounds : e.rounds = none) (hd : depth ≤ e.limit)
  {f : UserFunction} {args : List (Value × Links)} {t : Token}
include ht hrounds hd

theorem reduce_call_values {vs : List Value} (hcalls : e.table.Calls f (.call f.name (.numbers vs.length)))
    (hlower : Text.lower f.name = f.name) : (e.reduce depth (Stream.call f.name (vs.map fun v => (v, [])))).outcome = .ok t ↔
      (∀ v ∈ vs, v.isWritable = true) ∧ ∃ w, f.body.run vs = .ok w ∧ w.isWritable = true ∧ t = ⟨f.returns, w⟩ := by
  have hparse : (Pattern.numbers vs.length).Parses (Stream.arguments (vs.map fun v => (v, []))) := by
    have := (@Pattern.parses_numbers (vs.map fun v => (v, []))).mpr (by simp)
    rwa [List.length_map] at this
  have hvalues : (vs.map Token.number).map (·.value) = vs := by
    rw [List.map_map]
    exact List.map_id vs
  have hwritable : Stream.isWritable (vs.map .number) = vs.all (·.isWritable) := List.all_map
  rw [reduce_call_arguments ht hrounds hd hcalls hlower (Pattern.determined_numbers _ _) hparse, Stream.lines_numbers, hvalues,
    hwritable]
  simp only [Outcome.bind_eq_ok_iff, Outcome.ite_eq_ok_iff, Bool.and_eq_true, List.all_eq_true]
  constructor
  · rintro ⟨w, hw, ⟨hvs, hwritable⟩, rfl⟩
    exact ⟨hvs, w, hw, hwritable, rfl⟩
  · rintro ⟨hvs, w, hw, hwritable, rfl⟩
    exact ⟨w, hw, ⟨hvs, hwritable⟩, rfl⟩

/-- A function of two or more numbers is called on the values of its arguments. -/
theorem reduce_call_numbers (hcalls : e.table.Calls f (.call f.name (.numbers args.length)))
    (hname : f.name ∉ builtinFunctions) (hlower : Text.lower f.name = f.name) (hargs : 2 ≤ args.length) :
    (e.reduce depth (Stream.call f.name args)).outcome = .ok t ↔
      ∃ vs, List.Forall₂ (fun a v => (e.reduce depth (Stream.line a.1 a.2)).outcome = .ok (.number v)) args vs ∧
        (∀ v ∈ vs, v.isWritable = true) ∧ ∃ w, f.body.run vs = .ok w ∧ w.isWritable = true ∧ t = ⟨f.returns, w⟩ := by
  have hrow : ∀ args' : List (Value × Links), args'.length = args.length →
      Stream.rows ([.named f.name, .opening] :: List.replicate (args.length - 1) [.comma]) args' [.closing] =
        Stream.call f.name args' := fun args' hlen => by
    rw [← hlen]
    exact Stream.rows_arguments (by rintro rfl; simp at hlen; omega)
  have hlen : ([Token.named f.name, .opening] :: List.replicate (args.length - 1) [Token.comma]).length = args.length := by
    rw [List.length_cons, List.length_replicate]
    omega
  rw [← hrow args rfl, reduce_rows ht hrounds hd (.call ht hcalls hname hargs) hlen]
  simp only [reduce_line_number ht hrounds hd]
  refine exists_congr fun vs => and_congr_right fun hvalues => ?_
  rw [hrow _ (by rw [List.length_map, hvalues.length_eq])]
  rw [hvalues.length_eq] at hcalls
  exact reduce_call_values ht hrounds hd hcalls hlower

end Engine

/-! ### Conditionals -/

namespace Stream

/-- A comparison of two lines. -/
def comparison (c : Comparator) (l r : Value × Links) : Stream := line l.1 l.2 ++ c.token :: line r.1 r.2

/-- A choice between two lines by a comparison of two others. -/
def conditional (c : Comparator) (l r a b : Value × Links) : Stream :=
  [.named "if"] ++ wrap (comparison c l r ++ .comma :: (line a.1 a.2 ++ .comma :: line b.1 b.2))

variable {c : Comparator} {l r a b : Value × Links}

theorem rows_comparison : rows [[], [c.token]] [l, r] [] = comparison c l r := by
  simp [rows, comparison]

theorem rows_conditional :
    rows [[.named "if", .opening], [c.token], [.comma], [.comma]] [l, r, a, b] [.closing] = conditional c l r a b := by
  simp [rows, comparison, conditional, wrap]

theorem category_conditional {t : Token} (ht : t ∈ comparison c l r ++ .comma :: (line a.1 a.2 ++ .comma :: line b.1 b.2)) :
    t.category ≠ .function ∧ t.category ≠ .grouping := by
  have inLine : ∀ d : Value × Links, t ∈ line d.1 d.2 → t.category ≠ .function ∧ t.category ≠ .grouping := fun d hd => by
    rcases category_line hd with hc | hc <;> simp [hc]
  simp only [comparison, List.mem_append, List.mem_cons] at ht
  rcases ht with (ht | rfl | ht) | rfl | ht | rfl | ht
  · exact inLine l ht
  · simp [Comparator.token]
  · exact inLine r ht
  · simp [Token.comma]
  · exact inLine a ht
  · simp [Token.comma]
  · exact inLine b ht

theorem name_of_mem_conditional {name : String} (h : Token.named name ∈ conditional c l r a b) : name = "if" :=
  Reckoner.name_of_mem_call (fun _ ht => (category_conditional ht).1) h

end Stream

theorem Spaced.comparison {t : RuleTable} (ht : t.IsStandard) (c : Comparator) : Spaced t [[], [c.token]] [] :=
  .of_flat ht (by simp [Stream.IsFlat, Comparator.token, Token.isDelimiter]) (by simp [Stream.IsFlat])

section Free
variable {t : RuleTable} (ht : t.IsStandard) (hfree : ∀ r ∈ t.functionRules, r.action ≠ .call "if") {c : Comparator}
include ht hfree

theorem RuleTable.find?_of_free {s : Stream} (hs : ∀ name, Token.named name ∈ s → name = "if") :
    ∀ r ∈ t.functionRules, r.pattern.find? s = none := by
  intro r hr
  obtain ⟨name, arguments, rfl⟩ := ht.calls r hr
  exact Pattern.find?_call (Or.inr fun hmem => hfree _ hr (by rw [hs name hmem]))

/-- The brackets of a choice stay closed until the comparison and both branches are single tokens. -/
theorem Spaced.conditional : Spaced t [[.named "if", .opening], [c.token], [.comma], [.comma]] [.closing] where
  between := by simp [Token.named, Token.opening, Comparator.token, Token.comma]
  behind := by simp [Token.closing]
  calls := by
    intro lines hlen _ r hr
    obtain ⟨l, m, a, b, rfl⟩ := List.length_eq_four.mp hlen
    rw [Stream.rows_conditional]
    rcases List.mem_append.mp hr with hr | hr
    · exact t.find?_of_free ht hfree (fun _ => Stream.name_of_mem_conditional) r hr
    · refine Pattern.find?_brackets_of_call (fun _ h => (Stream.category_conditional h).2) (by simp) (fun step h => ?_) r hr
      -- A rule takes five tokens behind the name, and these are at least seven.
      have := h.length_of_choice rfl
      simp only [Stream.comparison, Stream.line, List.length_append, List.length_cons] at this
      omega

end Free

namespace Engine
variable {e : Engine} {depth : Int} (ht : e.table.IsStandard) (hrounds : e.rounds = none) (hd : depth ≤ e.limit)
  {c : Comparator} {l r a b : Value × Links} {m n x y q : Value} {t : Token}
include ht hrounds hd

theorem reduce_compared : (e.reduce depth [.number m, c.token, .number n]).outcome =
    (c.contracted m n).map fun q => ⟨.logical, q⟩ := by
  have hflat : Stream.IsFlat [.number m, c.token, .number n] := by
    simp [Stream.IsFlat, Token.number, Comparator.token, Token.isDelimiter]
  have hmatch : Rule.firstMatch? Rule.standard [.number m, c.token, .number n] =
      some (⟨.numberComparison, .step .apply⟩, 0, [.number m, c.token, .number n]) := by
    cases c <;> rfl
  rw [← ht.firstMatch?_flat hflat] at hmatch
  rw [@reduce_match e depth _ [] [.number m, c.token, .number n] [] _ _ ht hrounds hd (by simp) hmatch rfl rfl]
  show (e.fire _ (.step .apply) _).bind _ = _
  rw [Comparator.token, fire_apply, c.category_operation, c.contracted_eq]
  cases c.contracted m n with
  | error f => rfl
  | ok q => exact reduce_single ht hrounds hd ⟨.logical, q⟩

theorem reduce_comparison_lines : (e.reduce depth (Stream.comparison c l r)).outcome = .ok t ↔
    ∃ m n q, Links.value Sign.contracted l.1 l.2 = .ok m ∧ Links.value Sign.contracted r.1 r.2 = .ok n ∧
      c.contracted m n = .ok q ∧ t = ⟨.logical, q⟩ := by
  rw [← Stream.rows_comparison, reduce_rows ht hrounds hd (.comparison ht c) rfl]
  have hsingles : ∀ m n, (e.reduce depth (Stream.rows [[], [c.token]] [(m, []), (n, [])] [])).outcome = .ok t ↔
      ∃ q, c.contracted m n = .ok q ∧ t = ⟨.logical, q⟩ := fun m n => by
    show (e.reduce depth [.number m, c.token, .number n]).outcome = .ok t ↔ _
    rw [reduce_compared ht hrounds hd, Outcome.map_eq_ok_iff]
    simp only [eq_comm]
  simp only [List.forall₂_cons_left_iff, List.forall₂_nil_left_iff]
  constructor
  · rintro ⟨_, ⟨m, _, hm, ⟨n, _, hn, rfl, rfl⟩, rfl⟩, h⟩
    obtain ⟨q, hq, rfl⟩ := (hsingles m n).mp h
    exact ⟨m, n, q, hm, hn, hq, rfl⟩
  · rintro ⟨m, n, q, hm, hn, hq, rfl⟩
    exact ⟨_, ⟨m, _, hm, ⟨n, _, hn, rfl, rfl⟩, rfl⟩, (hsingles m n).mpr ⟨q, hq, rfl⟩⟩

section Free
variable (hfree : ∀ r ∈ e.table.functionRules, r.action ≠ .call "if")
include hfree

/-- A choice between numbers by a truth value is carried out, where no function has its name. -/
theorem reduce_chosen_number :
    (e.reduce depth (Stream.chosen q x y)).outcome =
      if q.isWritable && x.isWritable && y.isWritable then .ok (.number (if q.isTrue then x else y))
      else .error .longInteger := by
  have hbody : ∀ t ∈ [⟨.logical, q⟩, .comma, .number x, .comma, .number y], Token.category t ≠ .function := by
    simp [Token.comma, Token.number]
  have hfire := e.fire_choose (e.reduce (depth + 1)) q x y
  have hnames : ∀ name, Token.named name ∈ _ → name = "if" := fun _ => name_of_mem_call hbody
  rw [Stream.chosen] at hfire ⊢
  generalize hs : [Token.named "if"] ++ Stream.wrap [Token.mk .logical q, .comma, .number x, .comma, .number y] = s
    at hfire hnames ⊢
  have hparse : Pattern.choice.Parses s :=
    Pattern.parses_call.mpr ⟨_, hs.symm, by simp [Pattern.parses_nonGroup, Pattern.parses_comma, Pattern.parses_nil,
      Token.isDelimiter, Token.number, Token.comma]⟩
  have hchoice : ⟨.choice, .step .choose⟩ ∈ Rule.brackets := List.mem_cons_self ..
  have hfound : Pattern.FoundAt .choice [] s [] := Pattern.foundAt_nil (Rule.determined_of_mem_brackets hchoice) hparse []
  -- The rule is the topmost one of all standard rules.
  have hmatch : Rule.firstMatch? Rule.standard ([] ++ (s ++ [])) = some (⟨.choice, .step .choose⟩, 0, s) :=
    @Rule.firstMatch?_of_foundAt s ⟨.choice, .step .choose⟩ [] Rule.standard.tail [] [] (by simp)
      (by simp [Pattern.choice, Pattern.call]) hfound
  rw [List.nil_append, List.append_nil, ← ht.firstMatch? (e.table.find?_of_free ht hfree hnames)] at hmatch
  have hlen : 2 ≤ s.length := by simp [← hs, Stream.wrap]
  rw [reduce_match ht hrounds hd hlen hmatch (by rw [List.nil_append, List.append_nil]) rfl]
  show (e.fire _ (.step .choose) s).bind _ = _
  rw [hfire]
  split
  · exact reduce_single ht hrounds hd _
  · rfl

/-- Where no function has its name, a choice waits for its condition and for both branches. -/
theorem reduce_conditional : (e.reduce depth (Stream.conditional c l r a b)).outcome = .ok t ↔
    ∃ q x y, (e.reduce depth (Stream.comparison c l r)).outcome = .ok ⟨.logical, q⟩ ∧
      (e.reduce depth (Stream.line a.1 a.2)).outcome = .ok (.number x) ∧
      (e.reduce depth (Stream.line b.1 b.2)).outcome = .ok (.number y) ∧
      x.isWritable = true ∧ y.isWritable = true ∧ t = .number (if q.isTrue then x else y) := by
  have hsingles : ∀ m n x y, (e.reduce depth (Stream.choice c m n x y)).outcome = .ok t ↔
      ∃ q, c.contracted m n = .ok q ∧ x.isWritable = true ∧ y.isWritable = true ∧
        t = .number (if q.isTrue then x else y) := fun m n x y => by
    have hnames : ∀ name, Token.named name ∈ Stream.choice c m n x y → name = "if" := fun _ =>
      name_of_mem_call (by simp [Token.number, Comparator.token, Token.comma])
    have hcomparison := @reduce_comparison e depth c m n x y .nil .nil ht hrounds hd
      (e.table.find?_of_free ht hfree (by simpa [Side.before, Side.behind] using hnames)) rfl rfl (by simp [Side.sign?])
      (by simp [Side.sign?])
    simp only [Side.before, Side.behind, List.nil_append, List.append_nil] at hcomparison
    rw [hcomparison, Outcome.bind_eq_ok_iff]
    simp only [reduce_chosen_number ht hrounds hd hfree, Outcome.ite_eq_ok_iff, Bool.and_eq_true]
    constructor
    · rintro ⟨q, hq, ⟨⟨-, hx⟩, hy⟩, rfl⟩
      exact ⟨q, hq, hx, hy, rfl⟩
    · rintro ⟨q, hq, hx, hy, rfl⟩
      exact ⟨q, hq, ⟨⟨Comparator.isWritable_of_contracted hq, hx⟩, hy⟩, rfl⟩
  rw [← Stream.rows_conditional, reduce_rows ht hrounds hd (.conditional ht hfree) rfl]
  simp only [List.forall₂_cons_left_iff, List.forall₂_nil_left_iff, reduce_comparison_lines ht hrounds hd,
    reduce_line_number ht hrounds hd]
  constructor
  · rintro ⟨_, ⟨m, _, hm, ⟨n, _, hn, ⟨x, _, hx, ⟨y, _, hy, rfl, rfl⟩, rfl⟩, rfl⟩, rfl⟩, h⟩
    have hrow : Stream.rows [[.named "if", .opening], [c.token], [.comma], [.comma]]
        ([m, n, x, y].map fun v => (v, [])) [.closing] = Stream.choice c m n x y := rfl
    rw [hrow] at h
    obtain ⟨q, hq, hwritable, ht⟩ := (hsingles m n x y).mp h
    exact ⟨q, x, y, ⟨m, n, q, hm, hn, hq, rfl⟩, hx, hy, hwritable, ht⟩
  · rintro ⟨_, x, y, ⟨m, n, q, hm, hn, hq, heq⟩, hx, hy, hwritable, ht⟩
    obtain rfl := congrArg Token.value heq
    exact ⟨_, ⟨m, _, hm, ⟨n, _, hn, ⟨x, _, hx, ⟨y, _, hy, rfl, rfl⟩, rfl⟩, rfl⟩, rfl⟩,
      (hsingles m n x y).mpr ⟨_, hq, hwritable, ht⟩⟩

end Free


omit ht hrounds hd

/-- Arguments are reduced as if each of them stood alone. A function of two or more numbers is called on their values.
    A choice by a comparison takes one of its branches, but it fails if the comparison or any of the branches fails. -/
theorem reduce_arguments {fs : List UserFunction} (hadd : fs.foldlM RuleTable.add {} = .ok e.table)
    (hrounds : e.rounds = none) (hd : depth ≤ e.limit) :
    (∀ before after name returns body args t, fs = before ++
        UserFunction.make name returns (List.replicate (List.length args) (.category .numeric)) body :: after →
      (∀ g ∈ after, g.name ≠ Text.lower name) → Text.lower name ∉ builtinFunctions → 2 ≤ args.length →
      ((e.reduce depth (Stream.call (Text.lower name) args)).outcome = .ok t ↔
        ∃ vs, List.Forall₂ (fun a v => (e.reduce depth (Stream.line a.1 a.2)).outcome = .ok (.number v)) args vs ∧
          (∀ v ∈ vs, v.isWritable = true) ∧ ∃ w, body.run vs = .ok w ∧ w.isWritable = true ∧ t = ⟨returns, w⟩)) ∧
    ((∀ g ∈ fs, g.name ≠ "if") → ∀ c l r a b t, (e.reduce depth (Stream.conditional c l r a b)).outcome = .ok t ↔
      ∃ q x y, (e.reduce depth (Stream.comparison c l r)).outcome = .ok ⟨.logical, q⟩ ∧
        (e.reduce depth (Stream.line a.1 a.2)).outcome = .ok (.number x) ∧
        (e.reduce depth (Stream.line b.1 b.2)).outcome = .ok (.number y) ∧
        x.isWritable = true ∧ y.isWritable = true ∧ t = .number (if q.isTrue then x else y)) := by
  have ht : e.table.IsStandard := RuleTable.isStandard_default.foldlM hadd
  constructor
  · rintro before after name returns body args t rfl hafter hname hargs
    obtain ⟨p, hp, hcalls⟩ := RuleTable.calls_of_foldlM hafter hadd
    rw [UserFunction.pattern_numbers] at hp
    obtain rfl := Except.ok.inj hp
    have hcall := reduce_call_numbers (t := t) ht hrounds hd hcalls hname (Text.lower_lower name) hargs
    exact hcall
  · intro hnames c l r a b t
    refine reduce_conditional ht hrounds hd fun rule hrule hcall => ?_
    rcases RuleTable.mem_functionRules_of_foldlM hadd hrule with ⟨g, hg, p, -, rfl⟩ | hnone
    · exact hnames g hg (Action.call.inj hcall)
    · cases hnone


/-- The difference of a sum and a product, and a choice between a sum and a number, under the same table. -/
theorem reduce_arguments_difference :
    ∃ (f : UserFunction) (table : RuleTable), RuleTable.add {} f = .ok table ∧
      (Engine.reduce { table := table } 0 (Stream.call "sub" [(.int 1, [(.add, .int 2)]), (.int 5, [(.multiply, .int 2)])])).outcome =
        .ok (.number (.int (-7))) ∧
      (Engine.reduce { table := table } 0 (Stream.conditional .lt (.int 1, []) (.int 2, []) (.int 10, [(.add, .int 1)])
        (.int 20, []))).outcome = .ok (.number (.int 11)) := by
  let f := UserFunction.make "sub" .numeric (List.replicate 2 (.category .numeric)) ⟨"sub", Body.difference⟩
  let e : Engine := { table := ⟨⟨[f]⟩, [⟨.call "sub" (.numbers 2), .call "sub"⟩], Rule.standard⟩ }
  let args : List (Value × Links) := [(.int 1, [(.add, .int 2)]), (.int 5, [(.multiply, .int 2)])]
  have hadd : [f].foldlM RuleTable.add {} = .ok e.table := rfl
  have hd : (0 : Int) ≤ e.limit := by decide
  have hlower : Text.lower "sub" = "sub" := by decide +kernel
  have hsum : (e.reduce 0 (Stream.line (.int 1) [(.add, .int 2)])).outcome = .ok (.number (.int 3)) :=
    Outcome.eq_ok_int (by decide +kernel)
  have hproduct : (e.reduce 0 (Stream.line (.int 5) [(.multiply, .int 2)])).outcome = .ok (.number (.int 10)) :=
    Outcome.eq_ok_int (by decide +kernel)
  have hvalues : List.Forall₂ (fun a v => (e.reduce 0 (Stream.line a.1 a.2)).outcome = .ok (.number v)) args
      [.int 3, .int 10] := .cons hsum (.cons hproduct .nil)
  have hlt : Comparator.contracted .lt (.int 1) (.int 2) = .ok (.bool true) :=
    Comparator.contracted_of_truth (Comparator.truth_ints ..) (by decide +kernel) (by decide +kernel)
  have hcomparison : (e.reduce 0 (Stream.comparison .lt (.int 1, []) (.int 2, []))).outcome = .ok ⟨.logical, .bool true⟩ :=
    (reduce_compared (RuleTable.isStandard_default.foldlM hadd) rfl hd).trans (by rw [hlt]; rfl)
  obtain ⟨hcalls, hchoices⟩ := reduce_arguments hadd rfl hd
  have hcall := hcalls [] [] "sub" .numeric ⟨"sub", Body.difference⟩ args (.number (.int (-7))) rfl (by simp)
    (by rw [hlower]; decide +kernel) (by decide)
  have hchoice := hchoices (by simp [f, UserFunction.make, hlower]) .lt (.int 1, []) (.int 2, []) (.int 10, [(.add, .int 1)])
    (.int 20, []) (.number (.int 11))
  rw [hlower] at hcall
  exact ⟨f, e.table, rfl, hcall.mpr ⟨_, hvalues, by decide +kernel, .int (-7), rfl, by decide +kernel, rfl⟩,
    hchoice.mpr ⟨.bool true, .int 11, .int 20, hcomparison, Outcome.eq_ok_int (by decide +kernel),
      Outcome.eq_ok_int (by decide +kernel), by decide +kernel, by decide +kernel, rfl⟩⟩

end Engine
end Reckoner
