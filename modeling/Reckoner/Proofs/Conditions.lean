import Reckoner.Proofs.Choices
import Reckoner.Proofs.Surplus

/-!
# Conditions of choices

Between two numbers, or next to nothing, a choice with a comparison is decided: the comparison is carried out and
then the choice (`Engine.reduce_decided`). But a percent sign in front of the choice is taken for a percentage,
and a minus behind it negates the number behind the minus. The operand that the choice gives is then without an
operator, and no token is reached (`Engine.reduce_ne_of_unary`).
-/

namespace Reckoner

/-! ### Patterns on comparators -/

namespace Pattern
variable {ts : Stream}

/-- A range has two comparators. -/
theorem find?_range {xs ys : List String} (h : ts.countP (·.category == .comparator) ≤ 1) :
    find? [.numeric, .of .comparator xs, .numeric, .of .comparator ys, .numeric] ts = none := by
  refine find?_eq_none_of fun pre span post hts hp _ => ?_
  obtain ⟨l, _, rfl, -, hp⟩ := of_parses hp
  obtain ⟨o, _, rfl, ho, hp⟩ := of_parses hp
  obtain ⟨a, u, r, rfl, -, hu, -⟩ := of_parses_three hp
  simp only [hts, List.countP_append, List.countP_cons, ho, hu] at h
  simp only [beq_self_eq_true, if_true] at h
  omega

/-- The first comparison of numbers, if no comparator stands in front of it. -/
theorem foundAt_comparison {c : Comparator} {v w : Value} {pre post : Stream}
    (hpre : ∀ t ∈ pre, t.category ≠ .comparator) :
    FoundAt numberComparison pre [.number v, c.token, .number w] post := by
  have hparse : Parses numberComparison [.number v, c.token, .number w] := by
    refine (parses_single rfl rfl).mpr ⟨_, _, rfl, Matcher.accepts_category.mpr rfl, ?_⟩
    refine (parses_single rfl rfl).mpr ⟨_, _, rfl, Matcher.accepts_category.mpr rfl, ?_⟩
    exact (parses_single rfl rfl).mpr ⟨_, _, rfl, Matcher.accepts_category.mpr rfl, .nil⟩
  have hdetermined : Determined numberComparison := ⟨Or.inl rfl, Or.inl rfl, Or.inl rfl, trivial⟩
  refine ⟨hparse, fun h => Bool.noConfusion h, prefix?_of_parses hdetermined hparse post, fun a b hab hb => ?_⟩
  cases hprefix : numberComparison.prefix? (b ++ ([.number v, c.token, .number w] ++ post)) with
  | none => rfl
  | some taken =>
    obtain ⟨hp, rest, hts⟩ := parses_of_prefix? hprefix
    obtain ⟨l, o, r, rfl, -, ho, -⟩ := of_parses_three hp
    match b with
    | [t] =>
      simp only [List.cons_append, List.nil_append, List.cons.injEq] at hts
      rw [← hts.2.1] at ho
      cases ho
    | t :: u :: b =>
      simp only [List.cons_append, List.cons.injEq] at hts
      exact absurd ho (hpre o (by simp [hab, hts.2.1]))

end Pattern

/-! ### Rules on a single operand -/

namespace Rule

/-- The standard rules above percentages. -/
def aboveUnary : List Rule := brackets ++ flat.take 7

theorem standard_eq : standard =
    aboveUnary ++ ⟨.percentage, .step .percentage⟩ :: ⟨.negation, .step .negate⟩ :: flat.drop 9 := rfl

/-- The standard rules above comparisons of numbers. -/
def aboveComparison : List Rule :=
  aboveUnary ++ [⟨.percentage, .step .percentage⟩, ⟨.negation, .step .negate⟩, ⟨.ascendingRange, .step .expandRange⟩,
    ⟨.descendingRange, .step .expandRange⟩]

theorem standard_eq_comparison : standard =
    aboveComparison ++ ⟨.numberComparison, .step .apply⟩ :: flat.drop 12 := rfl

/-- If nothing above matches, a percentage or a negation is taken where there is one. -/
theorem firstMatch?_unary {ts : Stream} (habove : ∀ r ∈ aboveUnary, r.pattern.find? ts = none)
    (h : Pattern.percentage.find? ts ≠ none ∨ Pattern.negation.find? ts ≠ none) :
    ∃ r k t u, firstMatch? standard ts = some (r, k, [t, u]) ∧
      ∃ step, r.action = .step step ∧ Redex step [t, u] ∧ Stream.surplus [t, u] = 0 := by
  rw [standard_eq, firstMatch?_append habove, firstMatch?]
  cases hp : Pattern.percentage.find? ts with
  | some found =>
    obtain ⟨k, span⟩ := found
    obtain ⟨_, _, -, -, hfound⟩ := Pattern.foundAt_of_find? hp
    obtain ⟨t, u, rfl, ht, hu⟩ := Pattern.of_parses_two hfound.parses
    exact ⟨_, k, t, u, rfl, _, rfl, .percentage ht hu, by simp [ht, hu, Category.surplus]⟩
  | none =>
    obtain ⟨⟨k, span⟩, hn⟩ := Option.ne_none_iff_exists'.mp (h.resolve_left (absurd hp))
    obtain ⟨_, _, -, -, hfound⟩ := Pattern.foundAt_of_find? hn
    obtain ⟨t, u, rfl, ht, hu⟩ := Pattern.of_parses_two hfound.parses
    refine ⟨⟨.negation, .step .negate⟩, k, t, u, ?_, _, rfl, .negation ht hu, by simp [ht, hu, Category.surplus]⟩
    rw [firstMatch?, hn]

end Rule

namespace Engine
variable {e : Engine} {depth : Int} {s : Stream} {t : Token}

/-- A percentage or a negation gives an operand but takes the operator that would join it to others. So a stream that
    has an operand to spare does not reduce to a token once such a rule is the topmost to match. -/
theorem reduce_ne_of_unary (he : e.IsPlain) (hd : depth ≤ e.limit)
    (habove : ∀ r ∈ Rule.aboveUnary, r.pattern.find? s = none)
    (h : Pattern.percentage.find? s ≠ none ∨ Pattern.negation.find? s ≠ none) (hs : 1 ≤ s.surplus) :
    (e.reduce depth s).outcome ≠ .ok t := by
  obtain ⟨r, k, u, w, hmatch, step, haction, hredex, hzero⟩ := Rule.firstMatch?_unary habove h
  obtain ⟨_, _, -, -, hfind⟩ := Rule.firstMatch?_some hmatch
  obtain ⟨pre, post, rfl, rfl, -⟩ := Pattern.foundAt_of_find? hfind
  have hlen : 2 ≤ (pre ++ ([u, w] ++ post)).length := by
    simp only [List.length_append, List.length_cons]
    omega
  rw [reduce_match he.isStandard he.rounds hd hlen (he.all ▸ hmatch) rfl rfl, haction]
  intro hout
  obtain ⟨new, hfire, hout⟩ := Outcome.bind_eq_ok hout
  -- The span has a surplus of nothing, and what takes its place has a surplus of one.
  have hone := hredex.surplus_result (e.ofAction_of_fire _ _ hfire).1
  refine reduce_ne_of_surplus he ?_ hout
  simp only [Stream.surplus_append, hzero, hone] at hs ⊢
  omega

end Engine

/-! ### A choice between values -/

section Values
variable {c : Comparator} {m n x y : Value} {F B : Side} (hF : F.inner = []) (hB : B.inner = [])
include hF hB

theorem find?_aboveUnary : ∀ r ∈ Rule.aboveUnary, r.pattern.find? (F.before ++ (Stream.choice c m n x y ++ B.behind)) = none := by
  have level : ∀ M : Level, M.rule.pattern.find? (F.before ++ (Stream.choice c m n x y ++ B.behind)) = none :=
    fun M => find?_level_choice (by simp [hF]) (by simp [hB])
  have hsum : Rule.flat.take 7 = Level.above .sum ++ [Level.rule .sum] := rfl
  intro r hr
  rw [Rule.aboveUnary, hsum] at hr
  rcases List.mem_append.mp hr with hr | hr
  · exact find?_brackets_choice F.flat_before B.flat_behind r hr
  rcases List.mem_append.mp hr with hr | hr
  · exact Level.find?_above (head?_front F) (alternating_around F B.alternating_behind) (fun M _ => level M) r hr
  · rw [List.mem_singleton.mp hr]
    exact level .sum

theorem find?_percentage_choice : Pattern.percentage.find? (F.before ++ (Stream.choice c m n x y ++ B.behind)) = none ↔
    F.sign? ≠ some .mod := by
  have numeric : ∀ t : Token, Matcher.numeric.accepts t = true ↔ t.category = .numeric := fun t => Matcher.accepts_category
  have percent : ∀ t : Token, Matcher.percentSign.accepts t = false ↔ t ≠ Sign.mod.token := fun t => by
    rw [← Bool.not_eq_true, Matcher.accepts_percentSign]
  rw [Pattern.percentage, Pattern.find?_pair ⟨rfl, rfl, rfl⟩ ⟨rfl, rfl, rfl⟩]
  simp only [percent, numeric]
  rcases F with _ | ⟨s, v, links⟩ <;> rcases B with _ | ⟨s', w, links'⟩ <;> simp only [Side.inner] at hF hB <;>
    simp [hF, hB, Side.before, Side.behind, Side.sign?, Stream.line, Stream.choice, Stream.wrap, Token.named,
      Token.opening, Token.number, Comparator.token, Token.comma, Token.closing, Sign.token, Sign.name_inj]

theorem find?_negation_choice : Pattern.negation.find? (F.before ++ (Stream.choice c m n x y ++ B.behind)) = none ↔
    B.sign? ≠ some .subtract := by
  have minus : ∀ t : Token, Matcher.minus.accepts t = true ↔ t = Sign.subtract.token := fun t => Matcher.accepts_minus
  have numeric : ∀ t : Token, Matcher.numeric.accepts t = false ↔ t.category ≠ .numeric := fun t => by
    rw [← Bool.not_eq_true, Matcher.numeric, Matcher.accepts_category]
  rw [Pattern.negation, Pattern.find?_pair ⟨rfl, rfl, rfl⟩ ⟨rfl, rfl, rfl⟩]
  simp only [minus, numeric]
  rcases F with _ | ⟨s, v, links⟩ <;> rcases B with _ | ⟨s', w, links'⟩ <;> simp only [Side.inner] at hF hB <;>
    simp [hF, hB, Side.before, Side.behind, Side.sign?, Stream.line, Stream.choice, Stream.wrap, Token.named,
      Token.opening, Token.number, Comparator.token, Token.comma, Token.closing, Sign.token, Sign.name_inj]

omit hF hB in
theorem countP_comparator : (F.before ++ (Stream.choice c m n x y ++ B.behind)).countP (·.category == .comparator) = 1 := by
  have hbefore : F.before.countP (·.category == .comparator) = 0 := List.countP_eq_zero.mpr fun t ht => by
    rcases Side.category_before ht with hc | hc <;> simp [hc]
  have hbehind : B.behind.countP (·.category == .comparator) = 0 := List.countP_eq_zero.mpr fun t ht => by
    rcases Side.category_behind ht with hc | hc <;> simp [hc]
  have hchoice : (Stream.choice c m n x y).countP (·.category == .comparator) = 1 := rfl
  rw [List.countP_append, List.countP_append, hbefore, hbehind, hchoice]

/-- Where no percent sign and no minus are next to the choice, the topmost match is the comparison. -/
theorem firstMatch?_comparison (hmod : F.sign? ≠ some .mod) (hminus : B.sign? ≠ some .subtract) :
    Rule.firstMatch? Rule.standard (F.before ++ (Stream.choice c m n x y ++ B.behind)) =
      some (⟨.numberComparison, .step .apply⟩, (F.before ++ [Token.named "if", Token.opening]).length,
        [.number m, c.token, .number n]) := by
  have habove : ∀ r ∈ Rule.aboveComparison, r.pattern.find? (F.before ++ (Stream.choice c m n x y ++ B.behind)) = none := by
    have hcount := countP_comparator (c := c) (m := m) (n := n) (x := x) (y := y) (F := F) (B := B)
    intro r hr
    rcases List.mem_append.mp hr with hr | hr
    · exact find?_aboveUnary hF hB r hr
    simp only [List.mem_cons, List.not_mem_nil, or_false] at hr
    rcases hr with rfl | rfl | rfl | rfl
    · exact (find?_percentage_choice hF hB).mpr hmod
    · exact (find?_negation_choice hF hB).mpr hminus
    · exact Pattern.find?_range (Nat.le_of_eq hcount)
    · exact Pattern.find?_range (Nat.le_of_eq hcount)
  have hfound : Pattern.FoundAt .numberComparison (F.before ++ [Token.named "if", .opening])
      [.number m, c.token, .number n] ([Token.comma, .number x, .comma, .number y, .closing] ++ B.behind) := by
    refine Pattern.foundAt_comparison fun t ht hc => ?_
    rcases List.mem_append.mp ht with ht | ht
    · rcases Side.category_before ht with hc' | hc' <;> rw [hc'] at hc <;> cases hc
    · simp only [List.mem_cons, List.not_mem_nil, or_false] at ht
      rcases ht with rfl | rfl <;> cases hc
  rw [Rule.standard_eq_comparison]
  rw [Stream.choice_split] at habove ⊢
  exact Rule.firstMatch?_of_foundAt habove (by simp [Pattern.numberComparison]) hfound

omit hF hB in
theorem surplus_choice : (F.before ++ (Stream.choice c m n x y ++ B.behind)).surplus = 1 := by
  have hline : ∀ (v : Value) (links : Links), (Stream.line v links).surplus = 1 := by
    intro v links
    induction links generalizing v with
    | nil => rfl
    | cons l links ih =>
      show Stream.surplus (.number v :: l.1.token :: Stream.line l.2 links) = 1
      rw [Stream.surplus_cons, Stream.surplus_cons, ih]
      rfl
  have hbefore : F.before.surplus = 0 := by
    cases F with
    | nil => rfl
    | line s v links =>
      rw [Side.before, Stream.surplus_append, hline]
      rfl
  have hbehind : B.behind.surplus = 0 := by
    cases B with
    | nil => rfl
    | line s v links =>
      rw [Side.behind, Stream.surplus_cons, hline]
      rfl
  have hchoice : (Stream.choice c m n x y).surplus = 1 := rfl
  rw [Stream.surplus_append, Stream.surplus_append, hbefore, hbehind, hchoice]
  rfl

end Values

namespace Engine
variable {e : Engine} {depth : Int} (he : e.IsPlain) (hd : depth ≤ e.limit) {c : Comparator} {m n x y b : Value}
  {F B : Side} {t : Token}

/-- A choice gives one of its branches, if all integers can be written. -/
theorem fire_choose (nested : Stream → Traced Token) (b x y : Value) :
    e.fire nested (.step .choose) (Stream.chosen b x y) =
      if b.isWritable && x.isWritable && y.isWritable then .ok [.number (if b.isTrue then x else y)]
      else .error .longInteger := by
  have hout : (Replacement.ofAction e.settings nested e.table (.step .choose) (Stream.chosen b x y)).outcome =
      .ok [.number (if b.isTrue then x else y)] := by
    show Except.ok [if b.isTrue = true then Token.number x else Token.number y] = _
    rw [apply_ite Token.number]
  have hspan : (Stream.isWritable (Stream.chosen b x y) && Stream.isWritable [.number (if b.isTrue then x else y)]) =
      (b.isWritable && x.isWritable && y.isWritable) := by
    have hcomma : Token.comma.value.isWritable = true := rfl
    have hspan : Stream.isWritable (Stream.chosen b x y) = (b.isWritable && x.isWritable && y.isWritable) := by
      rw [Stream.chosen, isWritable_call]
      simp [Stream.isWritable, Token.number, hcomma, Bool.and_assoc]
    rw [hspan]
    cases hb : b.isTrue <;> cases hx : x.isWritable <;> cases hy : y.isWritable <;>
      simp [Stream.isWritable, Token.number, hx, hy]
  rw [fire, hout]
  show (if (Stream.isWritable (Stream.chosen b x y) && Stream.isWritable [.number (if b.isTrue then x else y)]) = true
    then _ else _) = _
  rw [hspan]

/-- The comparison of a choice is carried out, if no function is called. -/
theorem reduce_comparison (ht : e.table.IsStandard) (hrounds : e.rounds = none) (hd : depth ≤ e.limit)
    (hcalls : ∀ r ∈ e.table.functionRules, r.pattern.find? (F.before ++ (Stream.choice c m n x y ++ B.behind)) = none)
    (hF : F.inner = []) (hB : B.inner = []) (hmod : F.sign? ≠ some .mod) (hminus : B.sign? ≠ some .subtract) :
    (e.reduce depth (F.before ++ (Stream.choice c m n x y ++ B.behind))).outcome =
      (c.contracted m n).bind fun b => (e.reduce depth (F.before ++ (Stream.chosen b x y ++ B.behind))).outcome := by
  have hmatch := firstMatch?_comparison (c := c) (m := m) (n := n) (x := x) (y := y) hF hB hmod hminus
  rw [← ht.rules, ← Rule.firstMatch?_append hcalls] at hmatch
  have hlen : 2 ≤ (F.before ++ (Stream.choice c m n x y ++ B.behind)).length := by
    simp only [Stream.choice, Stream.wrap, List.length_append, List.length_cons]
    omega
  rw [reduce_match ht hrounds hd hlen hmatch (Stream.choice_split ..) rfl]
  show (e.fire _ (.step .apply) _).bind _ = _
  rw [Comparator.token, fire_apply, c.category_operation, c.contracted_eq]
  cases c.contracted m n with
  | error f => rfl
  | ok b =>
    simp only [Stream.chosen_split]
    rfl

include he hd

/-- A choice by a truth value gives way to one of its branches. -/
theorem reduce_chosen : (e.reduce depth (F.before ++ (Stream.chosen b x y ++ B.behind))).outcome = .ok t ↔
    (b.isWritable && x.isWritable && y.isWritable) = true ∧
      (e.reduce depth (F.before ++ .number (if b.isTrue then x else y) :: B.behind)).outcome = .ok t := by
  have hsite : Site .choose [.named "if"] [⟨.logical, b⟩, .comma, .number x, .comma, .number y] :=
    .choose rfl rfl rfl rfl rfl
  have hbefore : F.before.IsApplied := Stream.isApplied_of_forall fun t ht => by
    rcases Side.category_before ht with hc | hc <;> simp [hc]
  have happlied : Stream.IsApplied (F.before ++ (Stream.chosen b x y ++ B.behind)) := by
    have hbehind : B.behind.IsApplied := Stream.isApplied_of_forall fun t ht => by
      rcases Side.category_behind ht with hc | hc <;> simp [hc]
    have hbody : Stream.IsApplied [⟨.logical, b⟩, .comma, .number x, .comma, .number y] :=
      Stream.isApplied_of_forall (by simp [Token.comma, Token.number])
    exact Stream.isApplied_append hbefore (Stream.isApplied_append (Stream.isApplied_call hbody "if") hbehind)
  have hfire := e.fire_choose (e.reduce (depth + 1)) b x y
  rw [Stream.chosen] at happlied hfire ⊢
  rw [reduce_site_iff he hd hsite (hbefore.leaves _) happlied, hfire]
  constructor
  · rintro ⟨new, hnew, h⟩
    split at hnew
    · rename_i hwritable
      rw [← Except.ok.inj hnew] at h
      exact ⟨hwritable, h⟩
    · cases hnew
  · rintro ⟨hwritable, h⟩
    exact ⟨_, if_pos hwritable, h⟩

/-- A choice between values gives a token only if no percent sign is in front of it and no minus behind it, and then
    the branch that the comparison decides on takes its place. -/
theorem reduce_decided (hF : F.inner = []) (hB : B.inner = []) :
    (e.reduce depth (F.before ++ (Stream.choice c m n x y ++ B.behind))).outcome = .ok t ↔
      F.sign? ≠ some .mod ∧ B.sign? ≠ some .subtract ∧ x.isWritable = true ∧ y.isWritable = true ∧
        ∃ b, c.contracted m n = .ok b ∧
          (e.reduce depth (F.before ++ .number (if b.isTrue then x else y) :: B.behind)).outcome = .ok t := by
  have unary := reduce_ne_of_unary (t := t) he hd (find?_aboveUnary (c := c) (m := m) (n := n) (x := x) (y := y) hF hB)
  have hsurplus := Int.le_of_eq (surplus_choice (c := c) (m := m) (n := n) (x := x) (y := y) (F := F) (B := B)).symm
  have hcalls : ∀ r ∈ e.table.functionRules, r.pattern.find? (F.before ++ (Stream.choice c m n x y ++ B.behind)) = none := by
    simp [he.table]
  have hcomparison := reduce_comparison he.isStandard he.rounds hd hcalls hF hB
  constructor
  · intro h
    have hmod : F.sign? ≠ some .mod := fun hs =>
      unary (Or.inl fun hnone => (find?_percentage_choice hF hB).mp hnone hs) hsurplus h
    have hminus : B.sign? ≠ some .subtract := fun hs =>
      unary (Or.inr fun hnone => (find?_negation_choice hF hB).mp hnone hs) hsurplus h
    rw [hcomparison hmod hminus] at h
    obtain ⟨b, hb, h⟩ := Outcome.bind_eq_ok h
    obtain ⟨hwritable, h⟩ := (reduce_chosen he hd).mp h
    simp only [Bool.and_eq_true] at hwritable
    exact ⟨hmod, hminus, hwritable.1.2, hwritable.2, b, hb, h⟩
  · rintro ⟨hmod, hminus, hx, hy, b, hb, h⟩
    rw [hcomparison hmod hminus, hb]
    exact (reduce_chosen he hd).mpr ⟨by rw [Comparator.isWritable_of_contracted hb, hx, hy]; rfl, h⟩

/-- What a choice by a comparison gives between two lines. It gives a token only if no percent sign is in front of it
    and no minus behind it, and then both lines are reduced to their values before the branch takes its place between
    them. So the choice is an operand like the branch itself where no operator in front is looser than the one next to
    the choice, and all those behind are tighter than the one next to it. -/
theorem reduce_choice_iff (F B : Side) (c : Comparator) (m n x y : Value) (t : Token) :
    ((e.reduce depth (F.before ++ (Stream.choice c m n x y ++ B.behind))).outcome = .ok t ↔
      F.sign? ≠ some .mod ∧ B.sign? ≠ some .subtract ∧ x.isWritable = true ∧ y.isWritable = true ∧
        ∃ b F' B', c.contracted m n = .ok b ∧ F.value = .ok F' ∧ B.value = .ok B' ∧
          (e.reduce depth (F'.before ++ .number (if b.isTrue then x else y) :: B'.behind)).outcome = .ok t) ∧
    (F.BindsBefore → B.BindsBehind →
      ((e.reduce depth (F.before ++ (Stream.choice c m n x y ++ B.behind))).outcome = .ok t ↔
        F.sign? ≠ some .mod ∧ B.sign? ≠ some .subtract ∧ x.isWritable = true ∧ y.isWritable = true ∧
          ∃ b, c.contracted m n = .ok b ∧
            (e.reduce depth (F.before ++ .number (if b.isTrue then x else y) :: B.behind)).outcome = .ok t)) := by
  have hexact : (e.reduce depth (F.before ++ (Stream.choice c m n x y ++ B.behind))).outcome = .ok t ↔
      F.sign? ≠ some .mod ∧ B.sign? ≠ some .subtract ∧ x.isWritable = true ∧ y.isWritable = true ∧
        ∃ b F' B', c.contracted m n = .ok b ∧ F.value = .ok F' ∧ B.value = .ok B' ∧
          (e.reduce depth (F'.before ++ .number (if b.isTrue then x else y) :: B'.behind)).outcome = .ok t := by
    rw [reduce_sides he hd]
    constructor
    · rintro ⟨F', B', hF, hB, h⟩
      obtain ⟨hmod, hminus, hx, hy, b, hb, h⟩ :=
        (reduce_decided he hd (Side.inner_of_value hF) (Side.inner_of_value hB)).mp h
      rw [Side.sign?_of_value hF] at hmod
      rw [Side.sign?_of_value hB] at hminus
      exact ⟨hmod, hminus, hx, hy, b, F', B', hb, hF, hB, h⟩
    · rintro ⟨hmod, hminus, hx, hy, b, F', B', hb, hF, hB, h⟩
      rw [← Side.sign?_of_value hF] at hmod
      rw [← Side.sign?_of_value hB] at hminus
      exact ⟨F', B', hF, hB, (reduce_decided he hd (Side.inner_of_value hF) (Side.inner_of_value hB)).mpr
        ⟨hmod, hminus, hx, hy, b, hb, h⟩⟩
  refine ⟨hexact, fun hbefore hbehind => ?_⟩
  rw [hexact]
  simp only [reduce_operand he hd hbefore hbehind]
  constructor
  · rintro ⟨hmod, hminus, hx, hy, b, F', B', hb, h⟩
    exact ⟨hmod, hminus, hx, hy, b, hb, F', B', h⟩
  · rintro ⟨hmod, hminus, hx, hy, b, hb, F', B', h⟩
    exact ⟨hmod, hminus, hx, hy, b, F', B', hb, h⟩

omit he hd

/-- In front of a product and a sum the branch is multiplied by the sum, and behind a sum and in front of a product it
    is an operand of the product. -/
theorem reduce_choice_product :
    (Engine.reduce {} 0 (Side.nil.before ++ (Stream.choice .lt (.int 1) (.int 2) (.int 10) (.int 20) ++
      (Side.line .multiply (.int 2) [(.add, .int 3)]).behind))).outcome = .ok (.number (.int 50)) ∧
    (Engine.reduce {} 0 ((Side.line .add (.int 5) []).before ++ (Stream.choice .lt (.int 1) (.int 2) (.int 10) (.int 20) ++
      (Side.line .multiply (.int 2) []).behind))).outcome = .ok (.number (.int 25)) := by
  have he : Engine.IsPlain {} := ⟨rfl, rfl⟩
  have hd : (0 : Int) ≤ Engine.limit {} := by decide
  have hshort : Value.isWritable (.int 10) = true ∧ Value.isWritable (.int 20) = true := by decide +kernel
  have hcomparison : Comparator.contracted .lt (.int 1) (.int 2) = .ok (.bool true) :=
    Comparator.contracted_of_truth (Comparator.truth_ints ..) (by decide +kernel) (by decide +kernel)
  have hadd : Sign.contracted .add (.int 2) (.int 3) = .ok (.int 5) :=
    Operation.contracted_of_apply rfl (by decide +kernel) (by decide +kernel) (by decide +kernel)
  have hsum : (Side.line .multiply (.int 2) [(.add, .int 3)]).value = .ok (.line .multiply (.int 5) []) := by
    simp [Side.value, Links.value, Level.all, Level.foldAll, Level.fold, Sign.level, Except.map, Except.bind, hadd]
  constructor
  · refine (reduce_choice_iff he hd _ _ _ _ _ _ _ _).1.mpr ⟨by simp [Side.sign?], by simp [Side.sign?], hshort.1, hshort.2,
      _, _, _, hcomparison, rfl, hsum, ?_⟩
    exact Outcome.eq_ok_int (by decide +kernel)
  · refine ((reduce_choice_iff he hd _ _ _ _ _ _ _ _).2 (by simp [Side.BindsBefore]) (by simp [Side.BindsBehind])).mpr
      ⟨by simp [Side.sign?], by simp [Side.sign?], hshort.1, hshort.2, _, hcomparison, ?_⟩
    exact Outcome.eq_ok_int (by decide +kernel)

/-- The choice is no operand like its branch: in front of a product and a sum both give different numbers. -/
theorem reduce_choice_ne_branch :
    (Engine.reduce {} 0 (Stream.choice .lt (.int 1) (.int 2) (.int 10) (.int 20) ++
      (Side.line .multiply (.int 2) [(.add, .int 3)]).behind)).outcome = .ok (.number (.int 50)) ∧
    (Engine.reduce {} 0 (.number (.int 10) :: (Side.line .multiply (.int 2) [(.add, .int 3)]).behind)).outcome =
      .ok (.number (.int 23)) :=
  ⟨Outcome.eq_ok_int (by decide +kernel), Outcome.eq_ok_int (by decide +kernel)⟩

end Engine

end Reckoner
