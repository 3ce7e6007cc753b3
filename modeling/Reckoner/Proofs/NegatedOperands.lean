import Reckoner.Proofs.LineEnds

/-!
# Operands with a minus of their own

A minus can stand between an operator and its right operand. Behind a power sign and a multiplication sign there is a
rule that takes both signs (`Sign.Absorbs`), at the level of the operator, so that the line reduces to the same token as
with brackets around the minus and the operand (`Engine.reduce_absorbed_iff`). Behind a division sign there is none. The
minus waits for the rule on negations, which stands below all operations, and by then the line in front of the division
sign is a single number. So all of that line is divided, and not only its last product (`Engine.reduce_divided`).
-/

namespace Reckoner

/-! ### Lines with a negated operand -/

namespace Stream

/-- A line with an operator, a minus and a number behind it. -/
def negatedEnd (v : Value) (links : Links) (s : Sign) (b : Value) : Stream :=
  line v links ++ [s.token, Sign.subtract.token, .number b]

/-- A line with an operator behind it, and the minus and the number in brackets. -/
def bracketedEnd (v : Value) (links : Links) (s : Sign) (b : Value) : Stream :=
  line v links ++ (s.token :: wrap [Sign.subtract.token, .number b])

end Stream

section Values
variable {op : Value → Value → Outcome Value} {s : Sign} {z b u w : Value}

/-- An operation on two values as a contraction carries it out. -/
def Value.contractedBy (op : Value → Value → Outcome Value) (z b : Value) : Outcome Value :=
  (op z b).bind fun u => if z.isWritable && b.isWritable && u.isWritable then .ok u else .error .longInteger

theorem Value.contractedBy_eq_ok : contractedBy op z b = .ok u ↔
    op z b = .ok u ∧ z.isWritable = true ∧ b.isWritable = true ∧ u.isWritable = true := by
  simp only [contractedBy, Outcome.bind_eq_ok_iff, Outcome.ite_eq_ok_iff, Bool.and_eq_true, and_assoc]
  constructor
  · rintro ⟨x, hx, hz, hb, hwritable, rfl⟩
    exact ⟨hx, hz, hb, hwritable⟩
  · rintro ⟨hu, hz, hb, hwritable⟩
    exact ⟨u, hu, hz, hb, hwritable, rfl⟩

theorem Sign.contracted_eq_ok : s.contracted z w = .ok u ↔
    s.operation.apply z w = .ok u ∧ z.isWritable = true ∧ w.isWritable = true ∧ u.isWritable = true :=
  Value.contractedBy_eq_ok

/-- A text or a list is repeated minus one times, which leaves nothing of it. -/
theorem Value.repetitions_minus_one (n : Nat) : repetitions n (-1) = .ok 0 := by
  have hpow : (Nat.pow 2 63 : Int) = 9223372036854775808 := rfl
  refine if_neg ?_
  rw [hpow]
  omega

theorem Value.isWritable_neg (n : Int) : (Value.int (-n)).isWritable = (Value.int n).isWritable := by
  have hshort : isShortInt (-n) = isShortInt n :=
    congrArg (fun k => decide (k < Nat.pow 10 Reading.digitLimit)) n.natAbs_neg
  rw [isWritable, isWritable, hshort]

theorem Value.isWritable_negated (h : b.mul (.int (-1)) = .ok w) (hb : b.isWritable = true) : w.isWritable = true := by
  -- Only integers can be too long, and a sign is no digit.
  cases b with
  | null => cases h
  | bool x =>
    rw [← Except.ok.inj h]
    cases x <;> decide +kernel
  | int n =>
    obtain rfl : Value.int (n * -1) = w := Except.ok.inj h
    rw [Int.mul_neg_one]
    exact (isWritable_neg n).trans hb
  | real x =>
    rw [← Except.ok.inj h]
    rfl
  | complex x =>
    have hproduct : ((Number.complex x).toComplex.bind fun y => (Number.int (-1)).toComplex.bind fun z =>
        .ok (.complex (y.mul z))).map ofNumber = .ok w := h
    obtain ⟨n, hn, rfl⟩ := Outcome.map_eq_ok hproduct
    obtain ⟨y, -, hn⟩ := Outcome.bind_eq_ok hn
    obtain ⟨z, -, hn⟩ := Outcome.bind_eq_ok hn
    rw [← Except.ok.inj hn]
    rfl
  | text s =>
    obtain ⟨k, -, rfl⟩ := Outcome.map_eq_ok h
    rfl
  | list items =>
    obtain ⟨k, hk, rfl⟩ := Outcome.map_eq_ok h
    rw [repetitions_minus_one] at hk
    rw [← Except.ok.inj hk]
    rfl

theorem Value.negateContracted_eq_ok : b.negateContracted = .ok w ↔ b.mul (.int (-1)) = .ok w ∧ b.isWritable = true := by
  simp only [negateContracted, Outcome.bind_eq_ok_iff, Outcome.ite_eq_ok_iff, Bool.and_eq_true]
  constructor
  · rintro ⟨x, hx, hwritable, rfl⟩
    exact ⟨hx, hwritable.1⟩
  · rintro ⟨hw, hb⟩
    exact ⟨w, hw, ⟨hb, isWritable_negated hw hb⟩, rfl⟩

/-- An operation that changes the sign of its right operand is the operator on the negated operand, also in what can be
    written. -/
theorem Sign.contracted_negated_iff (h : ∀ u, op z b = .ok u ↔ (b.mul (.int (-1))).bind (s.operation.apply z) = .ok u) :
    Value.contractedBy op z b = .ok u ↔ ∃ w, b.negateContracted = .ok w ∧ s.contracted z w = .ok u := by
  rw [Value.contractedBy_eq_ok, h]
  simp only [Value.negateContracted_eq_ok, contracted_eq_ok]
  constructor
  · rintro ⟨hu, hz, hb, hwritable⟩
    obtain ⟨w, hw, hu⟩ := Outcome.bind_eq_ok hu
    exact ⟨w, ⟨hw, hb⟩, hu, hz, Value.isWritable_negated hw hb, hwritable⟩
  · rintro ⟨w, ⟨hw, hb⟩, hu, hz, -, hwritable⟩
    rw [hw]
    exact ⟨hu, hz, hb, hwritable⟩

theorem Value.mul_negated_int (m n : Int) : (((Value.int m).mul (.int n)).bind fun q => q.mul (.int (-1))) =
    ((Value.int n).mul (.int (-1))).bind fun w => (Value.int m).mul w := by
  show Except.ok (Value.int (m * n * -1)) = Except.ok (Value.int (m * (n * -1)))
  rw [Int.mul_assoc]

/-- The last product of a line, which a factor behind the line is multiplied with. -/
def Links.lastProduct (v : Value) (links : Links) : Outcome Value :=
  (Level.foldAll Sign.contracted Level.product.upTo v links).map fun p => last p.1 p.2

end Values

/-! ### Rules on a line with a negated operand -/

section Rules
variable {t : RuleTable} {L : Level} {s : Sign} {v b : Value} {links : Links}

theorem Stream.not_mem_negatedEnd {u : Token} (h : u.isDelimiter = true) : u ∉ negatedEnd v links s b := by
  intro hu
  rcases List.mem_append.mp hu with hu | hu
  · exact (flat_line v links).not_mem h hu
  · simp only [List.mem_cons, List.not_mem_nil, or_false] at hu
    rcases hu with rfl | rfl | rfl <;> cases h

/-- Only at the end of the line do two operators stand side by side. -/
theorem Pattern.find?_negatedEnd {c d : Category} {xs ys zs ws : List String} (hne : ys ≠ []) (hs : s.operation.name ∉ ys) :
    find? [.of c xs, .of .operator ys, .of .operator zs, .of d ws] (Stream.negatedEnd v links s b) = none := by
  have hfront : Stream.IsAlternating (Stream.line v links ++ [s.token]) := .line (.singleton _) v links
  have hback : Stream.IsAlternating [Sign.subtract.token, .number b] :=
    .cons_cons (fun _ => by simp [Token.number]) (.singleton _)
  have hseam : ∀ u ∈ (Stream.line v links ++ [s.token]).getLast?, (Matcher.of .operator ys).accepts u = false := by
    intro u hu
    rw [List.getLast?_concat] at hu
    obtain rfl := Option.some.inj hu
    refine Bool.eq_false_iff.mpr fun hacc => hs ?_
    obtain ⟨name, hname, htoken⟩ := (Matcher.accepts_names hne).mp hacc
    obtain rfl : s.operation.name = name := by simpa [Sign.token] using htoken
    exact hname
  have := @find?_of_seam c d xs ys zs ws _ _ hfront hback fun u hu w _ hacc => by
    rw [hseam u hu] at hacc
    cases hacc
  rwa [List.append_assoc] at this

theorem Level.find?_negatedEnd (h : ∀ l ∈ links, l.1.level ≠ L) :
    L.rule.pattern.find? (Stream.negatedEnd v links s b) = none := by
  have hend : ∀ u, L.rule.pattern.find? (.number u :: [s.token, Sign.subtract.token, .number b]) = none := by
    refine fun u => Pattern.find?_eq_none_of fun pre span post hts hp _ => ?_
    obtain ⟨l, o, r, rfl, hl, -, hr⟩ := Level.parses_rule.mp hp
    match pre with
    | [] =>
      simp only [List.nil_append, List.cons_append, List.cons.injEq] at hts
      rw [← hts.2.2.1] at hr
      cases hr
    | [x] =>
      simp only [List.nil_append, List.cons_append, List.cons.injEq] at hts
      rw [← hts.2.1] at hl
      cases hl
    | x :: y :: pre =>
      have := congrArg List.length hts
      simp only [List.length_append, List.length_cons, List.length_nil] at this
      omega
  exact @find?_line L [] [s.token, Sign.subtract.token, .number b] v links L.settled_nil hend h

/-- A level of the line is folded although a negated operand stands behind it, if no rule takes both signs before. -/
theorem Level.ready_negatedEnd (ht : t.functionRules = []) (power : L ≠ .power → s ≠ .pow)
    (product : L = .sum → s ≠ .multiply) : L.Ready t [] [s.token, Sign.subtract.token, .number b] where
  calls := by
    intro v links _ r hr
    rw [ht] at hr
    exact Pattern.find?_brackets (Stream.not_mem_negatedEnd rfl) r hr
  above := by
    intro v links hlinks
    have hhead : ∀ u ∈ (Stream.negatedEnd v links s b).head?, u.category ≠ .operator := by
      intro u hu
      rw [← Option.some.inj hu]
      simp [Token.number]
    refine Level.find?_above_of hhead (fun hL => ?_) (fun hL => ?_) fun M hM => Level.find?_negatedEnd fun l hl heq => ?_
    · refine Pattern.find?_negatedEnd (by simp) fun hmem => power hL ?_
      exact Sign.name_inj.mp (List.mem_singleton.mp hmem)
    · refine Pattern.find?_negatedEnd (by simp) fun hmem => product hL ?_
      exact Sign.name_inj.mp (List.mem_singleton.mp hmem)
    · have := hlinks l hl
      rw [heq] at this
      omega
  front := L.settled_nil

end Rules

/-! ### Operators that are taken together with a minus -/

/-- The rule takes the operator together with a minus behind it. From the operands it computes the given value. -/
inductive Sign.Absorbs : Sign → Rule → (Value → Value → Outcome Value) → Prop where
  | power : Absorbs .pow ⟨.powerNegated, .step .powNegate⟩ fun z b => (b.mul (.int (-1))).bind z.pow
  | product : Absorbs .multiply ⟨.productNegated, .step .mulNegate⟩ fun z b => (z.mul b).bind fun p => p.mul (.int (-1))

namespace Sign.Absorbs
variable {s : Sign} {r : Rule} {op : Value → Value → Outcome Value} {e : Engine} {z b : Value} {pre : Stream}

theorem flat_eq (h : s.Absorbs r op) : ∃ below, Rule.flat = (s.level.above ++ [s.level.rule]) ++ r :: below := by
  cases h
  · exact ⟨Rule.flat.drop 3, rfl⟩
  · exact ⟨Rule.flat.drop 6, rfl⟩

theorem result (h : s.Absorbs r op) (nested : Stream → Traced Token) : (Replacement.ofAction e.settings nested e.table r.action
    [.number z, s.token, Sign.subtract.token, .number b]).outcome = (op z b).map fun u => [.number u] := by
  cases h with
  | power =>
    show ((b.mul (.int (-1))).bind fun w => (z.pow w).bind fun u => .ok [Token.number u]) =
      ((b.mul (.int (-1))).bind z.pow).map fun u => [Token.number u]
    cases b.mul (.int (-1)) with
    | error f => rfl
    | ok w =>
      show (z.pow w).bind _ = (z.pow w).map _
      cases z.pow w <;> rfl
  | product =>
    show ((z.mul b).bind fun p => (p.mul (.int (-1))).bind fun u => .ok [Token.number u]) =
      ((z.mul b).bind fun p => p.mul (.int (-1))).map fun u => [Token.number u]
    cases z.mul b with
    | error f => rfl
    | ok p =>
      show (p.mul (.int (-1))).bind _ = (p.mul (.int (-1))).map _
      cases p.mul (.int (-1)) <;> rfl

theorem fire (h : s.Absorbs r op) (nested : Stream → Traced Token) :
    e.fire nested r.action [.number z, s.token, Sign.subtract.token, .number b] =
      (Value.contractedBy op z b).map fun u => [.number u] := by
  have hsign : ∀ s : Sign, s.token.value.isWritable = true := fun _ => rfl
  rw [Engine.fire, h.result, Value.contractedBy]
  cases op z b with
  | error f => rfl
  | ok u =>
    have hspan : (Stream.isWritable [.number z, s.token, Sign.subtract.token, .number b] && Stream.isWritable [.number u]) =
        (z.isWritable && b.isWritable && u.isWritable) := by
      simp [Stream.isWritable, hsign, Token.number]
    show (if (Stream.isWritable [.number z, s.token, Sign.subtract.token, .number b] &&
      Stream.isWritable [.number u]) = true then _ else _) = _
    rw [hspan]
    show _ = Except.map _ (if _ then _ else _)
    split <;> rfl

/-- Where no operators stand side by side in front of the operand, the rule is found there. -/
theorem foundAt (h : s.Absorbs r op) (hpre : Stream.IsAlternating (pre ++ [.number z])) :
    r.pattern.FoundAt pre [.number z, s.token, Sign.subtract.token, .number b] [] := by
  obtain ⟨names, hpattern, hnames⟩ : ∃ names, r.pattern = [.numeric, .of .operator names, .minus, .numeric] ∧
      (Matcher.of .operator names).accepts s.token = true := by
    cases h
    · exact ⟨["pow"], rfl, by decide⟩
    · exact ⟨["multiply"], rfl, by decide⟩
  have hparse : r.pattern.Parses [.number z, s.token, Sign.subtract.token, .number b] := by
    rw [hpattern, Pattern.parses_single rfl rfl]
    refine ⟨_, _, rfl, Matcher.accepts_category.mpr rfl, (Pattern.parses_single rfl rfl).mpr ⟨_, _, rfl, hnames, ?_⟩⟩
    refine (Pattern.parses_single rfl rfl).mpr ⟨_, _, rfl, Matcher.accepts_minus.mpr rfl, ?_⟩
    exact (Pattern.parses_single rfl rfl).mpr ⟨_, _, rfl, Matcher.accepts_category.mpr rfl, .nil⟩
  have hdetermined : r.pattern.Determined := by
    rw [hpattern]
    exact ⟨Or.inl rfl, Or.inl rfl, Or.inl rfl, Or.inl rfl, trivial⟩
  refine ⟨hparse, fun hanchored => ?_, Pattern.prefix?_of_parses hdetermined hparse [], fun a c hac hc => ?_⟩
  · rw [hpattern] at hanchored
    cases hanchored
  cases hprefix : r.pattern.prefix? (c ++ ([.number z, s.token, Sign.subtract.token, .number b] ++ [])) with
  | none => rfl
  | some taken =>
    obtain ⟨hp, rest, hts⟩ := Pattern.parses_of_prefix? hprefix
    rw [hpattern] at hp
    obtain ⟨l, _, rfl, -, hp⟩ := Pattern.of_parses hp
    obtain ⟨o, m, x, rfl, ho, hm, -⟩ := Pattern.of_parses_three hp
    -- The two operators would stand in front of the operand, or one of them would be the operand.
    match c with
    | [_] =>
      simp only [List.cons_append, List.nil_append, List.cons.injEq] at hts
      rw [← hts.2.1] at ho
      cases ho
    | [_, y] =>
      simp only [List.cons_append, List.nil_append, List.cons.injEq] at hts
      rw [← hts.2.2.1] at hm
      cases hm
    | _ :: y :: y' :: c =>
      simp only [List.cons_append, List.cons.injEq] at hts
      obtain ⟨-, rfl, rfl, -⟩ := hts
      have hpair : [y, y'] <:+: pre ++ [.number z] := ⟨a ++ [_], c ++ [.number z], by simp [hac]; rfl⟩
      have hchain : Stream.IsAlternating [y, y'] := hpre.infix hpair
      simp only [Stream.IsAlternating, List.isChain_cons_cons, List.isChain_singleton, and_true] at hchain
      exact absurd hm (hchain ho)

end Sign.Absorbs

/-! ### Reductions -/

namespace Engine
variable {e : Engine} {depth : Int} (he : e.IsPlain) {s : Sign} {r : Rule} {op : Value → Value → Outcome Value}
  {v b u w : Value} {links : Links} {t : Token}
include he

/-- The levels that are ready in front of a negated operand are folded. -/
theorem reduce_levels_negatedEnd (hd : depth ≤ e.limit) {Ls Ms : List Level} (hLs : Ls ++ Ms = Level.all)
    (power : ∀ L ∈ Ls, L ≠ .power → s ≠ .pow) (product : ∀ L ∈ Ls, L = .sum → s ≠ .multiply) :
    (e.reduce depth (Stream.negatedEnd v links s b)).outcome = (Level.foldAll Sign.contracted Ls v links).bind fun p =>
      (e.reduce depth (Stream.negatedEnd p.1 p.2 s b)).outcome := by
  have hrules : e.table.functionRules = [] := by rw [he.table]
  exact @reduce_foldAll e depth [] [s.token, Sign.subtract.token, .number b] v links he.isStandard he.rounds hd Ls Ms
    (hLs ▸ Level.pairwise_all) (fun L hL => Level.ready_negatedEnd hrules (power L hL) (product L hL))
    fun l _ => hLs ▸ l.1.level.mem_all

/-- Where the levels of the line are looser than the operator, it is taken together with the minus behind it. -/
theorem reduce_absorbed (hd : depth ≤ e.limit) (h : s.Absorbs r op) (hlinks : ∀ l ∈ links, s.level.rank < l.1.level.rank) :
    (e.reduce depth (Stream.negatedEnd v links s b)).outcome = (Value.contractedBy op (Links.last v links) b).bind fun u =>
      (e.reduce depth (Stream.line (Links.withLast u v links).1 (Links.withLast u v links).2)).outcome := by
  have hrules : e.table.functionRules = [] := by rw [he.table]
  have hready : s.level.Ready e.table [] [s.token, Sign.subtract.token, .number b] := by
    cases h <;> exact Level.ready_negatedEnd hrules (by simp [Sign.level]) (by simp [Sign.level])
  have hle : ∀ l ∈ links, s.level.rank ≤ l.1.level.rank := fun l hl => Nat.le_of_lt (hlinks l hl)
  have habove : ∀ r' ∈ Rule.brackets ++ (s.level.above ++ [s.level.rule]),
      r'.pattern.find? (Stream.negatedEnd v links s b) = none := by
    intro r' hr'
    rcases List.mem_append.mp hr' with hr' | hr'
    · exact Pattern.find?_brackets (Stream.not_mem_negatedEnd rfl) r' hr'
    rcases List.mem_append.mp hr' with hr' | hr'
    · exact hready.above v links hle r' hr'
    · rw [List.mem_singleton.mp hr']
      exact Level.find?_negatedEnd fun l hl heq => absurd (hlinks l hl) (by rw [heq]; exact Nat.lt_irrefl _)
  -- The last number of the line is an operand of the rule, and what is in front of it stays.
  obtain ⟨front, hline, hwith⟩ := Links.exists_front v links
  have hsplit : Stream.negatedEnd v links s b =
      front ++ ([.number (Links.last v links), s.token, Sign.subtract.token, .number b] ++ []) := by
    rw [Stream.negatedEnd, hline]
    simp
  have halternating : Stream.IsAlternating (front ++ [.number (Links.last v links)]) := by
    have := Stream.IsAlternating.line .nil v links
    rwa [List.append_nil, hline] at this
  obtain ⟨below, hflat⟩ := h.flat_eq
  have hall : e.table.all = (Rule.brackets ++ (s.level.above ++ [s.level.rule])) ++ r :: below := by
    rw [he.all, ← Rule.brackets_append_flat, hflat]
    simp only [List.append_assoc]
  have hpattern : r.pattern ≠ [] := by
    cases h
    · simp [Pattern.powerNegated]
    · simp [Pattern.productNegated]
  rw [hsplit] at habove ⊢
  refine (reduce_foundAt he.isStandard he.rounds hd hall (by simp) habove hpattern (h.foundAt halternating)).trans ?_
  rw [h.fire]
  cases Value.contractedBy op (Links.last v links) b with
  | error f => rfl
  | ok u => exact congrArg (fun ts => (e.reduce depth ts).outcome) (hwith u).symm

theorem reduce_negatedEnd (hd : depth ≤ e.limit) (h : s.Absorbs r op) :
    (e.reduce depth (Stream.negatedEnd v links s b)).outcome = ((Level.foldAll Sign.contracted s.level.upTo v links).bind fun p =>
      (Value.contractedBy op (Links.last p.1 p.2) b).bind fun u =>
        Links.value Sign.contracted (Links.withLast u p.1 p.2).1 (Links.withLast u p.1 p.2).2).map .number := by
  have hlevels : ∀ L ∈ s.level.upTo, (L ≠ .power → s ≠ .pow) ∧ (L = .sum → s ≠ .multiply) := by
    cases h <;> decide
  rw [reduce_levels_negatedEnd he hd s.level.upTo_append_beyond (fun L hL => (hlevels L hL).1) fun L hL => (hlevels L hL).2]
  cases hp : Level.foldAll Sign.contracted s.level.upTo v links with
  | error f => rfl
  | ok p =>
    have hbeyond : ∀ l ∈ p.2, l.1.level ∈ s.level.beyond :=
      Level.level_mem_of_foldAll (fun l _ => s.level.upTo_append_beyond ▸ l.1.level.mem_all) hp
    show (e.reduce depth (Stream.negatedEnd p.1 p.2 s b)).outcome = _
    rw [reduce_absorbed he hd h fun l hl => Level.rank_lt_of_mem_beyond (hbeyond l hl)]
    show _ = ((Value.contractedBy op (Links.last p.1 p.2) b).bind _).map _
    cases Value.contractedBy op (Links.last p.1 p.2) b with
    | error f => rfl
    | ok u => exact reduce_line he.isStandard he.rounds hd _ _

theorem fire_negatedGroup (hd : depth < e.limit) (b : Value) :
    e.fire (e.reduce (depth + 1)) (.step .evaluateGroup) (Stream.wrap [Sign.subtract.token, .number b]) =
      b.negateContracted.map fun w => [.number w] := by
  have hnested : (e.reduce (depth + 1) [Sign.subtract.token, .number b]).outcome = b.negateContracted.map .number := by
    refine (reduce_signed he (by omega) true b []).trans ?_
    rw [Links.contracted]
    show (b.negateContracted.bind .ok).map _ = _
    rw [Outcome.bind_ok]
  cases h : b.negateContracted with
  | error f =>
    rw [h] at hnested
    show ((Replacement.ofStep e.settings (e.reduce (depth + 1)) .evaluateGroup
      (Stream.wrap [Sign.subtract.token, .number b])).outcome).bind _ = _
    rw [ofStep_group, hnested]
    rfl
  | ok w =>
    rw [h] at hnested
    obtain ⟨hmul, hb⟩ := Value.negateContracted_eq_ok.mp h
    refine fire_group hnested ?_ (Value.isWritable_negated hmul hb)
    have hsign : Sign.subtract.token.value.isWritable = true := rfl
    simp [Stream.isWritable, hsign, Token.number, hb]

/-- With brackets around the minus and the operand the line goes on with the negated operand. -/
theorem reduce_bracketedEnd (hd : depth < e.limit) : (e.reduce depth (Stream.bracketedEnd v links s b)).outcome = .ok t ↔
    ∃ w, b.negateContracted = .ok w ∧ ∃ r, Links.value Sign.contracted v (links ++ [(s, w)]) = .ok r ∧ t = .number r := by
  have hsite : Site .evaluateGroup [] [Sign.subtract.token, .number b] :=
    .group (by simp [Stream.IsFlat, Token.isDelimiter, Sign.token, Token.number])
  have hfront : Stream.IsApplied (Stream.line v links ++ [s.token]) := Stream.isApplied_of_forall fun u hu => by
    rcases List.mem_append.mp hu with hu | hu
    · rcases Stream.category_line hu with hc | hc <;> simp [hc]
    · simp [List.mem_singleton.mp hu, Sign.token]
  have hbody : Stream.IsApplied (Stream.wrap [Sign.subtract.token, .number b]) :=
    Stream.isApplied_wrap (Stream.isApplied_of_forall (by simp [Sign.token, Token.number]))
  have hsplit : Stream.bracketedEnd v links s b =
      (Stream.line v links ++ [s.token]) ++ (([] ++ Stream.wrap [Sign.subtract.token, .number b]) ++ []) := by
    simp [Stream.bracketedEnd]
  have happlied := Stream.isApplied_append hfront hbody
  rw [hsplit, reduce_site_iff he (Int.le_of_lt hd) hsite (hfront.leaves _) (by simpa using happlied), List.nil_append,
    fire_negatedGroup he hd]
  have hline : ∀ w, (Stream.line v links ++ [s.token]) ++ ([.number w] ++ []) = Stream.line v (links ++ [(s, w)]) := by
    intro w
    simp [Stream.line, Links.tokens_append]
  constructor
  · rintro ⟨new, hnew, h⟩
    obtain ⟨w, hw, rfl⟩ := Outcome.map_eq_ok hnew
    rw [hline] at h
    exact ⟨w, hw, (reduce_line_iff he (Int.le_of_lt hd)).mp h⟩
  · rintro ⟨w, hw, h⟩
    refine ⟨[.number w], by rw [hw]; rfl, ?_⟩
    rw [hline]
    exact (reduce_line_iff he (Int.le_of_lt hd)).mpr h

/-- The minus can be put into brackets with its operand, if the rule computes what the operator does on the negated
    operand. -/
theorem reduce_absorbed_iff (hd : depth < e.limit) (h : s.Absorbs r op)
    (hop : ∀ p, Level.foldAll Sign.contracted s.level.upTo v links = .ok p →
      ∀ u, op (Links.last p.1 p.2) b = .ok u ↔ (b.mul (.int (-1))).bind (s.operation.apply (Links.last p.1 p.2)) = .ok u)
    (t : Token) :
    (e.reduce depth (Stream.negatedEnd v links s b)).outcome = .ok t ↔
      (e.reduce depth (Stream.bracketedEnd v links s b)).outcome = .ok t := by
  rw [reduce_negatedEnd he (Int.le_of_lt hd) h, reduce_bracketedEnd he hd]
  simp only [Links.value_snoc, Outcome.map_eq_ok_iff, Outcome.bind_eq_ok_iff]
  constructor
  · rintro ⟨x, ⟨p, hp, u, hu, hx⟩, rfl⟩
    obtain ⟨w, hw, hs⟩ := (Sign.contracted_negated_iff (hop p hp)).mp hu
    exact ⟨w, hw, x, ⟨p, hp, u, hs, hx⟩, rfl⟩
  · rintro ⟨w, hw, x, ⟨p, hp, u, hs, hx⟩, rfl⟩
    exact ⟨x, ⟨p, hp, u, (Sign.contracted_negated_iff (hop p hp)).mpr ⟨w, hw, hs⟩, hx⟩, rfl⟩

/-- A minus behind a power sign or a multiplication sign at the end of a line can be put into brackets with its operand:
    the line reduces to the same token. The factors are multiplied before the sign is changed, so that behind a
    multiplication sign it must not matter when the sign of the last product is changed. -/
theorem reduce_negated_iff (hd : depth < e.limit) (v : Value) (links : Links) (b : Value) :
    (∀ t, (e.reduce depth (Stream.negatedEnd v links .pow b)).outcome = .ok t ↔
      (e.reduce depth (Stream.bracketedEnd v links .pow b)).outcome = .ok t) ∧
    ((∀ p, Links.lastProduct v links = .ok p → ∀ u,
        ((p.mul b).bind fun q => q.mul (.int (-1))) = .ok u ↔ ((b.mul (.int (-1))).bind fun w => p.mul w) = .ok u) →
      ∀ t, (e.reduce depth (Stream.negatedEnd v links .multiply b)).outcome = .ok t ↔
        (e.reduce depth (Stream.bracketedEnd v links .multiply b)).outcome = .ok t) := by
  refine ⟨reduce_absorbed_iff he hd .power fun _ _ _ => Iff.rfl, fun hsign => reduce_absorbed_iff he hd .product fun p hp => ?_⟩
  refine hsign (Links.last p.1 p.2) ?_
  have hproduct : Level.foldAll Sign.contracted Level.product.upTo v links = .ok p := hp
  rw [Links.lastProduct, hproduct]
  rfl

omit he in
/-- The power of a negated number and the product with one, both behind a sum. -/
theorem reduce_negated_iff_sum :
    (Engine.reduce {} 0 (Stream.negatedEnd (.int 5) [(.add, .int 2)] .pow (.int (-3)))).outcome = .ok (.number (.int 13)) ∧
    (Engine.reduce {} 0 (Stream.bracketedEnd (.int 5) [(.add, .int 2)] .pow (.int (-3)))).outcome = .ok (.number (.int 13)) ∧
    (Engine.reduce {} 0 (Stream.negatedEnd (.int 3) [(.add, .int 4), (.multiply, .int 5)] .multiply (.int 2))).outcome =
      .ok (.number (.int (-37))) ∧
    (Engine.reduce {} 0 (Stream.bracketedEnd (.int 3) [(.add, .int 4), (.multiply, .int 5)] .multiply (.int 2))).outcome =
      .ok (.number (.int (-37))) := by
  have he : Engine.IsPlain {} := ⟨rfl, rfl⟩
  have hd : (0 : Int) < Engine.limit {} := by decide
  have hpower : (Engine.reduce {} 0 (Stream.negatedEnd (.int 5) [(.add, .int 2)] .pow (.int (-3)))).outcome =
      .ok (.number (.int 13)) := Outcome.eq_ok_int (by decide +kernel)
  have hproduct : (Engine.reduce {} 0 (Stream.negatedEnd (.int 3) [(.add, .int 4), (.multiply, .int 5)] .multiply (.int 2))).outcome =
      .ok (.number (.int (-37))) := Outcome.eq_ok_int (by decide +kernel)
  have hcontracted : Sign.contracted .multiply (.int 4) (.int 5) = .ok (.int 20) :=
    Operation.contracted_of_apply rfl (by decide +kernel) (by decide +kernel) (by decide +kernel)
  have hlast : Links.lastProduct (.int 3) [(.add, .int 4), (.multiply, .int 5)] = .ok (.int 20) := by
    simp [Links.lastProduct, Level.upTo, Level.all, Level.rank, Level.foldAll, Level.fold, Sign.level, Except.bind, Except.map,
      Links.last, hcontracted]
  refine ⟨hpower, ((reduce_negated_iff he hd _ _ _).1 _).mp hpower, hproduct,
    ((reduce_negated_iff he hd _ _ _).2 (fun p hp => ?_) _).mp hproduct⟩
  obtain rfl : Value.int 20 = p := Except.ok.inj (hlast.symm.trans hp)
  exact fun u => by rw [Value.mul_negated_int]

/-- A minus behind a division sign is applied when the line in front of it is a single number. -/
theorem reduce_divisor (hd : depth ≤ e.limit) (u b : Value) : (e.reduce depth (Stream.negatedEnd u [] .divide b)).outcome =
    b.negateContracted.bind fun w => (Sign.divide.contracted u w).map .number := by
  have hmatch : Rule.firstMatch? Rule.standard (Stream.negatedEnd u [] .divide b) =
      some (⟨.negation, .step .negate⟩, 2, [Sign.subtract.token, .number b]) := rfl
  have hsplit : Stream.negatedEnd u [] .divide b =
      [.number u, Sign.divide.token] ++ ([Sign.subtract.token, .number b] ++ []) := rfl
  have hlength : 2 ≤ (Stream.negatedEnd u [] .divide b).length := Nat.le_add_left 2 2
  refine (reduce_match he.isStandard he.rounds hd hlength (he.all ▸ hmatch) hsplit rfl).trans ?_
  rw [fire_negation]
  cases b.negateContracted with
  | error f => rfl
  | ok w => exact (reduce_line he.isStandard he.rounds hd u [(.divide, w)]).trans (congrArg (Except.map Token.number) Links.value_single)

/-- What a division by a number with a minus gives. All of the line in front is divided by the negated number. So the
    minus can be put into brackets with the number if nothing is added or subtracted in the line. -/
theorem reduce_divided (hd : depth < e.limit) (v : Value) (links : Links) (b : Value) :
    (e.reduce depth (Stream.negatedEnd v links .divide b)).outcome = ((Links.value Sign.contracted v links).bind fun u =>
      b.negateContracted.bind fun w => (Sign.divide.contracted u w).map .number) ∧
    ((∀ l ∈ links, l.1.level ≠ .sum) → ∀ t, (e.reduce depth (Stream.negatedEnd v links .divide b)).outcome = .ok t ↔
      (e.reduce depth (Stream.bracketedEnd v links .divide b)).outcome = .ok t) := by
  have hvalue : (e.reduce depth (Stream.negatedEnd v links .divide b)).outcome =
      ((Links.value Sign.contracted v links).bind fun u =>
        b.negateContracted.bind fun w => (Sign.divide.contracted u w).map .number) := by
    rw [@reduce_levels_negatedEnd e depth he .divide v b links (Int.le_of_lt hd) Level.all [] rfl (by simp) (by simp),
      Links.value]
    cases hp : Level.foldAll Sign.contracted Level.all v links with
    | error f => rfl
    | ok p =>
      have hnil : p.2 = [] := Level.links_of_foldAll _ (fun l _ => l.1.level.mem_all) hp
      show (e.reduce depth (Stream.negatedEnd p.1 p.2 .divide b)).outcome = _
      rw [hnil]
      exact reduce_divisor he (Int.le_of_lt hd) p.1 b
  refine ⟨hvalue, fun hlinks t => ?_⟩
  -- With brackets the line is read from left to right, as no operator in it is looser than the division.
  have hrank : ∀ l ∈ links, l.1.level.rank ≤ Sign.divide.level.rank := by
    intro l hl
    have := hlinks l hl
    cases hlevel : l.1.level <;> simp_all [Sign.level, Level.rank]
  rw [hvalue, reduce_bracketedEnd he hd]
  simp only [Links.value_left hrank, Links.value_single, Outcome.bind_eq_ok_iff, Outcome.map_eq_ok_iff]
  constructor
  · rintro ⟨u, hu, w, hw, x, hx, rfl⟩
    exact ⟨w, hw, x, ⟨u, hu, hx⟩, rfl⟩
  · rintro ⟨w, hw, x, ⟨u, hu, hx⟩, rfl⟩
    exact ⟨u, hu, w, hw, x, hx, rfl⟩

omit he in
/-- A sum is divided as a whole. A product is divided as it is with brackets. -/
theorem reduce_divided_sum :
    (Engine.reduce {} 0 (Stream.negatedEnd (.int 2) [(.add, .int 6)] .divide (.int 2))).outcome = .ok (.number (.int (-4))) ∧
    (Engine.reduce {} 0 (Stream.negatedEnd (.int 2) [(.multiply, .int 6)] .divide (.int 3))).outcome = .ok (.number (.int (-4))) ∧
    (Engine.reduce {} 0 (Stream.bracketedEnd (.int 2) [(.multiply, .int 6)] .divide (.int 3))).outcome = .ok (.number (.int (-4))) := by
  have he : Engine.IsPlain {} := ⟨rfl, rfl⟩
  have hd : (0 : Int) < Engine.limit {} := by decide
  have hproduct : (Engine.reduce {} 0 (Stream.negatedEnd (.int 2) [(.multiply, .int 6)] .divide (.int 3))).outcome =
      .ok (.number (.int (-4))) := Outcome.eq_ok_int (by decide +kernel)
  have hsum := (reduce_divided he hd (.int 2) [(.add, .int 6)] (.int 2)).1
  refine ⟨hsum.trans (Outcome.eq_ok_int (by decide +kernel)), hproduct, ?_⟩
  exact ((reduce_divided he hd _ _ _).2 (by simp [Sign.level]) _).mp hproduct

omit he in
/-- Behind a sum the minus and its number cannot be put into brackets. -/
theorem reduce_divided_ne_bracketed :
    (Engine.reduce {} 0 (Stream.negatedEnd (.int 2) [(.add, .int 6)] .divide (.int 2))).outcome = .ok (.number (.int (-4))) ∧
    (Engine.reduce {} 0 (Stream.bracketedEnd (.int 2) [(.add, .int 6)] .divide (.int 2))).outcome = .ok (.number (.int (-1))) :=
  ⟨Outcome.eq_ok_int (by decide +kernel), Outcome.eq_ok_int (by decide +kernel)⟩

end Engine

end Reckoner
