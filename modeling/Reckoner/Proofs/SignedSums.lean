import Mathlib
import Reckoner.Proofs.Chains

/-!
# Sums of signed integers

A minus in front of a sum is applied to the first number, but a minus behind an operator waits: the rule on sums stands
above the one on negations. So the numbers behind such a minus that have none of their own are first added to its number,
and the minus is applied to their sum. Behind a minus this changes nothing, for both signs are changed back; behind a plus
these numbers are counted with the wrong sign (`Summand.captured`). A sum is reduced to its value less twice what is
captured in this way (`Engine.reduce_signedSum`).
-/

namespace Reckoner

/-! ### Summands -/

/-- An integer that is added or subtracted, with a minus of its own or without. -/
structure Summand where
  subtracted : Bool
  negated : Bool
  number : Int

namespace Summand

def sign (t : Summand) : Sign := if t.subtracted then .subtract else .add

def tokens (t : Summand) : Stream :=
  t.sign.token :: ((if t.negated then [Sign.subtract.token] else []) ++ [.number (.int t.number)])

/-- What a summand contributes to the sum if its own minus is applied to it alone. -/
def value (t : Summand) : Int :=
  let operand := if t.negated then -t.number else t.number
  if t.subtracted then -operand else operand

def negate (t : Summand) : Summand := { t with negated := false, number := -t.number }

theorem value_negate {t : Summand} (h : t.negated = true) : t.negate.value = t.value := by
  simp [value, negate, h]

theorem level_sign (t : Summand) : t.sign.level = .sum := by
  unfold sign
  split <;> rfl

/-- The exact value of a first integer, with or without a minus in front, and summands. -/
def total (negated : Bool) (n : Int) (ts : List Summand) : Int :=
  (if negated then -n else n) + (ts.map value).sum

/-- The part of a sum that is caught by a minus that is not its own: the summands without a minus, where the last
    one in front of them that has a minus is added. The flag tells whether there is such a one. -/
def captured : Bool → List Summand → Int
  | _, [] => 0
  | caught, t :: ts =>
    if t.negated then captured (!t.subtracted) ts else (if caught then t.value else 0) + captured caught ts

end Summand

namespace Stream

def summands (n : Int) (ts : List Summand) : Stream := .number (.int n) :: ts.flatMap Summand.tokens

def signedSum (negated : Bool) (n : Int) (ts : List Summand) : Stream :=
  if negated then Sign.subtract.token :: summands n ts else summands n ts

theorem summands_plain {t : Summand} (h : t.negated = false) (n : Int) (ts : List Summand) :
    summands n (t :: ts) = [.number (.int n), t.sign.token, .number (.int t.number)] ++ ts.flatMap Summand.tokens := by
  simp [summands, Summand.tokens, h]

theorem summands_negated {t : Summand} (h : t.negated = true) (n : Int) (ts : List Summand) :
    summands n (t :: ts) = [.number (.int n), t.sign.token, Sign.subtract.token] ++ summands t.number ts := by
  simp [summands, Summand.tokens, h]

end Stream

/-! ### The order of the contractions -/

namespace Summand

/-- A sum after the summands without a minus have been added, each to what stands in front of it: the first integer
    or the number behind a minus. -/
def collapse : Int → List Summand → Int × List Summand
  | n, [] => (n, [])
  | n, t :: ts =>
    if t.negated then
      let (k, rest) := collapse t.number ts
      (n, { t with number := k } :: rest)
    else collapse (n + t.value) ts

/-- The integers that occur while a sum collapses. -/
def gathered : Int → List Summand → List Int
  | _, [] => []
  | n, t :: ts =>
    if t.negated then gathered t.number ts
    else [n, t.number, n + t.value] ++ gathered (n + t.value) ts

/-- The integers that occur while summands with a minus are negated and added, from the first one on. -/
def computed : Int → List Summand → List Int
  | _, [] => []
  | n, t :: ts => [t.number, -t.number] ++ ([n, -t.number, n + t.value] ++ computed (n + t.value) ts)

/-- All integers that occur in the reduction of a sum of two or more operands. -/
def passed (negated : Bool) (n : Int) (ts : List Summand) : List Int :=
  let start := if negated then -n else n
  let (k, rest) := collapse start ts
  (if negated then [n, -n] else []) ++ (gathered start ts ++ computed k rest)

theorem negated_of_mem_collapse {n : Int} {ts : List Summand} : ∀ t ∈ (collapse n ts).2, t.negated = true := by
  induction ts generalizing n with
  | nil => simp [collapse]
  | cons t ts ih =>
    rw [collapse]
    split
    · rename_i h
      exact List.forall_mem_cons.mpr ⟨h, ih⟩
    · exact ih

/-- What is caught from the start on is all that is added to the first integer. -/
theorem captured_true (n : Int) (ts : List Summand) : captured true ts = captured false ts + ((collapse n ts).1 - n) := by
  induction ts generalizing n with
  | nil => simp [captured, collapse]
  | cons t ts ih =>
    simp only [captured, collapse]
    split
    · simp
    · have := ih (n + t.value)
      simp only [if_true, Bool.false_eq_true, if_false]
      omega

/-- A collapsed sum counts what is caught with the opposite sign. -/
theorem sum_collapse (n : Int) (ts : List Summand) :
    (collapse n ts).1 + ((collapse n ts).2.map value).sum = n + (ts.map value).sum - 2 * captured false ts := by
  induction ts generalizing n with
  | nil => simp [collapse, captured]
  | cons t ts ih =>
    simp only [captured, collapse]
    cases hneg : t.negated with
    | false =>
      have := ih (n + t.value)
      simp only [Bool.false_eq_true, if_false, List.map_cons, List.sum_cons]
      omega
    | true =>
      have hrest := ih t.number
      have hcaught := captured_true t.number ts
      cases hsub : t.subtracted <;> simp [value, hneg, hsub] <;> omega

end Summand

/-! ### Integers that can be written -/

namespace Outcome
variable {α β : Type}

/-- The outcome if all of some integers can be written. -/
def ifShort (ns : List Int) (o : Outcome α) : Outcome α :=
  if ns.all Value.isShortInt then o else .error .longInteger

theorem ifShort_append (ms ns : List Int) (o : Outcome α) : ifShort (ms ++ ns) o = ifShort ms (ifShort ns o) := by
  unfold ifShort
  rw [List.all_append]
  cases ms.all Value.isShortInt <;> rfl

theorem ifShort_bind (ns : List Int) (o : Outcome α) (f : α → Outcome β) :
    (ifShort ns o).bind f = ifShort ns (o.bind f) := by
  unfold ifShort
  split <;> rfl

theorem ifShort_map (ns : List Int) (o : Outcome α) (f : α → β) : (ifShort ns o).map f = ifShort ns (o.map f) := by
  unfold ifShort
  split <;> rfl

end Outcome

open Outcome (ifShort ifShort_append ifShort_bind ifShort_map)

theorem Value.isWritable_int (n : Int) : (Value.int n).isWritable = isShortInt n := by
  rw [isWritable]

theorem Value.negateContracted_int (n : Int) :
    (Value.int n).negateContracted = ifShort [n, -n] (.ok (.int (-n))) := by
  have hmul : (Value.int n).mul (.int (-1)) = .ok (.int (-n)) := by
    show Except.ok (Value.int (n * -1)) = _
    rw [Int.mul_neg_one]
  rw [negateContracted, hmul, ifShort]
  simp only [Except.bind, isWritable_int, List.all_cons, List.all_nil, Bool.and_true]

theorem Summand.contracted {t : Summand} (h : t.negated = false) (n : Int) :
    t.sign.contracted (.int n) (.int t.number) = ifShort [n, t.number, n + t.value] (.ok (.int (n + t.value))) := by
  have happly : t.sign.operation.apply (.int n) (.int t.number) = .ok (.int (n + t.value)) := by
    unfold sign value
    rw [h]
    cases t.subtracted with
    | false => rfl
    | true => exact congrArg (fun k => Except.ok (Value.int k)) (Int.sub_eq_add_neg)
  rw [Sign.contracted, Operation.contracted, happly, ifShort]
  simp only [Except.bind, Value.isWritable_int, List.all_cons, List.all_nil, Bool.and_true, Bool.and_assoc]

/-! ### Rules on sums -/

/-- Numbers with pluses and minuses, of which none stands in front. -/
structure Stream.IsAdditive (ts : Stream) : Prop where
  head : ∀ t ∈ ts.head?, t.category ≠ .operator
  tokens : ∀ t ∈ ts, t.category = .numeric ∨ Level.sum.Has t

namespace Stream
variable {front ts : Stream}

theorem isAdditive_nil : IsAdditive [] := ⟨by simp, by simp⟩

theorem IsAdditive.append_summands (h : front.IsAdditive) (n : Int) (rest : List Summand) :
    (front ++ summands n rest).IsAdditive := by
  refine ⟨head?_append_number h.head, fun t ht => ?_⟩
  rcases List.mem_append.mp ht with ht | ht
  · exact h.tokens t ht
  rcases List.mem_cons.mp ht with rfl | ht
  · exact Or.inl rfl
  obtain ⟨u, -, ht⟩ := List.mem_flatMap.mp ht
  rcases List.mem_cons.mp ht with rfl | ht
  · exact Or.inr ⟨u.sign, u.level_sign, rfl⟩
  rcases List.mem_append.mp ht with ht | ht
  · split at ht
    · exact Or.inr ⟨.subtract, rfl, List.mem_singleton.mp ht⟩
    · cases ht
  · rw [List.mem_singleton.mp ht]
    exact Or.inl rfl

theorem IsAdditive.append_minus (h : front.IsAdditive) (t : Summand) (n : Int) :
    (front ++ [.number (.int n), t.sign.token, Sign.subtract.token]).IsAdditive := by
  refine ⟨head?_append_number h.head, fun u hu => ?_⟩
  rcases List.mem_append.mp hu with hu | hu
  · exact h.tokens u hu
  simp only [List.mem_cons, List.not_mem_nil, or_false] at hu
  rcases hu with rfl | rfl | rfl
  · exact Or.inl rfl
  · exact Or.inr ⟨t.sign, t.level_sign, rfl⟩
  · exact Or.inr ⟨.subtract, rfl, rfl⟩

theorem IsAdditive.opening (h : ts.IsAdditive) : Token.opening ∉ ts := fun hmem => by
  rcases h.tokens _ hmem with hc | hs
  · cases hc
  · cases hs.category

theorem IsAdditive.refused {names : List String} (h : ts.IsAdditive) (hne : names ≠ []) (hadd : "add" ∉ names)
    (hsubtract : "subtract" ∉ names) : ∀ t ∈ ts, (Matcher.of .operator names).accepts t = false := by
  intro t ht
  refine Bool.eq_false_iff.mpr fun hacc => ?_
  obtain ⟨name, hname, rfl⟩ := (Matcher.accepts_names hne).mp hacc
  rcases h.tokens _ ht with hc | ⟨s, hs, htoken⟩
  · cases hc
  obtain rfl : name = s.operation.name := by simpa [Sign.token] using htoken
  cases s
  case add => exact hadd hname
  case subtract => exact hsubtract hname
  all_goals cases hs

end Stream

namespace Pattern
variable {p : Pattern} {ts : Stream}

/-- A pattern with an operator of another level is not found in a sum. -/
theorem find?_additive (h : ts.IsAdditive) (names : List String) (hm : Matcher.of .operator names ∈ p)
    (hnames : names ≠ [] ∧ "add" ∉ names ∧ "subtract" ∉ names) : p.find? ts = none := by
  refine find?_eq_none_of fun pre span post hts hp _ => ?_
  obtain ⟨t, ht, hacc⟩ := exists_accepted hp hm Nat.one_pos
  rw [h.refused hnames.1 hnames.2.1 hnames.2.2 t (by simp [hts, ht])] at hacc
  cases hacc

end Pattern

section Rules
variable {front : Stream} {n : Int} {ts : List Summand}

theorem Rule.find?_above_sum {s : Stream} (h : s.IsAdditive) :
    ∀ r ∈ Rule.brackets ++ Level.above .sum, r.pattern.find? s = none := by
  intro r hr
  rcases List.mem_append.mp hr with hr | hr
  · exact Pattern.find?_brackets h.opening r hr
  simp only [Level.above, Rule.flat, Rule.standard, List.drop_succ_cons, List.drop_zero, List.take_succ_cons,
    List.take_zero, List.mem_cons, List.not_mem_nil, or_false] at hr
  rcases hr with rfl | rfl | rfl | rfl | rfl | rfl
  · exact Pattern.find?_leadingNegation h.head
  · exact Pattern.find?_additive h ["pow"] (by simp [Pattern.power, Matcher.powerSign]) (by simp)
  · exact Pattern.find?_additive h ["pow"] (by simp [Pattern.powerNegated, Matcher.powerSign]) (by simp)
  · exact Pattern.find?_additive h ["mod"] (by simp [Pattern.remainder, Matcher.percentSign]) (by simp)
  · exact Pattern.find?_additive h ["multiply", "divide"] (by simp [Pattern.product, Matcher.productSign]) (by simp)
  · exact Pattern.find?_additive h ["multiply"] (by simp [Pattern.productNegated, Matcher.times]) (by simp)

theorem Rule.find?_percentage {s : Stream} (h : s.IsAdditive) : Pattern.percentage.find? s = none :=
  Pattern.find?_additive h ["mod"] (by simp [Pattern.percentage, Matcher.percentSign]) (by simp)

theorem Level.Settled.append_minus (h : Level.sum.Settled front) (t : Summand) (n : Int) :
    Level.sum.Settled (front ++ [.number (.int n), t.sign.token, Sign.subtract.token]) :=
  h.number_pair (by simp [Sign.token]) (by simp [Sign.token]) _

/-- No sum is to be computed where each summand has a minus. -/
theorem Rule.find?_sum (hfront : Level.sum.Settled front) (h : ∀ t ∈ ts, t.negated = true) :
    (Level.rule .sum).pattern.find? (front ++ Stream.summands n ts) = none := by
  induction ts generalizing front n with
  | nil =>
    exact @Level.find?_line .sum front [] (.int n) [] hfront (fun u => Level.find?_short (by simp)) (by simp)
  | cons t ts ih =>
    obtain ⟨ht, hrest⟩ := List.forall_mem_cons.mp h
    rw [Stream.summands_negated ht, ← List.append_assoc]
    exact ih (hfront.append_minus t n) hrest

theorem Pattern.foundAt_negation (t : Summand) (n k : Int) (post : Stream) :
    Pattern.FoundAt .negation [.number (.int n), t.sign.token] [Sign.subtract.token, .number (.int k)] post := by
  refine Pattern.foundAt_pair ⟨rfl, rfl, rfl⟩ ⟨rfl, rfl, rfl⟩ (Matcher.accepts_minus.mpr rfl)
    (Matcher.accepts_category.mpr rfl) ?_
  have hnumeric : ∀ s : Sign, Matcher.numeric.accepts s.token = false := fun s => by
    rw [← Bool.not_eq_true, Matcher.numeric, Matcher.accepts_category]
    simp [Sign.token]
  simp [hnumeric]

end Rules

/-! ### Reductions of sums -/

namespace Engine
variable {e : Engine} {depth : Int} (he : e.IsPlain) (hd : depth ≤ e.limit) {front : Stream} {t : Summand} {n : Int}
  {ts : List Summand}
include he hd

/-- A summand without a minus is added to the number in front of it. -/
theorem reduce_summand (hfront : Level.sum.Settled front) (hadditive : front.IsAdditive) (h : t.negated = false) :
    (e.reduce depth (front ++ Stream.summands n (t :: ts))).outcome =
      ifShort [n, t.number, n + t.value] (e.reduce depth (front ++ Stream.summands (n + t.value) ts)).outcome := by
  have habove := Rule.find?_above_sum (hadditive.append_summands n (t :: ts))
  rw [Stream.summands_plain h] at habove ⊢
  have hrules : e.table.functionRules = [] := by rw [he.table]
  rw [reduce_window he.isStandard he.rounds hd t.level_sign hfront (by rwa [hrules]), Summand.contracted h, ifShort_bind]
  rfl

/-- All summands without a minus are added before any minus is applied. -/
theorem reduce_collapse (hfront : Level.sum.Settled front) (hadditive : front.IsAdditive) :
    (e.reduce depth (front ++ Stream.summands n ts)).outcome = ifShort (Summand.gathered n ts)
      (e.reduce depth (front ++ Stream.summands (Summand.collapse n ts).1 (Summand.collapse n ts).2)).outcome := by
  induction ts generalizing front n with
  | nil => rfl
  | cons t ts ih =>
    rw [Summand.gathered, Summand.collapse]
    cases h : t.negated with
    | false =>
      simp only [Bool.false_eq_true, if_false]
      rw [reduce_summand he hd hfront hadditive h, ih hfront hadditive, ifShort_append]
    | true =>
      -- The number behind the minus begins a sum of its own, which is settled in front.
      have hnext := ih (n := t.number) (hfront.append_minus t n) (hadditive.append_minus t n)
      simp only [if_true]
      rw [Stream.summands_negated h, @Stream.summands_negated ⟨t.subtracted, true, _⟩ rfl, ← List.append_assoc,
        ← List.append_assoc]
      exact hnext

/-- Where each summand has a minus, the first minus is applied. -/
theorem reduce_negation (h : ∀ u ∈ t :: ts, u.negated = true) :
    (e.reduce depth (Stream.summands n (t :: ts))).outcome =
      ifShort [t.number, -t.number] (e.reduce depth (Stream.summands n (t.negate :: ts))).outcome := by
  have hadditive := Stream.isAdditive_nil.append_summands n (t :: ts)
  have hsum := Rule.find?_sum (n := n) Level.sum.settled_nil h
  rw [List.nil_append] at hadditive hsum
  have hsplit : Stream.summands n (t :: ts) = [.number (.int n), t.sign.token] ++
      ([Sign.subtract.token, .number (.int t.number)] ++ ts.flatMap Summand.tokens) := by
    simp [Stream.summands, Summand.tokens, h t (by simp)]
  have hall : e.table.all = ((Rule.brackets ++ Level.above .sum) ++ [Level.rule .sum, ⟨.percentage, .step .percentage⟩]) ++
      ⟨.negation, .step .negate⟩ :: Rule.flat.drop 9 := he.all
  have habove : ∀ r ∈ (Rule.brackets ++ Level.above .sum) ++ [Level.rule .sum, ⟨.percentage, .step .percentage⟩],
      r.pattern.find? (Stream.summands n (t :: ts)) = none := by
    intro r hr
    rcases List.mem_append.mp hr with hr | hr
    · exact Rule.find?_above_sum hadditive r hr
    simp only [List.mem_cons, List.not_mem_nil, or_false] at hr
    rcases hr with rfl | rfl
    · exact hsum
    · exact Rule.find?_percentage hadditive
  rw [hsplit] at habove ⊢
  refine (@reduce_foundAt e depth _ _ _ ⟨.negation, .step .negate⟩ he.isStandard he.rounds hd _ _ hall (by simp) habove
    (by simp [Pattern.negation]) (Pattern.foundAt_negation t n t.number _)).trans ?_
  rw [fire_negation, Value.negateContracted_int, ifShort_map, ifShort_bind, Stream.summands_plain (t := t.negate) rfl]
  rfl

/-- Summands with a minus are negated and added in turn. -/
theorem reduce_negated (h : ∀ t ∈ ts, t.negated = true) :
    (e.reduce depth (Stream.summands n ts)).outcome =
      ifShort (Summand.computed n ts) (.ok (.number (.int (n + (ts.map Summand.value).sum)))) := by
  induction ts generalizing n with
  | nil =>
    rw [List.map_nil, List.sum_nil, Int.add_zero]
    exact reduce_single he.isStandard he.rounds hd _
  | cons t ts ih =>
    obtain ⟨ht, hrest⟩ := List.forall_mem_cons.mp h
    have hplain := @reduce_summand e depth he hd [] t.negate n ts Level.sum.settled_nil Stream.isAdditive_nil rfl
    rw [List.nil_append, Summand.value_negate ht] at hplain
    rw [reduce_negation he hd h, hplain, List.nil_append, ih hrest, Summand.computed, ifShort_append, ifShort_append,
      List.map_cons, List.sum_cons, Int.add_assoc]
    rfl

theorem reduce_summands (n : Int) (ts : List Summand) :
    (e.reduce depth (Stream.summands n ts)).outcome =
      ifShort (Summand.gathered n ts ++ Summand.computed (Summand.collapse n ts).1 (Summand.collapse n ts).2)
        (.ok (.number (.int (n + (ts.map Summand.value).sum - 2 * Summand.captured false ts)))) := by
  have hcollapse := @reduce_collapse e depth he hd [] n ts Level.sum.settled_nil Stream.isAdditive_nil
  rw [List.nil_append, List.nil_append, reduce_negated he hd Summand.negated_of_mem_collapse,
    Summand.sum_collapse] at hcollapse
  rw [hcollapse, ifShort_append]

/-- What a sum of signed integers is reduced to. A minus in front belongs to the first integer, but one behind an
    operator is applied to all that follows up to the next such minus: the value is exact if and only if what is
    captured adds up to nothing. -/
theorem reduce_signedSum (negated : Bool) (n : Int) (ts : List Summand) :
    ((e.reduce depth (Stream.signedSum negated n ts)).outcome =
      if (Summand.passed negated n ts).all Value.isShortInt then
        .ok (.number (.int (Summand.total negated n ts - 2 * Summand.captured false ts)))
      else .error .longInteger) ∧
    ((Summand.passed negated n ts).all Value.isShortInt →
      ((e.reduce depth (Stream.signedSum negated n ts)).outcome = .ok (.number (.int (Summand.total negated n ts))) ↔
        Summand.captured false ts = 0)) := by
  have hvalue : (e.reduce depth (Stream.signedSum negated n ts)).outcome = ifShort (Summand.passed negated n ts)
      (.ok (.number (.int (Summand.total negated n ts - 2 * Summand.captured false ts)))) := by
    cases negated with
    | false => exact reduce_summands he hd n ts
    | true =>
      have hopening := (Stream.isAdditive_nil.append_summands n ts).opening
      have hminus := reduce_minus he hd (fun h => hopening (List.mem_cons_of_mem _ h)) (.int n)
      show (e.reduce depth (Sign.subtract.token :: Stream.summands n ts)).outcome = _
      rw [Value.negateContracted_int, ifShort_bind] at hminus
      refine hminus.trans ?_
      show ifShort _ (e.reduce depth (Stream.summands (-n) ts)).outcome = _
      rw [reduce_summands he hd, ← ifShort_append]
      rfl
  refine ⟨hvalue, fun hshort => ?_⟩
  rw [hvalue, ifShort, if_pos hshort]
  constructor
  · intro h
    have hint : Summand.total negated n ts - 2 * Summand.captured false ts = Summand.total negated n ts := by
      simpa [Token.number] using h
    omega
  · intro h
    rw [h, Int.mul_zero, Int.sub_zero]

omit he hd in
/-- One plus minus two plus three loses the three twice; minus one minus minus two plus three is exact. -/
theorem reduce_signedSum_minus :
    (Engine.reduce {} 0 (Stream.signedSum false 1 [⟨false, true, 2⟩, ⟨false, false, 3⟩])).outcome =
        .ok (.number (.int (-4))) ∧
      (Engine.reduce {} 0 (Stream.signedSum true 1 [⟨true, true, 2⟩, ⟨false, false, 3⟩])).outcome =
        .ok (.number (.int 4)) := by
  have he : Engine.IsPlain {} := ⟨rfl, rfl⟩
  constructor
  · exact (reduce_signedSum he (by decide) false 1 _).1.trans (if_pos (by decide +kernel))
  · exact ((reduce_signedSum he (by decide) true 1 _).2 (by decide +kernel)).mpr rfl

omit he hd in
/-- A minus behind a plus is not applied to its own operand only. -/
theorem reduce_signedSum_ne_total :
    (Engine.reduce {} 0 (Stream.signedSum false 1 [⟨false, true, 2⟩, ⟨false, false, 3⟩])).outcome ≠
      .ok (.number (.int (Summand.total false 1 [⟨false, true, 2⟩, ⟨false, false, 3⟩]))) := by
  have hint : Outcome.isInt 2
      (Engine.reduce {} 0 (Stream.signedSum false 1 [⟨false, true, 2⟩, ⟨false, false, 3⟩])).outcome = false := by
    decide +kernel
  intro h
  rw [h] at hint
  cases hint

end Engine
end Reckoner
