import Reckoner.Proofs.Contraction

/-!
# The potential of a stream

Expanding a range makes a stream longer, so that its length does not bound its reduction. The potential does:
it weighs the tokens by their categories and adds three for every number between two comparators. Expanding a
range adds a number and a connective, of weight one each, and parts one such number from its left comparator.
Everything else that standard rules and calls of functions do takes tokens that weigh more than the one they
give together with the two comparisons it may complete (`potential_single`, `potential_range`).
-/

namespace Reckoner

/-! ### Weights -/

/-- The weight of a token of a category. -/
def Category.weight : Category → Nat
  | .numeric | .combinator => 1
  | .logical => 2
  | .comparator => 3
  | .grouping => 5
  | _ => 4

/-- How many numbers between two comparators a token of a category can complete. -/
def Category.completes : Category → Nat
  | .comparator => 2
  | .numeric => 1
  | _ => 0

/-- The weight of a token together with what it may complete. -/
def Category.cost (c : Category) : Nat := c.weight + 3 * c.completes

theorem Category.weight_pos (c : Category) : 0 < c.weight := by
  cases c <;> decide

theorem Category.cost_le (c : Category) : c.cost ≤ 9 := by
  cases c <;> decide

namespace Stream

def weight : Stream → Nat
  | [] => 0
  | t :: ts => t.category.weight + weight ts

@[simp] theorem weight_nil : weight [] = 0 := rfl

@[simp] theorem weight_cons (t : Token) (ts : Stream) : weight (t :: ts) = t.category.weight + weight ts := rfl

@[simp] theorem weight_append (xs ys : Stream) : weight (xs ++ ys) = weight xs + weight ys := by
  induction xs with
  | nil => simp
  | cons t xs ih => rw [List.cons_append, weight_cons, weight_cons, ih, Nat.add_assoc]

theorem weight_wrap (body : Stream) : weight body.wrap = weight body + 10 := by
  simp only [wrap, weight_cons, weight_append, weight_nil, Token.opening, Token.closing, Category.weight]
  omega

end Stream

/-! ### Numbers between comparators -/

/-- What stands at the end of the tokens read so far: a comparator, a comparator and a number, or neither. -/
inductive Scan where
  | other
  | comparator
  | number
  deriving DecidableEq

namespace Scan

/-- The scan after one more token. -/
def next : Scan → Category → Scan
  | _, .comparator => .comparator
  | .comparator, .numeric => .number
  | _, _ => .other

/-- Whether a token completes a number between two comparators. -/
def completed (q : Scan) (c : Category) : Nat := if q = .number ∧ c = .comparator then 1 else 0

/-- The scan after a stream. -/
def after : Scan → Stream → Scan
  | q, [] => q
  | q, t :: ts => (q.next t.category).after ts

/-- The numbers between comparators that a stream completes. -/
def count : Scan → Stream → Nat
  | _, [] => 0
  | q, t :: ts => q.completed t.category + (q.next t.category).count ts

theorem count_append : ∀ (q : Scan) (xs ys : Stream), q.count (xs ++ ys) = q.count xs + (q.after xs).count ys
  | q, [], ys => by simp [count, after]
  | q, t :: xs, ys => by
    simp only [List.cons_append, count, after, count_append _ xs ys]
    omega

theorem next_of_ne {q : Scan} {c : Category} (hq : q ≠ .comparator) : q.next c = Scan.other.next c := by
  cases q <;> cases c <;> first | rfl | exact absurd rfl hq

/-- What stands in front of a stream completes at most one number between comparators. -/
theorem count_bounds (q : Scan) (ts : Stream) :
    Scan.other.count ts ≤ q.count ts ∧ q.count ts ≤ Scan.other.count ts + (if q = .other then 0 else 1) := by
  induction ts generalizing q with
  | nil => simp [count]
  | cons t ts ih =>
    have hother : Scan.other.completed t.category = 0 := by simp [completed]
    have hnumber : (Scan.number).count ts ≤ Scan.other.count ts + 1 := by simpa using (ih .number).2
    simp only [count, hother]
    cases q with
    | other => simp [hother]
    | comparator =>
      have hzero : Scan.comparator.completed t.category = 0 := by simp [completed]
      rw [hzero]
      cases hc : t.category <;> simp [next, hnumber, (ih .number).1]
    | number =>
      rw [next_of_ne (q := .number) (by simp)]
      simp only [completed]
      split
      · simp
        omega
      · simp

theorem other_le (q : Scan) (ts : Stream) : Scan.other.count ts ≤ q.count ts := (count_bounds q ts).1

end Scan

/-! ### The potential -/

namespace Stream

def potential (ts : Stream) : Nat := ts.weight + 3 * Scan.other.count ts

theorem potential_append (pre ts post : Stream) : potential (pre ++ (ts ++ post)) =
    pre.weight + ts.weight + post.weight + 3 * (Scan.other.count pre +
      ((Scan.other.after pre).count ts + ((Scan.other.after pre).after ts).count post)) := by
  simp only [potential, weight_append, Scan.count_append]
  omega

/-- A span is replaced by a token that costs less than the span weighs. -/
theorem potential_single {span : Stream} {t : Token} (h : t.category.cost < span.weight) (pre post : Stream) :
    potential (pre ++ ([t] ++ post)) < potential (pre ++ (span ++ post)) := by
  rw [potential_append, potential_append]
  generalize Scan.other.after pre = q
  have hspan := Scan.other_le (q.after span) post
  have hnext := (Scan.count_bounds (q.next t.category) post).2
  have hcost : q.completed t.category + (if q.next t.category = .other then 0 else 1) ≤ t.category.completes := by
    cases q <;> cases t.category <;> decide
  simp only [weight_cons, weight_nil, Scan.count, Scan.after, Category.cost] at h hcost ⊢
  omega

/-- A range is replaced by two comparisons. -/
theorem potential_range {l o m u r : Token} (hl : l.category = .numeric) (ho : o.category = .comparator)
    (hm : m.category = .numeric) (hu : u.category = .comparator) (hr : r.category = .numeric) (pre post : Stream) :
    potential (pre ++ ([l, o, m, .conjunction, m, u, r] ++ post)) <
      potential (pre ++ ([l, o, m, u, r] ++ post)) := by
  rw [potential_append, potential_append]
  generalize Scan.other.after pre = q
  have hand : Token.conjunction.category = .combinator := rfl
  simp only [weight_cons, weight_nil, Scan.count, Scan.after, hl, ho, hm, hu, hr, hand, Category.weight]
  cases q <;> simp [Scan.next, Scan.completed] <;> omega

theorem length_le_potential (ts : Stream) : ts.length ≤ potential ts := by
  have : ts.length ≤ ts.weight := by
    induction ts with
    | nil => simp
    | cons t ts ih =>
      have := t.category.weight_pos
      simp only [List.length_cons, weight_cons]
      omega
  unfold potential
  omega

/-- A number between comparators is paid for by its light weight and that of a comparator. -/
theorem potential_le (ts : Stream) : potential ts ≤ 5 * ts.length := by
  have key : ∀ (q : Scan) (ts : Stream), ts.weight + 3 * q.count ts ≤
      5 * ts.length + (match q with | .other => 0 | .comparator => 0 | .number => 1) := by
    intro q ts
    induction ts generalizing q with
    | nil => simp [Scan.count]
    | cons t ts ih =>
      have := ih (q.next t.category)
      simp only [weight_cons, Scan.count, List.length_cons]
      cases q <;> cases hc : t.category <;> simp [hc, Scan.next, Scan.completed, Category.weight] at this ⊢ <;> omega
  simpa [potential] using key .other ts

theorem potential_of_isInfix {xs ts : Stream} (h : xs <:+: ts) : potential xs ≤ potential ts := by
  obtain ⟨pre, post, rfl⟩ := h
  rw [List.append_assoc, potential_append, potential]
  have := Scan.other_le (Scan.other.after pre) xs
  omega

end Stream
end Reckoner
