import Reckoner.Proofs.Choices

/-!
# Clauses

Truth values and comparisons of numbers are joined by connectives, and a comparison can go on in its direction. A
stream of such parts is read from left to right (`Clause.Reading`): the first comparison of a chain is taken by the
connective in front of it, and every further one is joined by a conjunction. The reading fails where the parts do not
fit together, so that it tells for every stream whether it has a truth value, and which one.
-/

namespace Reckoner

/-! ### Comparisons of figures -/

/-- A number that can be compared with others and written. -/
def Value.IsFigure : Value → Prop
  | .int n => Value.isShortInt n = true
  | .real _ => True
  | _ => False

abbrev Figure := { v : Value // v.IsFigure }

/-- The place of a number on the line; a NaN has none. -/
def Figure.place? (a : Figure) : Option Line := a.1.number?.bind Number.place?

/-- The integer of a digit. -/
def Figure.digit (n : Fin 10) : Figure := ⟨.int n, by
  have hshort : ∀ n : Fin 10, Value.isShortInt n = true := by decide +kernel
  exact hshort n⟩

theorem Figure.isWritable (a : Figure) : a.1.isWritable = true := by
  obtain ⟨v, hv⟩ := a
  cases v with
  | int n => exact hv
  | real x => rfl
  | _ => cases hv

namespace Comparator
variable {c d : Comparator}

def isAscending : Comparator → Bool
  | .lt | .le => true
  | _ => false

def isDescending : Comparator → Bool
  | .gt | .ge => true
  | _ => false

/-- A chain goes on from one comparator to the next one in the same direction. -/
def continues (c d : Comparator) : Bool := c.isAscending && d.isAscending || c.isDescending && d.isDescending

theorem isDescending_of_isAscending (h : c.isAscending = true) : c.isDescending = false := by
  cases c <;> first | rfl | cases h

theorem isAscending_of_continues (h : c.continues d = true) (hc : c.isAscending = true) : d.isAscending = true := by
  rw [continues, isDescending_of_isAscending hc, hc, Bool.false_and, Bool.or_false] at h
  exact h

theorem isDescending_of_continues (h : c.continues d = true) (hc : c.isDescending = true) : d.isDescending = true := by
  have hascending : c.isAscending = false := Bool.eq_false_iff.mpr fun h =>
    Bool.false_ne_true ((isDescending_of_isAscending h).symm.trans hc)
  rw [continues, hascending, hc, Bool.false_and, Bool.false_or] at h
  exact h

/-- The truth of a comparison, by the places of both numbers. -/
def holds (c : Comparator) (a b : Figure) : Bool := c.onPlaces a.place? b.place?

theorem truth_figures (c : Comparator) (a b : Figure) : c.truth a.1 b.1 = .ok (c.holds a b) := by
  obtain ⟨v, hv⟩ := a
  obtain ⟨w, hw⟩ := b
  cases v <;> cases w <;> first | exact hv.elim | exact hw.elim | rfl

theorem apply_eq (c : Comparator) (a b : Figure) : c.operation.apply a.1 b.1 = .ok (.bool (c.holds a b)) := by
  rw [apply_eq_truth, truth_figures]
  rfl

theorem holds_digits (c : Comparator) (m n : Fin 10) : c.holds (.digit m) (.digit n) = decide (c.Relates (m : Int) n) :=
  Except.ok.inj ((truth_figures ..).symm.trans (truth_ints ..))

end Comparator

inductive Connective where
  | and
  | or
  deriving DecidableEq, Repr

namespace Connective

def operation : Connective → Operation
  | .and => .and
  | .or => .or

def token (k : Connective) : Token := ⟨.combinator, .text k.operation.name⟩

def holds : Connective → Bool → Bool → Bool
  | .and, x, y => x && y
  | .or, x, y => x || y

theorem apply_eq (k : Connective) (x y : Bool) : k.operation.apply (.bool x) (.bool y) = .ok (.bool (k.holds x y)) := by
  cases k <;> rfl

end Connective

def Token.truth (b : Bool) : Token := ⟨.logical, .bool b⟩

namespace Clause

/-! ### Parts -/

/-- What streams of clauses are made of. -/
inductive Part where
  | number (a : Figure)
  | comparator (c : Comparator)
  | truth (b : Bool)
  | connective (k : Connective)

def Part.token : Part → Token
  | .number a => .number a.1
  | .comparator c => c.token
  | .truth b => .truth b
  | .connective k => k.token

def stream (ps : List Part) : Stream := ps.map Part.token

/-! ### Reading -/

/-- What has been read of a stream: how the next truth value is taken up, or the truth value so far, with the last
    number of a chain and the comparator in front of it. -/
inductive Reading where
  | operand (take : Bool → Bool)
  | number (take : Bool → Bool) (a : Figure)
  | comparing (take : Bool → Bool) (a : Figure) (c : Comparator)
  | truth (x : Bool)
  | compared (x : Bool) (a : Figure) (c : Comparator)

namespace Reading

def next : Reading → Part → Option Reading
  | .operand take, .truth b => some (.truth (take b))
  | .operand take, .number a => some (.number take a)
  | .number take a, .comparator c => some (.comparing take a c)
  | .comparing take a c, .number b => some (.compared (take (c.holds a b)) b c)
  | .compared x a c, .comparator d => if c.continues d then some (.comparing (Connective.and.holds x) a d) else none
  | .truth x, .connective k => some (.operand (k.holds x))
  | .compared x _ _, .connective k => some (.operand (k.holds x))
  | _, _ => none

def run (r : Reading) (ps : List Part) : Option Reading := ps.foldlM next r

/-- The truth value of what has been read, if it can end there. -/
def result : Reading → Option Bool
  | .truth x => some x
  | .compared x _ _ => some x
  | _ => none

/-- The number at the end, if any. -/
def last? : Reading → Option Figure
  | .number _ a => some a
  | .compared _ a _ => some a
  | _ => none

end Reading

/-- The truth value of a stream. -/
def value? (ps : List Part) : Option Bool := ((Reading.operand id).run ps).bind Reading.result

namespace Reading
variable {r r' : Reading} {ps : List Part} {p : Part} {a b : Figure} {c d : Comparator}

theorem run_append (r : Reading) (ps qs : List Part) : r.run (ps ++ qs) = (r.run ps).bind fun r => r.run qs :=
  List.foldlM_append

theorem run_cons (r : Reading) (p : Part) (ps : List Part) : r.run (p :: ps) = (r.next p).bind fun r => r.run ps :=
  List.foldlM_cons

theorem run_nil (r : Reading) : r.run [] = some r := rfl

theorem run_singleton (r : Reading) (p : Part) : r.run [p] = r.next p := by
  rw [run_cons]
  cases r.next p <;> rfl

theorem run_snoc (r : Reading) (ps : List Part) (p : Part) : r.run (ps ++ [p]) = (r.run ps).bind fun r => r.next p := by
  simp only [run_append, run_singleton]

/-! #### What stands at the end -/

theorem next_number (h : r.next p = some r') (ha : r'.last? = some a) : p = .number a := by
  cases r <;> cases p <;> simp only [next, reduceCtorEq, Option.some.injEq, Option.ite_none_right_eq_some] at h
  all_goals first
    | subst h
    | rw [← h.2] at ha
  all_goals simp_all [last?]

theorem eq_append_number {take : Bool → Bool} (h : (operand take).run ps = some r) (ha : r.last? = some a) :
    ∃ qs, ps = qs ++ [.number a] := by
  rcases List.eq_nil_or_concat ps with rfl | ⟨qs, p, rfl⟩
  · rw [← Option.some.inj h] at ha
    cases ha
  · rw [List.concat_eq_append, run_snoc] at h
    obtain ⟨r', -, hp⟩ := Option.bind_eq_some_iff.mp h
    exact ⟨qs, by rw [List.concat_eq_append, next_number hp ha]⟩

theorem next_comparing {take : Bool → Bool} (h : r.next p = some (.comparing take a c)) :
    p = .comparator c ∧ r.last? = some a := by
  cases r <;> cases p <;> simp_all [next, last?]

/-- A comparator behind a number waits for the next one. -/
theorem eq_append_comparator {take take' : Bool → Bool} (h : (operand take).run ps = some (.comparing take' a c)) :
    ∃ qs, ps = qs ++ [.number a, .comparator c] := by
  rcases List.eq_nil_or_concat ps with rfl | ⟨qs, p, rfl⟩
  · cases h
  · rw [List.concat_eq_append, run_snoc] at h
    obtain ⟨r', hrun, hp⟩ := Option.bind_eq_some_iff.mp h
    obtain ⟨rfl, ha⟩ := next_comparing hp
    obtain ⟨qs, rfl⟩ := eq_append_number hrun ha
    exact ⟨qs, by simp⟩

/-! #### What has to follow -/

theorem number_follows {take : Bool → Bool} {x : Bool} (h : ((comparing take a c).run ps).bind result = some x) :
    ∃ b qs, ps = .number b :: qs := by
  rcases ps with _ | ⟨p, qs⟩
  · cases h
  · cases p with
    | number b => exact ⟨b, qs, rfl⟩
    | _ => cases h

theorem comparison_follows {take : Bool → Bool} {x : Bool} (h : ((number take a).run ps).bind result = some x) :
    ∃ c b qs, ps = .comparator c :: .number b :: qs := by
  rcases ps with _ | ⟨p, qs⟩
  · cases h
  · cases p with
    | comparator c =>
      have h : ((comparing take a c).run qs).bind result = some x := h
      obtain ⟨b, qs, rfl⟩ := number_follows h
      exact ⟨c, b, qs, rfl⟩
    | _ => cases h

/-- Where a chain does not go on, its last comparison is like a truth value. -/
theorem result_compared {x : Bool} (h : ∀ d b qs, ps = .comparator d :: .number b :: qs → c.continues d = false) :
    ((compared x a c).run ps).bind result = ((Reading.truth x).run ps).bind result := by
  rcases ps with _ | ⟨p, ps⟩
  · rfl
  · rw [run_cons, run_cons]
    cases p with
    | comparator d =>
      simp only [next]
      split
      · rename_i hgoes
        cases hresult : ((comparing (Connective.and.holds x) a d).run ps).bind result with
        | none => exact hresult
        | some y =>
          obtain ⟨b, qs, rfl⟩ := number_follows hresult
          rw [h d b qs rfl] at hgoes
          cases hgoes
      · rfl
    | _ => rfl

/-! #### Truth values do not decide whether a stream can be read -/

/-- The reading without its truth values. -/
def shape : Reading → Reading
  | .operand _ => .operand id
  | .number _ a => .number id a
  | .comparing _ a c => .comparing id a c
  | .truth _ => .truth false
  | .compared _ a c => .compared false a c

theorem shape_next (r : Reading) (p : Part) : (r.next p).map shape = (r.shape.next p).map shape := by
  cases r <;> cases p <;> simp only [shape, next, Option.map_some, Option.map_none]
  split <;> rfl

theorem shape_run : ∀ (ps : List Part) (r : Reading), (r.run ps).map shape = (r.shape.run ps).map shape
  | [], r => by cases r <;> rfl
  | p :: ps, r => by
    have hnext := shape_next r p
    rw [run_cons, run_cons]
    cases hr : r.next p with
    | none =>
      rw [hr, Option.map_none] at hnext
      rw [Option.map_eq_none_iff.mp hnext.symm]
    | some r₁ =>
      rw [hr, Option.map_some] at hnext
      obtain ⟨r₂, hr₂, hshape⟩ := Option.map_eq_some_iff.mp hnext.symm
      rw [hr₂, Option.bind_some, Option.bind_some, shape_run ps r₁, shape_run ps r₂, hshape]

theorem isSome_result_of_shape (h : r.shape = r'.shape) (ps : List Part) :
    ((r.run ps).bind result).isSome = ((r'.run ps).bind result).isSome := by
  have hresult : ∀ r : Reading, r.result.isSome = r.shape.result.isSome := fun r => by cases r <;> rfl
  have hrun : (r.run ps).map shape = (r'.run ps).map shape := by rw [shape_run, h, ← shape_run]
  cases h₁ : r.run ps with
  | none =>
    rw [h₁, Option.map_none] at hrun
    rw [Option.map_eq_none_iff.mp hrun.symm]
  | some r₁ =>
    rw [h₁, Option.map_some] at hrun
    obtain ⟨r₂, hr₂, hshape⟩ := Option.map_eq_some_iff.mp hrun.symm
    rw [hr₂, Option.bind_some, Option.bind_some, hresult, ← hshape, ← hresult]

end Reading

/-! ### Steps keep the reading -/

section Steps
variable {pre post : List Part} {a b m : Figure} {c d : Comparator} {k : Connective} {x y : Bool}

/-- What stands in front and behind does not matter to parts that are read alike. -/
theorem value?_congr {span new : List Part} (h : ∀ r : Reading, r.run span = r.run new) :
    value? (pre ++ (span ++ post)) = value? (pre ++ (new ++ post)) := by
  simp only [value?, Reading.run_append, h]

/-- Both halves of a range are read as the range is. -/
theorem value?_range (h : c.continues d = true) :
    value? (pre ++ ([Part.number a, .comparator c, .number m, .comparator d, .number b] ++ post)) =
      value? (pre ++ ([Part.number a, .comparator c, .number m, .connective .and, .number m, .comparator d,
        .number b] ++ post)) := by
  refine value?_congr fun r => ?_
  cases r with
  | operand take => simp only [Reading.run_cons, Reading.next, Reading.run_nil, Option.bind_some, h, if_true]
  | comparing take a' c' =>
    by_cases hc : c'.continues c
    · simp only [Reading.run_cons, Reading.next, Reading.run_nil, Option.bind_some, h, hc, if_true]
    · simp only [Reading.run_cons, Reading.next, Option.bind_some, Option.bind_none, hc, Bool.false_eq_true, if_false]
  | _ => rfl

/-- There is no range in the stream. -/
def IsRangeless (ps : List Part) : Prop :=
  ∀ pre a c m d b post, ps = pre ++ ([Part.number a, .comparator c, .number m, .comparator d, .number b] ++ post) →
    c.continues d = false

/-- There is no comparison in the stream. -/
def IsCompareless (ps : List Part) : Prop :=
  ∀ pre a c b post, ps ≠ pre ++ ([Part.number a, .comparator c, .number b] ++ post)

/-- A comparison that is no part of a range is read as its truth value is. -/
theorem value?_comparison (h : IsRangeless (pre ++ ([Part.number a, .comparator c, .number b] ++ post))) :
    value? (pre ++ ([Part.number a, .comparator c, .number b] ++ post)) =
      value? (pre ++ ([Part.truth (c.holds a b)] ++ post)) := by
  simp only [value?, Reading.run_append]
  cases hpre : (Reading.operand id).run pre with
  | none => rfl
  | some r =>
    cases r with
    | operand take =>
      simp only [Reading.run_cons, Reading.run_nil, Reading.next, Option.bind_some]
      refine Reading.result_compared fun d e qs hqs => h pre a c b d e qs ?_
      rw [hqs]
      rfl
    | comparing take m d =>
      -- In front of the comparison a chain ends, which does not go on with it.
      obtain ⟨qs, rfl⟩ := Reading.eq_append_comparator hpre
      have hstop : d.continues c = false := h qs m d a c b post (by simp)
      simp [Reading.run_cons, Reading.next, hstop]
    | _ => simp [Reading.run_cons, Reading.next]

/-- A stream without comparisons that has a truth value is one, or begins with two that are combined. -/
theorem combination_of_value? {ps : List Part} (h : IsCompareless ps) (hx : value? ps = some x) :
    ps = [.truth x] ∨ ∃ a k b post, ps = [Part.truth a, .connective k, .truth b] ++ post := by
  rcases ps with _ | ⟨p, ps⟩
  · cases hx
  cases p with
  | number v =>
    have hx : ((Reading.number id v).run ps).bind Reading.result = some x := hx
    obtain ⟨c, w, qs, rfl⟩ := Reading.comparison_follows hx
    exact absurd rfl (h [] v c w qs)
  | comparator _ | connective _ => cases hx
  | truth a =>
    rcases ps with _ | ⟨p, ps⟩
    · exact Or.inl (by cases hx; rfl)
    cases p with
    | number _ | comparator _ | truth _ => cases hx
    | connective k =>
      rcases ps with _ | ⟨p, ps⟩
      · cases hx
      cases p with
      | number v =>
        have hx : ((Reading.number (k.holds a) v).run ps).bind Reading.result = some x := hx
        obtain ⟨c, w, qs, rfl⟩ := Reading.comparison_follows hx
        exact absurd rfl (h [.truth a, .connective k] v c w qs)
      | comparator _ | connective _ => cases hx
      | truth b => exact Or.inr ⟨a, k, b, ps, rfl⟩

/-- The first two truth values of a stream without comparisons are read as their combination is. -/
theorem value?_combination (h : IsCompareless (pre ++ ([Part.truth x, .connective k, .truth y] ++ post)))
    (hfirst : pre ≠ [] → ∀ a k' b rest, pre ++ ([Part.truth x, .connective k, .truth y] ++ post) ≠
      [Part.truth a, .connective k', .truth b] ++ rest) :
    value? (pre ++ ([Part.truth x, .connective k, .truth y] ++ post)) =
      value? (pre ++ ([Part.truth (k.holds x y)] ++ post)) := by
  by_cases hpre : pre = []
  · rw [hpre]
    rfl
  -- Elsewhere than at the start nothing is combined in a stream that has a truth value.
  have hnone : value? (pre ++ ([Part.truth x, .connective k, .truth y] ++ post)) = none := by
    refine Option.eq_none_iff_forall_ne_some.mpr fun z hz => ?_
    rcases combination_of_value? h hz with hone | ⟨a, k', b, rest, htwo⟩
    · have hlength := congrArg List.length hone
      simp only [List.length_append, List.length_cons, List.length_nil] at hlength
      omega
    · exact hfirst hpre a k' b rest htwo
  have hsame : (value? (pre ++ ([Part.truth x, .connective k, .truth y] ++ post))).isSome =
      (value? (pre ++ ([Part.truth (k.holds x y)] ++ post))).isSome := by
    simp only [value?, Reading.run_append]
    cases (Reading.operand id).run pre with
    | none => rfl
    | some r =>
      cases r with
      | operand take =>
        have hshape : (Reading.truth (k.holds (take x) y)).shape = (Reading.truth (take (k.holds x y))).shape := rfl
        exact Reading.isSome_result_of_shape hshape post
      | _ => rfl
  rw [hnone] at hsame ⊢
  exact (Option.isNone_iff_eq_none.mp (Option.isSome_eq_false_iff.mp hsame.symm)).symm

end Steps
end Clause
end Reckoner
