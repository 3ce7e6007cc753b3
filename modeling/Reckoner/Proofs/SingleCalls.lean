import Reckoner.Proofs.Registration

/-!
# Calls of single arguments

Where each shape of a signature takes one token, the arguments of a call are single tokens with commas between them
(`Rule.TakesSingles`). So no call begins inside of another one, and two calls in a stream are the same call or apart
(`RuleTable.TakesSingles.same_or_apart`).
-/

namespace Reckoner

/-- The matcher takes one token, at the start of a stream or anywhere. -/
def Matcher.TakesOne (m : Matcher) : Prop := m.least = 1 ∧ m.greatest = some 1

/-- The rule calls a function whose arguments are single tokens. -/
inductive Rule.TakesSingles : Rule → Prop
  | intro (name : String) {ms : List Matcher} : (∀ m ∈ ms, m.TakesOne) →
      TakesSingles ⟨.call name (ms.intersperse .comma), .call name⟩

/-- All functions have single arguments, and one rule calls each of them. -/
structure RuleTable.TakesSingles (t : RuleTable) : Prop where
  singles : ∀ r ∈ t.functionRules, r.TakesSingles
  unique : ∀ r ∈ t.functionRules, ∀ r' ∈ t.functionRules, r.action = r'.action → r = r'

/-! ### Signatures of single tokens -/

/-- Every shape of a signature takes one token. -/
def UserFunction.TakesSingles (f : UserFunction) : Prop := ∀ s ∈ f.signature, ∃ m, s.matcher? = .ok m ∧ m.TakesOne

/-- What is known of the matchers of all shapes is known of the matchers between the commas. -/
theorem Shape.mapM_intersperse {P : Matcher → Prop} : ∀ {shapes : List Shape},
    (∀ s ∈ shapes, ∃ m, s.matcher? = .ok m ∧ P m) →
    ∃ ms : List Matcher, ms.length = shapes.length ∧ (∀ m ∈ ms, P m) ∧
      (shapes.intersperse (.category .comma)).mapM Shape.matcher? = .ok (ms.intersperse .comma)
  | [], _ => ⟨[], rfl, by simp, rfl⟩
  | [s], h => by
    obtain ⟨m, hm, hone⟩ := h s (by simp)
    exact ⟨[m], rfl, by simpa using hone, by simp [hm]⟩
  | s :: s' :: shapes, h => by
    obtain ⟨⟨m, hm, hone⟩, hrest⟩ := List.forall_mem_cons.mp h
    obtain ⟨ms, hlen, hms, hmap⟩ := mapM_intersperse hrest
    obtain ⟨m', ms, rfl⟩ := List.exists_cons_of_length_eq_add_one hlen
    refine ⟨m :: m' :: ms, congrArg (· + 1) hlen, List.forall_mem_cons.mpr ⟨hone, hms⟩, ?_⟩
    have hcomma : Shape.matcher? (.category .comma) = .ok .comma := rfl
    rw [List.intersperse_cons_cons, List.mapM_cons, List.mapM_cons, hm, hcomma, hmap]
    rfl

/-- The pattern of a function has one matcher for each shape of the signature, with commas between them. -/
theorem UserFunction.exists_matchers {P : Matcher → Prop} {f : UserFunction} {p : Pattern}
    (h : ∀ s ∈ f.signature, ∃ m, s.matcher? = .ok m ∧ P m) (hp : f.pattern = .ok p) :
    ∃ ms : List Matcher, ms.length = f.signature.length ∧ (∀ m ∈ ms, P m) ∧ p = .call f.name (ms.intersperse .comma) := by
  obtain ⟨ms, hlen, hms, hmap⟩ := Shape.mapM_intersperse h
  obtain ⟨arguments, harguments, hp⟩ := Outcome.bind_eq_ok hp
  obtain rfl : ms.intersperse .comma = arguments := Except.ok.inj (hmap.symm.trans harguments)
  exact ⟨ms, hlen, hms, (Except.ok.inj hp).symm⟩

/-- The pattern of a function of single arguments is that of a rule of such a call. -/
theorem UserFunction.TakesSingles.rule {f : UserFunction} {p : Pattern} (h : f.TakesSingles) (hp : f.pattern = .ok p) :
    Rule.TakesSingles ⟨p, .call f.name⟩ := by
  obtain ⟨ms, -, hms, rfl⟩ := exists_matchers h hp
  exact .intro f.name hms

/-! ### Inside of a call -/

/-- No name of a function is in front of an opening bracket, nor at the end. -/
def Stream.IsUncalled : Stream → Prop
  | [] => True
  | t :: ts => (t.category = .function → ∃ u ∈ ts.head?, u ≠ Token.opening) ∧ IsUncalled ts

theorem Stream.IsUncalled.cons {t : Token} {ts : Stream} (h : ts.IsUncalled) (ht : t.category ≠ .function) :
    IsUncalled (t :: ts) :=
  ⟨fun hc => absurd hc ht, h⟩

theorem Stream.isUncalled_closing : IsUncalled [Token.closing] :=
  .cons trivial (by simp [Token.closing])

theorem Stream.IsUncalled.right {xs ys : Stream} (h : IsUncalled (xs ++ ys)) : ys.IsUncalled := by
  induction xs with
  | nil => exact h
  | cons t xs ih => exact ih h.2

namespace Pattern
variable {ms : List Matcher} {ts : Stream}

theorem determined_of_takesOne : ∀ {p : Pattern}, (∀ m ∈ p, m.TakesOne) → p.Determined
  | [], _ => trivial
  | m :: p, h => by
    obtain ⟨⟨hl, hg⟩, hrest⟩ := List.forall_mem_cons.mp h
    exact ⟨Or.inl (by rw [hl, hg]), determined_of_takesOne hrest⟩

theorem takesOne_of_mem_intersperse : ∀ {ms : List Matcher}, (∀ m ∈ ms, m.TakesOne) →
    ∀ m ∈ ms.intersperse .comma, m.TakesOne
  | [], _ => by simp
  | [k], h => by simpa using h
  | k :: k' :: ms, h => by
    obtain ⟨hk, hrest⟩ := List.forall_mem_cons.mp h
    rw [List.intersperse_cons_cons]
    exact List.forall_mem_cons.mpr ⟨hk, List.forall_mem_cons.mpr ⟨⟨rfl, rfl⟩, takesOne_of_mem_intersperse hrest⟩⟩

/-- Behind the opening bracket of a call stands no other call: an argument is followed by a comma or by the closing
    bracket. -/
theorem isUncalled_of_parses : ∀ {ms : List Matcher} {body : Stream}, (∀ m ∈ ms, m.TakesOne) →
    Parses (ms.intersperse .comma) body → Stream.IsUncalled (body ++ [Token.closing])
  | [], body, _, h => by
    rw [parses_nil.mp h]
    exact Stream.isUncalled_closing
  | [k], body, hms, h => by
    obtain ⟨hl, hg⟩ := hms k (by simp)
    obtain ⟨t, rest, rfl, -, hrest⟩ := (parses_single hl hg).mp h
    rw [parses_nil.mp hrest]
    exact ⟨fun _ => ⟨_, rfl, by simp [Token.opening, Token.closing]⟩, Stream.isUncalled_closing⟩
  | k :: k' :: ms, body, hms, h => by
    obtain ⟨⟨hl, hg⟩, hrest⟩ := List.forall_mem_cons.mp hms
    rw [List.intersperse_cons_cons, parses_single hl hg] at h
    obtain ⟨t, rest, rfl, -, h⟩ := h
    obtain ⟨u, rest, rfl, hu, h⟩ := parses_comma.mp h
    have hne : u ≠ Token.opening := by
      rintro rfl
      cases hu
    exact ⟨fun _ => ⟨u, rfl, hne⟩, (isUncalled_of_parses hrest h).cons (by simp [hu])⟩

end Pattern

/-! ### Two calls of a stream -/

namespace Rule.TakesSingles
variable {r : Rule} {span pre post : Stream}

theorem parses (h : r.TakesSingles) (hp : r.pattern.Parses span) : ∃ name body, r.action = .call name ∧
    span = [.named name] ++ Stream.wrap body ∧ Stream.IsUncalled (Token.opening :: (body ++ [Token.closing])) := by
  cases h with
  | intro name hms =>
    obtain ⟨body, rfl, hbody⟩ := Pattern.parses_call.mp hp
    exact ⟨name, body, rfl, rfl, (Pattern.isUncalled_of_parses hms hbody).cons (by simp [Token.opening])⟩

theorem determined (h : r.TakesSingles) : r.pattern.Determined := by
  cases h with
  | intro name hms =>
    refine Pattern.determined_of_call (Pattern.determined_of_takesOne fun m hm => ?_)
    rcases List.mem_append.mp hm with hm | hm
    · exact Pattern.takesOne_of_mem_intersperse hms m hm
    · rw [List.mem_singleton.mp hm]
      exact ⟨rfl, rfl⟩

theorem find?_ne_none (h : r.TakesSingles) (hp : r.pattern.Parses span) (pre post : Stream) :
    r.pattern.find? (pre ++ (span ++ post)) ≠ none := by
  have hdetermined := h.determined
  cases h with
  | intro name hms => exact Pattern.find?_ne_none (by simp [Pattern.call]) rfl hdetermined hp pre post

end Rule.TakesSingles

namespace RuleTable.TakesSingles
variable {t : RuleTable} {r₁ r₂ : Rule} {pre₁ span₁ post₁ pre₂ span₂ post₂ : Stream} (h : t.TakesSingles)
  (hr₁ : r₁ ∈ t.functionRules) (hr₂ : r₂ ∈ t.functionRules)
  (hp₁ : r₁.pattern.Parses span₁) (hp₂ : r₂.pattern.Parses span₂)
include h hr₁ hr₂ hp₁ hp₂

/-- Calls that begin at the same place are the same. -/
theorem same (hs : span₁ ++ post₁ = span₂ ++ post₂) : r₁ = r₂ ∧ span₁ = span₂ ∧ post₁ = post₂ := by
  obtain ⟨name₁, body₁, hname₁, hspan₁, -⟩ := (h.singles r₁ hr₁).parses hp₁
  obtain ⟨name₂, body₂, hname₂, hspan₂, -⟩ := (h.singles r₂ hr₂).parses hp₂
  have hname : name₁ = name₂ := by
    rw [hspan₁, hspan₂] at hs
    simpa [Token.named] using (List.cons.inj hs).1
  obtain rfl : r₁ = r₂ := h.unique r₁ hr₁ r₂ hr₂ (by rw [hname₁, hname₂, hname])
  have hdetermined := (h.singles r₁ hr₁).determined
  have htaken₁ := Pattern.prefix?_of_parses hdetermined hp₁ post₁
  rw [hs, Pattern.prefix?_of_parses hdetermined hp₂ post₂] at htaken₁
  obtain rfl : span₂ = span₁ := Option.some.inj htaken₁
  exact ⟨rfl, rfl, List.append_cancel_left hs⟩

/-- A call that begins behind the start of another one begins behind its end. -/
theorem apart {front : Stream} (hfront : front ≠ []) (hs : span₁ ++ post₁ = front ++ (span₂ ++ post₂)) :
    ∃ mid, front = span₁ ++ mid ∧ post₁ = mid ++ (span₂ ++ post₂) := by
  rcases List.append_eq_append_iff.mp hs with ⟨mid, hmid, hpost⟩ | ⟨back, hspan, hback⟩
  · exact ⟨mid, hmid, hpost⟩
  cases back with
  | nil =>
    rw [List.append_nil] at hspan
    exact ⟨[], by rw [List.append_nil, hspan], hback.symm⟩
  | cons u back =>
    -- The second name would be called inside of the first call.
    obtain ⟨name₁, body₁, -, hspan₁, huncalled⟩ := (h.singles r₁ hr₁).parses hp₁
    obtain ⟨name₂, body₂, -, hspan₂, -⟩ := (h.singles r₂ hr₂).parses hp₂
    obtain ⟨x, front, rfl⟩ := List.exists_cons_of_ne_nil hfront
    have hinside : Token.opening :: (body₁ ++ [Token.closing]) = front ++ u :: back :=
      (List.cons.inj (hspan₁.symm.trans hspan)).2
    rw [hinside] at huncalled
    rw [hspan₂] at hback
    obtain ⟨hu, hback⟩ := List.cons.inj hback
    obtain ⟨v, hv, hne⟩ := huncalled.right.1 (by rw [← hu]; rfl)
    cases back with
    | nil => cases hv
    | cons w back =>
      obtain rfl : w = v := Option.some.inj hv
      exact absurd (List.cons.inj hback).1.symm hne

/-- Two calls of a stream are the same, or one of them ends before the other one begins. -/
theorem same_or_apart (hs : pre₁ ++ (span₁ ++ post₁) = pre₂ ++ (span₂ ++ post₂)) :
    (r₁ = r₂ ∧ pre₁ = pre₂ ∧ span₁ = span₂ ∧ post₁ = post₂) ∨
      (∃ mid, pre₂ = pre₁ ++ (span₁ ++ mid) ∧ post₁ = mid ++ (span₂ ++ post₂)) ∨
      ∃ mid, pre₁ = pre₂ ++ (span₂ ++ mid) ∧ post₂ = mid ++ (span₁ ++ post₁) := by
  rcases List.append_eq_append_iff.mp hs with ⟨front, hpre, hspan⟩ | ⟨front, hpre, hspan⟩
  · by_cases hnil : front = []
    · subst hnil
      obtain ⟨hr, hspans, hpost⟩ := h.same hr₁ hr₂ hp₁ hp₂ hspan
      exact Or.inl ⟨hr, by rw [hpre, List.append_nil], hspans, hpost⟩
    · obtain ⟨mid, rfl, hpost⟩ := h.apart hr₁ hr₂ hp₁ hp₂ hnil hspan
      exact Or.inr (Or.inl ⟨mid, hpre, hpost⟩)
  · by_cases hnil : front = []
    · subst hnil
      obtain ⟨hr, hspans, hpost⟩ := h.same hr₁ hr₂ hp₁ hp₂ hspan.symm
      exact Or.inl ⟨hr, by rw [hpre, List.append_nil], hspans, hpost⟩
    · obtain ⟨mid, rfl, hpost⟩ := h.apart hr₂ hr₁ hp₂ hp₁ hnil hspan
      exact Or.inr (Or.inr ⟨mid, hpre, hpost⟩)

end RuleTable.TakesSingles
end Reckoner
