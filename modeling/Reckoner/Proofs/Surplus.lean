import Reckoner.Proofs.Brackets

/-!
# No operand is lost

The surplus of a stream is the number of its operands less the number of the tokens that part two of them. No
contraction lowers it (`Engine.surplus_of_fire`), and a single token has a surplus of at most one. So a stream
with more operands than its operators and commas can part never reduces to a token
(`Engine.reduce_ne_of_surplus`).
-/

namespace Reckoner

/-! ### The surplus of a stream -/

/-- An operand counts one, and what parts two operands takes one away. -/
def Category.surplus : Category → Int
  | .numeric | .string | .logical | .identifier => 1
  | .operator | .comparator | .combinator | .comma => -1
  | .grouping | .function => 0

theorem Category.surplus_le_one (c : Category) : c.surplus ≤ 1 := by
  cases c <;> decide

namespace Stream

/-- The operands of a stream less the tokens that part operands. -/
def surplus : Stream → Int
  | [] => 0
  | t :: ts => t.category.surplus + surplus ts

@[simp] theorem surplus_nil : surplus [] = 0 := rfl

@[simp] theorem surplus_cons (t : Token) (ts : Stream) : surplus (t :: ts) = t.category.surplus + surplus ts := rfl

@[simp] theorem surplus_append (xs ys : Stream) : surplus (xs ++ ys) = surplus xs + surplus ys := by
  induction xs with
  | nil => simp
  | cons t xs ih => rw [List.cons_append, surplus_cons, surplus_cons, ih, Int.add_assoc]

@[simp] theorem surplus_wrap (body : Stream) : surplus body.wrap = surplus body := by
  simp [wrap, Token.opening, Token.closing, Category.surplus]

end Stream

/-! ### Contractions -/

section Steps
variable {step : Step} {head body span new : Stream} {settings : Settings} {nested : Stream → Traced Token}

theorem Redex.surplus_le_one (h : Redex step span) : span.surplus ≤ 1 := by
  cases h with
  | operation hl ho hr => rcases ho with ho | ho <;> simp [hl, ho, hr, Category.surplus]
  | texts hl ho hr => simp [hl, ho, hr, Category.surplus]
  | combination hl ho hr => simp [hl, ho, hr, Category.surplus]
  | negation hm ht => simp [hm, ht, Category.surplus]
  | power hb ho hm ht => simp [hb, ho, hm, ht, Category.surplus]
  | product hl ho hm hr => simp [hl, ho, hm, hr, Category.surplus]
  | percentage ht ho => simp [ht, ho, Category.surplus]
  | range hl ho hm hu hr => simp [hl, ho, hm, hu, hr, Category.surplus]

theorem Redex.surplus_result (h : Redex step span)
    (hf : (Replacement.ofStep settings nested step span).outcome = .ok new) : new.surplus = 1 := by
  rcases h.result hf with ⟨t, rfl, ht | ht⟩ | ⟨l, o, m, u, r, rfl, rfl, hl, ho, hm, hu, hr⟩
  · simp [ht, Category.surplus]
  · simp [ht, Category.surplus]
  · simp [hl, ho, hm, hu, hr, Token.conjunction, Category.surplus]

theorem Replacement.issued_round (t : Token) (xs : Stream) :
    issued .round ([t] ++ xs.wrap) = (chunks xs).head?.getD [] :: (chunks xs)[1]?.toList := by
  simp only [issued, inside?_wrap]

/-- The call that rounds to places reduces each of its arguments that is there. -/
theorem Replacement.issued_roundTo {xs ys : Stream} {u : Token} (t : Token) (hxs : xs.IsFlat) (hu : u.category = .comma)
    (hys : ys.IsFlat) : (xs ≠ [] → xs ∈ issued .round ([t] ++ (xs ++ u :: ys).wrap)) ∧
      (ys ≠ [] → ys ∈ issued .round ([t] ++ (xs ++ u :: ys).wrap)) := by
  have hdelimiter : u.isDelimiter = true := by simp [Token.isDelimiter, hu]
  have hchunks : chunks (xs ++ u :: ys) = if xs = [] then chunks ys else xs :: chunks ys :=
    chunksAfter_delimiter hxs hdelimiter []
  rw [issued_round, hchunks]
  constructor
  · intro hx
    rw [if_neg hx]
    exact List.mem_cons_self ..
  · intro hy
    rw [chunks_flat hys hy]
    split <;> simp

theorem Replacement.issued_roundInt (t : Token) (xs : Stream) : issued .roundInt ([t] ++ xs.wrap) = [xs] := by
  simp only [issued, inside?_wrap, Option.toList_some]

theorem Replacement.issued_not (t : Token) (xs : Stream) : issued .not ([t] ++ xs.wrap) = [xs] := by
  have hne : xs.wrap ≠ [] := by simp [Stream.wrap]
  rw [issued, List.dropLast_append_of_ne_nil hne, dropLast_wrap]
  rfl

/-- A step that succeeds has reduced all the streams that it issues. -/
theorem Replacement.ok_of_issued (hf : (ofStep settings nested step span).outcome = .ok new) :
    ∀ u ∈ issued step span, ∃ t, (nested u).outcome = .ok t := by
  cases step with
  | round =>
    simp only [ofStep, round] at hf
    simp only [issued]
    split at hf
    · cases hf
    · rename_i tokens htokens
      rw [htokens]
      rw [Traced.outcome_bind] at hf
      obtain ⟨v, hv, hf⟩ := Outcome.bind_eq_ok hf
      refine List.forall_mem_cons.mpr ⟨⟨v, hv⟩, fun u hu => ?_⟩
      rw [Option.mem_toList.mp hu] at hf
      simp only [Traced.outcome_bind] at hf
      obtain ⟨t, ht, -⟩ := Outcome.bind_eq_ok hf
      exact ⟨t, ht⟩
  | roundInt =>
    simp only [ofStep, roundInt] at hf
    simp only [issued]
    split at hf
    · cases hf
    · rename_i tokens htokens
      rw [htokens]
      rw [Traced.outcome_bind] at hf
      obtain ⟨v, hv, -⟩ := Outcome.bind_eq_ok hf
      exact fun u hu => ⟨v, by rw [List.mem_singleton.mp hu, hv]⟩
  | not =>
    simp only [ofStep, Replacement.not, Traced.outcome_bind] at hf
    obtain ⟨v, hv, -⟩ := Outcome.bind_eq_ok hf
    exact fun u hu => ⟨v, by rw [List.mem_singleton.mp hu, hv]⟩
  | evaluateGroup =>
    simp only [ofStep, evaluateGroup, Traced.outcome_bind] at hf
    obtain ⟨v, hv, -⟩ := Outcome.bind_eq_ok hf
    exact fun u hu => ⟨v, by rw [List.mem_singleton.mp hu, hv]⟩
  | _ =>
    intro u hu
    cases hu

variable (hnested : ∀ u t, (nested u).outcome = .ok t → u.surplus ≤ t.category.surplus)
include hnested

/-- What a step on brackets reduces has a surplus of at most one. -/
theorem Replacement.surplus_of_issued (hf : (ofStep settings nested step span).outcome = .ok new) {u : Stream}
    (hu : u ∈ issued step span) : u.surplus ≤ 1 := by
  obtain ⟨t, ht⟩ := ok_of_issued hf u hu
  exact Int.le_trans (hnested u t ht) t.category.surplus_le_one

/-- Brackets lose no operand, if nested reductions do not. -/
theorem Site.surplus_le (h : Site step head body)
    (hf : (Replacement.ofStep settings nested step (head ++ body.wrap)).outcome = .ok new) :
    (head ++ body.wrap).surplus ≤ new.surplus := by
  have issued := fun {u} => @Replacement.surplus_of_issued step (head ++ body.wrap) new settings nested hnested hf u
  have number : (step = .round ∨ step = .roundInt ∨ step = .not) → body.surplus ≤ 1 → body.surplus ≤ new.surplus := by
    intro hstep hbody
    obtain ⟨t, rfl, ht⟩ := category_of_call hstep hf
    rcases ht with ht | ht <;> simpa [ht, Category.surplus] using hbody
  have hhead : (head ++ body.wrap).surplus = body.surplus := by
    rcases h.head_cases with ⟨rfl, -⟩ | ⟨t, rfl, ht, -⟩
    · simp
    · simp [ht, Category.surplus]
  rw [hhead]
  cases h with
  | @choose a b c u v _ hu _ hv _ =>
    have ha := a.category.surplus_le_one
    have hb := b.category.surplus_le_one
    have hc := c.category.surplus_le_one
    have hcomma : Category.comma.surplus = -1 := rfl
    have hbranch := (Except.ok.inj hf).symm
    simp only [Stream.surplus_cons, Stream.surplus_nil, hu, hv, hcomma]
    rw [hbranch]
    split
    · rw [Stream.surplus_cons, Stream.surplus_nil]
      omega
    · rw [Stream.surplus_cons, Stream.surplus_nil]
      omega
  | @round xs hxs =>
    refine number (Or.inl rfl) (issued ?_)
    rw [Replacement.issued_round, head_chunks hxs]
    exact List.mem_cons_self ..
  | @roundTo xs ys u hxs hu hys =>
    have hcomma : u.category.surplus = -1 := by
      rw [hu]
      rfl
    obtain ⟨hissued, hissued'⟩ := Replacement.issued_roundTo (.named "round") hxs hu hys
    -- An argument that is left out is not reduced, but it has no operand either.
    have hfirst : xs.surplus ≤ 1 := by
      by_cases hx : xs = []
      · simp [hx]
      · exact issued (hissued hx)
    have hsecond : ys.surplus ≤ 1 := by
      by_cases hy : ys = []
      · simp [hy]
      · exact issued (hissued' hy)
    refine number (Or.inl rfl) ?_
    rw [Stream.surplus_append, Stream.surplus_cons, hcomma]
    omega
  | roundUp _ | roundDown _ =>
    exact number (Or.inr (Or.inl rfl)) (issued (by rw [Replacement.issued_roundInt]; exact List.mem_singleton_self _))
  | not _ => exact number (Or.inr (Or.inr rfl)) (issued (by rw [Replacement.issued_not]; exact List.mem_singleton_self _))
  | group hxs =>
    rw [List.nil_append, ofStep_group] at hf
    obtain ⟨t, ht, rfl⟩ := Outcome.map_eq_ok hf
    simpa using hnested body t ht

end Steps

/-! ### Reductions -/

namespace Engine
variable {e : Engine} {depth : Int} {s : Stream} {t : Token}

/-- No contraction loses an operand, if nested reductions do not. -/
theorem surplus_of_fire (he : e.IsPlain) {nested : Stream → Traced Token}
    (hnested : ∀ u t, (nested u).outcome = .ok t → u.surplus ≤ t.category.surplus) {action : Action}
    {span new : Stream} (h : Reducible action span) (hfire : e.fire nested action span = .ok new) :
    span.surplus ≤ new.surplus := by
  obtain ⟨hout, -⟩ := e.ofAction_of_fire nested action hfire
  cases h with
  | call =>
    rw [he.table] at hout
    cases hout
  | site hsite => exact hsite.surplus_le hnested hout
  | redex hredex =>
    rw [hredex.surplus_result hout]
    exact hredex.surplus_le_one

/-- A token has no lower surplus than the stream that reduces to it. -/
theorem reduce_surplus (he : e.IsPlain) (h : (e.reduce depth s).outcome = .ok t) : s.surplus ≤ t.category.surplus := by
  -- The first induction is on the depths that are left, the second one on the contractions at a depth.
  induction hn : e.levels depth generalizing depth s t with
  | zero =>
    have hd : e.limit < depth := by
      unfold levels at hn
      omega
    rw [reduce_of_limit_lt hd] at h
    cases h
  | succ n ih =>
    have hd : depth ≤ e.limit := by
      unfold levels at hn
      omega
    have hnested : ∀ u t, (e.reduce (depth + 1) u).outcome = .ok t → u.surplus ≤ t.category.surplus := by
      intro u t hu
      refine ih hu ?_
      have := levels_of_le hd
      omega
    revert h
    refine reduce_induction (motive := fun s o => o = .ok t → s.surplus ≤ t.category.surplus) he.isStandard he.rounds hd
      ?nil ?single ?stuck ?step s
    case nil =>
      intro h
      rw [← Except.ok.inj h]
      simp [Category.surplus]
    case single =>
      intro u h
      rw [← Except.ok.inj h]
      simp
    case stuck =>
      intro s _ _ h
      cases h
    case step =>
      intro pre span post r _ hred ih h
      obtain ⟨new, hfire, h⟩ := Outcome.bind_eq_ok h
      have hnew := ih new hfire h
      have hspan := surplus_of_fire he hnested hred hfire
      simp only [Stream.surplus_append] at hnew ⊢
      omega

/-- A stream with more than one operand to spare does not reduce to a token. -/
theorem reduce_ne_of_surplus (he : e.IsPlain) (h : 2 ≤ s.surplus) : (e.reduce depth s).outcome ≠ .ok t := by
  intro hout
  have hle := reduce_surplus he hout
  have hone := t.category.surplus_le_one
  omega

end Engine
end Reckoner
