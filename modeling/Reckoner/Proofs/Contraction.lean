import Reckoner.Proofs.StandardRules
import Reckoner.Reduction.Engine

/-!
# A single contraction

What a contraction does to the stream (`Engine.fire`), and what the steps put in place of the spans that the
standard rules take. A step on brackets uses a nested reduction only on parts of its span (`ofAction_congr`).
-/

namespace Reckoner

/-! ### Outcomes -/

theorem Outcome.bind_eq_ok {α β : Type} {o : Outcome α} {f : α → Outcome β} {b : β} (h : o.bind f = .ok b) :
    ∃ a, o = .ok a ∧ f a = .ok b := by
  cases o with
  | error e => cases h
  | ok a => exact ⟨a, rfl, h⟩

theorem Outcome.map_eq_ok {α β : Type} {o : Outcome α} {f : α → β} {b : β} (h : o.map f = .ok b) :
    ∃ a, o = .ok a ∧ f a = b := by
  cases o with
  | error e => cases h
  | ok a => exact ⟨a, rfl, Except.ok.inj h⟩

theorem Outcome.bind_eq_ok_iff {α β : Type} {o : Outcome α} {f : α → Outcome β} {b : β} :
    o.bind f = .ok b ↔ ∃ a, o = .ok a ∧ f a = .ok b := by
  refine ⟨bind_eq_ok, ?_⟩
  rintro ⟨a, rfl, h⟩
  exact h

theorem Outcome.map_eq_ok_iff {α β : Type} {o : Outcome α} {f : α → β} {b : β} :
    o.map f = .ok b ↔ ∃ a, o = .ok a ∧ f a = b := by
  refine ⟨map_eq_ok, ?_⟩
  rintro ⟨a, rfl, rfl⟩
  rfl

/-- What is given only under a condition is given if the condition holds. -/
theorem Outcome.ite_eq_ok_iff {α : Type} {p : Prop} [Decidable p] {a b : α} {f : Failure} :
    (if p then .ok a else .error f : Outcome α) = .ok b ↔ p ∧ a = b := by
  by_cases hp : p <;> simp [hp]

theorem Outcome.bind_ok {α : Type} (o : Outcome α) : o.bind .ok = o := by
  cases o <;> rfl

theorem Outcome.bind_assoc {α β γ : Type} (o : Outcome α) (f : α → Outcome β) (g : β → Outcome γ) :
    (o.bind f).bind g = o.bind fun a => (f a).bind g := by
  cases o <;> rfl

/-- The order of two computations does not matter where both succeed. -/
theorem Outcome.bind_comm {α β γ : Type} {o : Outcome α} {o' : Outcome β} {f : α → β → Outcome γ} {c : γ}
    (h : (o.bind fun a => o'.bind fun b => f a b) = .ok c) : (o'.bind fun b => o.bind fun a => f a b) = .ok c := by
  obtain ⟨a, ha, hf⟩ := Outcome.bind_eq_ok h
  obtain ⟨b, hb, hf⟩ := Outcome.bind_eq_ok hf
  rw [ha, hb]
  exact hf

theorem Outcome.bind_congr {α β : Type} {o : Outcome α} {f g : α → Outcome β} (h : ∀ a, o = .ok a → f a = g a) :
    o.bind f = o.bind g := by
  cases o with
  | error e => rfl
  | ok a => exact h a rfl

theorem Outcome.mapM_congr {α β : Type} {g g' : α → Outcome β} : ∀ {as : List α}, (∀ a ∈ as, g a = g' a) →
    as.mapM g = as.mapM g'
  | [], _ => rfl
  | a :: as, h => by
    obtain ⟨ha, has⟩ := List.forall_mem_cons.mp h
    rw [List.mapM_cons, List.mapM_cons, ha, mapM_congr has]

/-- Two computations that agree in each of their steps, but for one failure, agree but for this failure. -/
theorem Outcome.bind_agree {α β : Type} {o o' : Outcome α} {g g' : α → Outcome β} {f : Failure} (h : o = .error f ∨ o = o')
    (hg : ∀ a, g a = .error f ∨ g a = g' a) : o.bind g = .error f ∨ o.bind g = o'.bind g' := by
  rcases h with rfl | rfl
  · exact Or.inl rfl
  · cases o with
    | error f' => exact Or.inr rfl
    | ok a => exact hg a

theorem Outcome.map_agree {α β : Type} {o o' : Outcome α} {g : α → β} {f : Failure} (h : o = .error f ∨ o = o') :
    o.map g = .error f ∨ o.map g = o'.map g := by
  rcases h with rfl | rfl
  · exact Or.inl rfl
  · exact Or.inr rfl

theorem Traced.mem_events_bind {α β : Type} {x : Traced α} {f : α → Traced β} {ev : Event}
    (h : ev ∈ (x >>= f).events) : ev ∈ x.events ∨ ∃ a, ev ∈ (f a).events := by
  simp only [bind, Traced.andThen] at h
  split at h
  · rcases List.mem_append.mp h with h | h
    · exact Or.inl h
    · exact Or.inr ⟨_, h⟩
  · exact Or.inl h

/-! ### Spans of a stream -/

namespace Stream
variable (pre span post new : Stream)

theorem place_of_le {length n : Nat} (h : n ≤ length) : place length (n : Int) = n := by
  have : ¬ (n : Int) < 0 := by omega
  simp [place, this, h]

theorem between_append : between (pre ++ (span ++ post)) pre.length (pre.length + span.length) = span := by
  rw [between, ← List.append_assoc, ← List.length_append, List.take_left, List.drop_left]

theorem without_append : without (pre ++ (span ++ post)) pre.length (pre.length + span.length) = pre ++ post := by
  rw [without, Nat.max_eq_right (Nat.le_add_right ..), List.take_left, ← List.append_assoc, ← List.length_append,
    List.drop_left]

theorem insertAt_append : insertAt (pre ++ post) pre.length new = pre ++ (new ++ post) := by
  rw [insertAt, List.take_left, List.drop_left, List.append_assoc]

end Stream

/-! ### The effect on the stream -/

namespace Engine
variable (e : Engine) (nested : Stream → Traced Token) (action : Action)

/-- What an action puts in place of a span, unless an integer of the span or of the replacement is too long. -/
def fire (span : Stream) : Outcome Stream :=
  (Replacement.ofAction e.settings nested e.table action span).outcome.bind fun new =>
    if span.isWritable && new.isWritable then .ok new else .error .longInteger

variable {pre span post new : Stream}

theorem contract_of_ok (h : (Replacement.ofAction e.settings nested e.table action span).outcome = .ok new) :
    e.contract nested (pre ++ (span ++ post)) pre.length span.length action = (pre ++ (new ++ post),
      ⟨(Replacement.ofAction e.settings nested e.table action span).events,
        if span.isWritable && new.isWritable then .ok () else .error .longInteger⟩) := by
  have hlo := @Stream.place_of_le (pre ++ (span ++ post)).length pre.length (by simp)
  have hhi := @Stream.place_of_le (pre ++ (span ++ post)).length (pre.length + span.length) (by simp)
  have hat := @Stream.place_of_le (pre ++ post).length pre.length (by simp)
  rw [Int.natCast_add] at hhi
  simp only [contract, hlo, hhi, Stream.between_append, Stream.without_append, hat, Stream.insertAt_append, h]

theorem contract_of_error {f : Failure}
    (h : (Replacement.ofAction e.settings nested e.table action span).outcome = .error f) :
    e.contract nested (pre ++ (span ++ post)) pre.length span.length action =
      (pre ++ post, ⟨(Replacement.ofAction e.settings nested e.table action span).events, .error f⟩) := by
  have hlo := @Stream.place_of_le (pre ++ (span ++ post)).length pre.length (by simp)
  have hhi := @Stream.place_of_le (pre ++ (span ++ post)).length (pre.length + span.length) (by simp)
  rw [Int.natCast_add] at hhi
  simp only [contract, hlo, hhi, Stream.between_append, Stream.without_append, h]

theorem contract_outcome (pre span post : Stream) :
    (e.contract nested (pre ++ (span ++ post)) pre.length span.length action).2.outcome =
      (e.fire nested action span).map fun _ => () := by
  cases h : (Replacement.ofAction e.settings nested e.table action span).outcome with
  | error f =>
    rw [contract_of_error e nested action h, fire, h]
    rfl
  | ok new =>
    rw [contract_of_ok e nested action h, fire, h]
    dsimp only [Except.bind]
    split <;> rfl

theorem contract_events (pre span post : Stream) :
    (e.contract nested (pre ++ (span ++ post)) pre.length span.length action).2.events =
      (Replacement.ofAction e.settings nested e.table action span).events := by
  cases h : (Replacement.ofAction e.settings nested e.table action span).outcome with
  | error f => rw [contract_of_error e nested action h]
  | ok new => rw [contract_of_ok e nested action h]

theorem ofAction_of_fire (h : e.fire nested action span = .ok new) :
    (Replacement.ofAction e.settings nested e.table action span).outcome = .ok new ∧
      span.isWritable = true ∧ new.isWritable = true := by
  obtain ⟨given, hgiven, hw⟩ := Outcome.bind_eq_ok h
  split at hw
  · rename_i hboth
    rw [← Except.ok.inj hw]
    exact ⟨hgiven, Bool.and_eq_true_iff.mp hboth⟩
  · cases hw

theorem contract_stream (pre post : Stream) (h : e.fire nested action span = .ok new) :
    (e.contract nested (pre ++ (span ++ post)) pre.length span.length action).1 = pre ++ (new ++ post) := by
  rw [contract_of_ok e nested action (ofAction_of_fire e nested action h).1]

end Engine

/-! ### What the steps put in place -/

open Replacement

section Results
variable {settings : Settings} {nested : Stream → Traced Token} {step : Step} {head body span new : Stream}

theorem Operation.category_cases (op : Operation) : op.category = .numeric ∨ op.category = .logical := by
  cases op <;> simp [Operation.category]

/-- An operation gives a number or a truth value. -/
theorem Operation.category_token {op : Operation} {v w : Value} {t : Token} (h : op.token v w = .ok t) :
    t.category = .numeric ∨ t.category = .logical := by
  obtain ⟨u, -, rfl⟩ := Outcome.map_eq_ok h
  exact op.category_cases

/-- A redex is replaced by a number or a truth value, or it is a range and is expanded. -/
theorem Redex.result (h : Redex step span) (hf : (ofStep settings nested step span).outcome = .ok new) :
    (∃ t, new = [t] ∧ (t.category = .numeric ∨ t.category = .logical)) ∨
      ∃ l o m u r, span = [l, o, m, u, r] ∧ new = [l, o, m, .conjunction, m, u, r] ∧ l.category = .numeric ∧
        o.category = .comparator ∧ m.category = .numeric ∧ u.category = .comparator ∧ r.category = .numeric := by
  have operation : ∀ {l o r : Token}, (ofStep settings nested .apply [l, o, r]).outcome = .ok new →
      ∃ t, new = [t] ∧ (t.category = .numeric ∨ t.category = .logical) := by
    intro l o r hf
    obtain ⟨op, -, hf⟩ := Outcome.bind_eq_ok hf
    obtain ⟨t, ht, hf⟩ := Outcome.bind_eq_ok hf
    exact ⟨t, (Except.ok.inj hf).symm, Operation.category_token ht⟩
  cases h with
  | operation _ _ _ => exact Or.inl (operation hf)
  | texts _ _ _ => exact Or.inl (operation hf)
  | combination _ _ _ => exact Or.inl (operation hf)
  | negation _ ht =>
    obtain ⟨v, -, hf⟩ := Outcome.map_eq_ok hf
    exact Or.inl ⟨_, hf.symm, Or.inl ht⟩
  | power hb _ _ _ =>
    obtain ⟨_, -, hf⟩ := Outcome.bind_eq_ok hf
    obtain ⟨v, -, hf⟩ := Outcome.bind_eq_ok hf
    exact Or.inl ⟨_, (Except.ok.inj hf).symm, Or.inl hb⟩
  | product hl _ _ _ =>
    obtain ⟨_, -, hf⟩ := Outcome.bind_eq_ok hf
    obtain ⟨v, -, hf⟩ := Outcome.bind_eq_ok hf
    exact Or.inl ⟨_, (Except.ok.inj hf).symm, Or.inl hl⟩
  | percentage ht _ =>
    obtain ⟨v, -, hf⟩ := Outcome.map_eq_ok hf
    exact Or.inl ⟨_, hf.symm, Or.inl ht⟩
  | range hl ho hm hu hr => exact Or.inr ⟨_, _, _, _, _, rfl, (Except.ok.inj hf).symm, hl, ho, hm, hu, hr⟩

/-! ### Brackets -/

theorem inside?_wrap (t : Token) (body : Stream) : inside? ([t] ++ body.wrap) = some body := by
  simp [inside?, Stream.wrap]

theorem chunksAfter_flat {xs : Stream} (h : xs.IsFlat) : ∀ (front : Stream),
    chunksAfter front xs = if front ++ xs = [] then [] else [front ++ xs] := by
  induction xs with
  | nil => simp [chunksAfter]
  | cons t xs ih =>
    intro front
    have ht : t.isDelimiter = false := h t (by simp)
    simp [chunksAfter, ht, ih (fun u hu => h u (by simp [hu]))]

theorem chunksAfter_delimiter {xs ys : Stream} {u : Token} (h : xs.IsFlat) (hu : u.isDelimiter = true) :
    ∀ (front : Stream), chunksAfter front (xs ++ u :: ys) =
      if front ++ xs = [] then chunks ys else (front ++ xs) :: chunks ys := by
  induction xs with
  | nil => simp [chunksAfter, chunks, hu]
  | cons t xs ih =>
    intro front
    have ht : t.isDelimiter = false := h t (by simp)
    simp [chunksAfter, ht, ih (fun u hu => h u (by simp [hu]))]

theorem chunks_flat {xs : Stream} (h : xs.IsFlat) (hne : xs ≠ []) : chunks xs = [xs] := by
  rw [chunks, chunksAfter_flat h, List.nil_append, if_neg hne]

/-- Without delimiters the first run is all there is. -/
theorem head_chunks {xs : Stream} (h : xs.IsFlat) : (chunks xs).head?.getD [] = xs := by
  by_cases hne : xs = []
  · rw [hne]
    rfl
  · rw [chunks_flat h hne]
    rfl

theorem chunks_two {xs ys : Stream} {u : Token} (hxs : xs.IsFlat) (hu : u.isDelimiter = true) (hys : ys.IsFlat)
    (hx : xs ≠ []) (hy : ys ≠ []) : chunks (xs ++ u :: ys) = [xs, ys] := by
  rw [chunks, chunksAfter_delimiter hxs hu, List.nil_append, if_neg hx, chunks_flat hys hy]

theorem dropLast_wrap (body : Stream) : body.wrap.dropLast = Token.opening :: body := by
  rw [Stream.wrap, ← List.cons_append, List.dropLast_concat]

theorem ofStep_group (xs : Stream) : (ofStep settings nested .evaluateGroup xs.wrap).outcome =
    (nested xs).outcome.map ([·]) := by
  simp only [ofStep, evaluateGroup, dropLast_wrap, List.drop_one, List.tail_cons, Traced.outcome_bind]
  cases (nested xs).outcome <;> rfl

theorem ofStep_round {xs : Stream} (h : xs.IsFlat) :
    (ofStep settings nested .round ([.named "round"] ++ xs.wrap)).outcome = (nested xs).outcome.bind fun t =>
      (Rounding.toPlaces t.value settings.defaultPlaces settings.halfThreshold).map fun x => [⟨.numeric, .real x⟩] := by
  have hsecond : (chunks xs)[1]? = none := by
    by_cases hne : xs = []
    · rw [hne]
      rfl
    · rw [chunks_flat h hne]
      rfl
  simp only [ofStep, Replacement.round, inside?_wrap, head_chunks h, hsecond, Traced.outcome_bind, Traced.outcome_pure,
    Traced.outcome_ofOutcome]
  cases (nested xs).outcome with
  | error f => rfl
  | ok t =>
    dsimp only [Except.bind]
    cases Rounding.toPlaces t.value settings.defaultPlaces settings.halfThreshold <;> rfl

theorem ofStep_roundTo {xs ys : Stream} {u : Token} (hxs : xs.IsFlat) (hu : u.isDelimiter = true) (hys : ys.IsFlat)
    (hx : xs ≠ []) (hy : ys ≠ []) :
    (ofStep settings nested .round ([.named "round"] ++ (xs ++ u :: ys).wrap)).outcome =
      (nested xs).outcome.bind fun t => (nested ys).outcome.bind fun p =>
        (Rounding.toPlaces t.value p.value settings.halfThreshold).map fun x => [⟨.numeric, .real x⟩] := by
  have hchunks : chunks (xs ++ u :: ys) = [xs, ys] := chunks_two hxs hu hys hx hy
  simp only [ofStep, Replacement.round, inside?_wrap, hchunks, List.head?_cons, Option.getD_some, List.getElem?_cons_succ,
    List.getElem?_cons_zero, Traced.outcome_bind, Traced.outcome_pure, Traced.outcome_ofOutcome]
  cases (nested xs).outcome with
  | error f => rfl
  | ok t =>
    dsimp only [Except.bind]
    cases (nested ys).outcome with
    | error f => rfl
    | ok p =>
      dsimp only [Except.bind]
      cases Rounding.toPlaces t.value p.value settings.halfThreshold <;> rfl

theorem ofStep_roundInt (name : String) (xs : Stream) :
    (ofStep settings nested .roundInt ([.named name] ++ xs.wrap)).outcome = (nested xs).outcome.bind fun t =>
      (if name = "roundup" then Rounding.up t.value else Rounding.down t.value).map fun n => [⟨.numeric, .int n⟩] := by
  have hup : (([Token.named name] ++ xs.wrap).head?.map fun t => t.value.same (.text "roundup")).getD false =
      decide (name = "roundup") := by
    simp [Token.named, Value.same, Bool.beq_eq_decide_eq]
  simp only [ofStep, roundInt, inside?_wrap, hup, decide_eq_true_eq, Traced.outcome_bind, Traced.outcome_pure,
    Traced.outcome_ofOutcome]
  cases (nested xs).outcome with
  | error f => rfl
  | ok t =>
    dsimp only [Except.bind]
    cases (if name = "roundup" then Rounding.up t.value else Rounding.down t.value) <;> rfl

/-- Calls of the rounding functions and of the negation give a number or a truth value, whatever their span. -/
theorem category_of_call (hstep : step = .round ∨ step = .roundInt ∨ step = .not)
    (hf : (ofStep settings nested step span).outcome = .ok new) :
    ∃ t, new = [t] ∧ (t.category = .numeric ∨ t.category = .logical) := by
  rcases hstep with rfl | rfl | rfl
  · simp only [ofStep, Replacement.round] at hf
    split at hf
    · cases hf
    · rw [Traced.outcome_bind] at hf
      obtain ⟨v, -, hf⟩ := Outcome.bind_eq_ok hf
      split at hf
      · simp only [Traced.outcome_bind, Traced.outcome_pure] at hf
        obtain ⟨p, -, hf⟩ := Outcome.bind_eq_ok hf
        obtain ⟨_, -, hf⟩ := Outcome.bind_eq_ok hf
        obtain ⟨x, -, hf⟩ := Outcome.bind_eq_ok hf
        exact ⟨_, (Except.ok.inj hf).symm, Or.inl rfl⟩
      · simp only [Traced.outcome_bind, Traced.outcome_pure] at hf
        obtain ⟨_, -, hf⟩ := Outcome.bind_eq_ok hf
        obtain ⟨x, -, hf⟩ := Outcome.bind_eq_ok hf
        exact ⟨_, (Except.ok.inj hf).symm, Or.inl rfl⟩
  · simp only [ofStep, roundInt] at hf
    split at hf
    · cases hf
    · rw [Traced.outcome_bind] at hf
      obtain ⟨v, -, hf⟩ := Outcome.bind_eq_ok hf
      rw [Traced.outcome_bind] at hf
      obtain ⟨n, -, hf⟩ := Outcome.bind_eq_ok hf
      exact ⟨_, (Except.ok.inj hf).symm, Or.inl rfl⟩
  · simp only [ofStep, Replacement.not, Traced.outcome_bind] at hf
    obtain ⟨v, -, hf⟩ := Outcome.bind_eq_ok hf
    exact ⟨_, (Except.ok.inj hf).symm, Or.inr rfl⟩

/-- Brackets are replaced by a number or a truth value, by a branch of a choice, or by what is inside them
    reduces to. -/
theorem Site.result (h : Site step head body)
    (hf : (ofStep settings nested step (head ++ body.wrap)).outcome = .ok new) :
    ∃ t, new = [t] ∧ ((t.category = .numeric ∨ t.category = .logical) ∨
      (∃ a u b v c, body = [a, u, b, v, c] ∧ v.category = .comma ∧ t.isDelimiter = false ∧ (t = b ∨ t = c)) ∨
      (body.IsFlat ∧ (nested body).outcome = .ok t)) := by
  cases h with
  | @choose a b c u v _ _ hb hv hc =>
    refine ⟨_, (Except.ok.inj hf).symm, Or.inr (Or.inl ⟨a, u, b, v, c, rfl, hv, ?_⟩)⟩
    split
    · exact ⟨hb, Or.inl rfl⟩
    · exact ⟨hc, Or.inr rfl⟩
  | round _ =>
    obtain ⟨t, hnew, ht⟩ := category_of_call (Or.inl rfl) hf
    exact ⟨t, hnew, Or.inl ht⟩
  | roundTo _ _ _ =>
    obtain ⟨t, hnew, ht⟩ := category_of_call (Or.inl rfl) hf
    exact ⟨t, hnew, Or.inl ht⟩
  | roundUp _ =>
    obtain ⟨t, hnew, ht⟩ := category_of_call (Or.inr (Or.inl rfl)) hf
    exact ⟨t, hnew, Or.inl ht⟩
  | roundDown _ =>
    obtain ⟨t, hnew, ht⟩ := category_of_call (Or.inr (Or.inl rfl)) hf
    exact ⟨t, hnew, Or.inl ht⟩
  | not _ =>
    obtain ⟨t, hnew, ht⟩ := category_of_call (Or.inr (Or.inr rfl)) hf
    exact ⟨t, hnew, Or.inl ht⟩
  | group hxs =>
    rw [List.nil_append, ofStep_group] at hf
    obtain ⟨t, ht, rfl⟩ := Outcome.map_eq_ok hf
    exact ⟨t, rfl, Or.inr (Or.inr ⟨hxs, ht⟩)⟩

end Results

/-! ### Nested reductions -/

namespace Replacement
variable {settings : Settings} {n₁ n₂ : Stream → Traced Token} {step : Step} {span u : Stream}

/-- The streams that a step reduces in the course of replacing a span. -/
def issued (step : Step) (span : Stream) : List Stream :=
  match step with
  | .round =>
    match inside? span with
    | some tokens => (chunks tokens).head?.getD [] :: (chunks tokens)[1]?.toList
    | none => []
  | .roundInt => (inside? span).toList
  | .not => [span.dropLast.drop 2]
  | .evaluateGroup => [span.dropLast.drop 1]
  | _ => []

/-- A step depends on a reduction only by what it gives for the streams issued. -/
theorem ofStep_congr (h : ∀ u ∈ issued step span, n₁ u = n₂ u) :
    ofStep settings n₁ step span = ofStep settings n₂ step span := by
  cases step with
  | round =>
    simp only [issued] at h
    simp only [ofStep, round]
    split at h
    · rename_i tokens htokens
      rw [htokens]
      dsimp only
      rw [h _ (List.mem_cons_self ..)]
      congr 1
      funext v
      cases hsecond : (chunks tokens)[1]? with
      | none => rfl
      | some part =>
        dsimp only
        rw [h part (by simp [hsecond])]
    · rename_i hnone
      rw [hnone]
  | roundInt =>
    simp only [issued] at h
    simp only [ofStep, roundInt]
    cases htokens : inside? span with
    | none => rfl
    | some tokens =>
      dsimp only
      rw [h tokens (by simp [htokens])]
  | not =>
    simp only [ofStep, Replacement.not]
    rw [h _ (List.mem_singleton_self _)]
  | evaluateGroup =>
    simp only [ofStep, evaluateGroup]
    rw [h _ (List.mem_singleton_self _)]
  | _ => rfl

/-- The outcome of a step depends only on the outcomes for the streams issued. -/
theorem ofStep_outcome_congr (h : ∀ u ∈ issued step span, (n₁ u).outcome = (n₂ u).outcome) :
    (ofStep settings n₁ step span).outcome = (ofStep settings n₂ step span).outcome := by
  cases step with
  | round =>
    simp only [issued] at h
    simp only [ofStep, round]
    split at h
    · rename_i tokens htokens
      rw [htokens]
      dsimp only
      rw [Traced.outcome_bind, Traced.outcome_bind, h _ (List.mem_cons_self ..)]
      congr 1
      funext v
      cases hsecond : (chunks tokens)[1]? with
      | none => rfl
      | some part =>
        dsimp only
        rw [Traced.outcome_bind, Traced.outcome_bind, h part (by simp [hsecond])]
    · rename_i hnone
      rw [hnone]
  | roundInt =>
    simp only [issued] at h
    simp only [ofStep, roundInt]
    cases htokens : inside? span with
    | none => rfl
    | some tokens =>
      dsimp only
      rw [Traced.outcome_bind, Traced.outcome_bind, h tokens (by simp [htokens])]
  | not =>
    simp only [ofStep, Replacement.not, Traced.outcome_bind]
    rw [h _ (List.mem_singleton_self _)]
  | evaluateGroup =>
    simp only [ofStep, evaluateGroup, Traced.outcome_bind]
    rw [h _ (List.mem_singleton_self _)]
  | _ => rfl

theorem mem_chunksAfter : ∀ {ts front : Stream}, u ∈ chunksAfter front ts → u <:+: front ++ ts
  | [], front, h => by
    simp only [chunksAfter] at h
    split at h
    · cases h
    · rw [List.mem_singleton.mp h]
      simp
  | t :: ts, front, h => by
    have behind : u ∈ chunksAfter [] ts → u <:+: front ++ t :: ts := fun hu =>
      (mem_chunksAfter hu).trans ⟨front ++ [t], [], by simp⟩
    simp only [chunksAfter] at h
    split at h
    · split at h
      · exact behind h
      · rcases List.mem_cons.mp h with rfl | h
        · exact ⟨[], t :: ts, by simp⟩
        · exact behind h
    · simpa using mem_chunksAfter h

theorem mem_chunks {ts : Stream} (h : u ∈ chunks ts) : u <:+: ts := mem_chunksAfter h

theorem inside?_isInfix {tokens : Stream} (h : inside? span = some tokens) :
    tokens <:+: span ∧ tokens.length + 2 ≤ span.length := by
  match span, h with
  | a :: b :: rest, h =>
    simp only [inside?] at h
    split at h
    · cases h
    · rw [← Option.some.inj h]
      exact ⟨(List.dropLast_prefix rest).isInfix.trans ⟨[a, b], [], by simp⟩, by simp⟩

/-- Only proper parts of the span are reduced. -/
theorem issued_isInfix (hspan : 2 ≤ span.length) (h : u ∈ issued step span) :
    u <:+: span ∧ u.length + 2 ≤ span.length := by
  have dropped : ∀ k, 0 < k → span.dropLast.drop k <:+: span ∧ (span.dropLast.drop k).length + 2 ≤ span.length := by
    intro k hk
    refine ⟨(List.drop_suffix k _).isInfix.trans (List.dropLast_prefix span).isInfix, ?_⟩
    simp only [List.length_drop, List.length_dropLast]
    omega
  cases step with
  | round =>
    simp only [issued] at h
    split at h
    · rename_i tokens htokens
      obtain ⟨hin, hlen⟩ := inside?_isInfix htokens
      have part : u <:+: tokens := by
        rcases List.mem_cons.mp h with rfl | h
        · cases hhead : (chunks tokens).head? with
          | none => simp
          | some first => exact mem_chunks (List.mem_of_mem_head? hhead)
        · exact mem_chunks (List.mem_of_getElem? (Option.mem_toList.mp h))
      exact ⟨part.trans hin, by have := part.length_le; omega⟩
    · cases h
  | roundInt => exact inside?_isInfix (Option.mem_toList.mp h)
  | not =>
    rw [List.mem_singleton.mp h]
    exact dropped 2 (by omega)
  | evaluateGroup =>
    rw [List.mem_singleton.mp h]
    exact dropped 1 (by omega)
  | _ => cases h

/-- All that a step reports is reported by the reductions that it issues. -/
theorem mem_events {nested : Stream → Traced Token} {ev : Event}
    (h : ev ∈ (ofStep settings nested step span).events) : ∃ u ∈ issued step span, ev ∈ (nested u).events := by
  cases step with
  | round =>
    simp only [ofStep, round] at h
    simp only [issued]
    split at h
    · cases h
    · rename_i tokens htokens
      rw [htokens]
      rcases Traced.mem_events_bind h with h | ⟨v, h⟩
      · exact ⟨_, List.mem_cons_self .., h⟩
      · split at h
        · rename_i part hpart
          rcases Traced.mem_events_bind h with h | ⟨p, h⟩
          · exact ⟨part, by simp [hpart], h⟩
          · rcases Traced.mem_events_bind h with h | ⟨_, h⟩
            · cases h
            · rcases Traced.mem_events_bind h with h | ⟨_, h⟩ <;> cases h
        · rcases Traced.mem_events_bind h with h | ⟨_, h⟩
          · cases h
          · rcases Traced.mem_events_bind h with h | ⟨_, h⟩ <;> cases h
  | roundInt =>
    simp only [ofStep, roundInt] at h
    split at h
    · cases h
    · rename_i tokens htokens
      rcases Traced.mem_events_bind h with h | ⟨v, h⟩
      · exact ⟨tokens, Option.mem_toList.mpr htokens, h⟩
      · rcases Traced.mem_events_bind h with h | ⟨_, h⟩ <;> cases h
  | not =>
    rcases Traced.mem_events_bind h with h | ⟨_, h⟩
    · exact ⟨_, List.mem_singleton_self _, h⟩
    · cases h
  | evaluateGroup =>
    rcases Traced.mem_events_bind h with h | ⟨_, h⟩
    · exact ⟨_, List.mem_singleton_self _, h⟩
    · cases h
  | _ => cases h

end Replacement
end Reckoner
