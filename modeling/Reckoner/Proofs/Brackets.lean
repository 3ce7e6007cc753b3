import Reckoner.Proofs.Joining
import Reckoner.Proofs.Sites
import Reckoner.Proofs.Unfolding

/-!
# Brackets in any context

Under the standard rules, contractions of brackets commute. Two sites of a stream share no token, so that
either of them can be contracted first (`Contracts.diamond`), and a site whose step fails stays one until it is
reached (`Broken.of_contracts`). So contracting any site leaves what the stream reduces to as it was
(`Contracts.reduce_iff`), whatever stands around it.
-/

namespace Reckoner

/-- The engine has the standard rules and no user functions, and no limit of rounds. -/
structure Engine.IsPlain (e : Engine) : Prop where
  table : e.table = {}
  rounds : e.rounds = none

/-! ### Names of functions -/

namespace Stream

/-- Behind every name of a function comes an opening bracket or a token that is no delimiter. -/
def IsApplied : Stream → Prop
  | [] => True
  | t :: ts => (t.category = .function → ∃ u ∈ ts.head?, u = Token.opening ∨ u.isDelimiter = false) ∧ IsApplied ts

variable {pre span post xs ys : Stream} {t u : Token}

theorem isApplied_append (hx : xs.IsApplied) (hy : ys.IsApplied) : IsApplied (xs ++ ys) := by
  induction xs with
  | nil => exact hy
  | cons t xs ih =>
    refine ⟨fun ht => ?_, ih hx.2⟩
    obtain ⟨u, hu, hor⟩ := hx.1 ht
    cases xs with
    | nil => cases hu
    | cons v xs => exact ⟨u, hu, hor⟩

theorem isApplied_of_followed : ∀ {ts : Stream}, (∀ front t back, ts = front ++ t :: back → t.category = .function →
    ∃ u ∈ back.head?, u = Token.opening ∨ u.isDelimiter = false) → ts.IsApplied
  | [], _ => trivial
  | t :: ts, h => ⟨h [] t ts rfl, isApplied_of_followed fun front u back hts => h (t :: front) u back (by rw [hts]; rfl)⟩

theorem isApplied_of_forall {ts : Stream} (h : ∀ t ∈ ts, t.category ≠ .function) : ts.IsApplied :=
  isApplied_of_followed fun _ t _ hts hc => absurd hc (h t (by simp [hts]))

theorem isApplied_wrap {xs : Stream} (h : xs.IsApplied) : xs.wrap.IsApplied := by
  have hend : IsApplied [Token.closing] := isApplied_of_forall (by simp [Token.closing])
  have hbody : IsApplied (xs ++ [Token.closing]) := isApplied_append h hend
  exact ⟨fun hc => Category.noConfusion hc, hbody⟩

theorem isApplied_call {xs : Stream} (h : xs.IsApplied) (name : String) : IsApplied ([.named name] ++ xs.wrap) :=
  ⟨fun _ => ⟨Token.opening, rfl, Or.inl rfl⟩, isApplied_wrap h⟩

theorem IsApplied.right (h : IsApplied (xs ++ ys)) : ys.IsApplied := by
  induction xs with
  | nil => exact h
  | cons t xs ih => exact ih h.2

/-- Applied tokens do not end in the name of a function, which would take brackets behind it. -/
theorem IsApplied.leaves (h : xs.IsApplied) (head : Stream) : xs.Leaves head := by
  rintro - t ht ⟨name, -, rfl⟩
  obtain ⟨front, rfl⟩ := List.getLast?_eq_some_iff.mp ht
  obtain ⟨u, hu, -⟩ := h.right.1 rfl
  cases hu

/-- A token in front of a comma or a closing bracket is not the name of a function. -/
theorem IsApplied.category_ne (h : IsApplied (pre ++ t :: u :: post)) (hu : u.isDelimiter = true)
    (hopen : u ≠ Token.opening) : t.category ≠ .function := by
  intro ht
  obtain ⟨v, hv, hor⟩ := h.right.1 ht
  have huv : v = u := (Option.some.inj hv).symm
  subst huv
  rcases hor with hor | hor
  · exact hopen hor
  · rw [hu] at hor
    cases hor

/-- A span is replaced by a token that is neither a delimiter nor the name of a function. -/
theorem IsApplied.replace (h : IsApplied (pre ++ (span ++ post))) (ht : t.isDelimiter = false)
    (hf : t.category ≠ .function) : IsApplied (pre ++ ([t] ++ post)) := by
  induction pre with
  | nil => exact ⟨fun hc => absurd hc hf, h.right.right⟩
  | cons v pre ih =>
    refine ⟨fun hv => ?_, ih h.2⟩
    cases pre with
    | nil => exact ⟨t, rfl, Or.inr ht⟩
    | cons w pre => exact h.1 hv

end Stream

/-! ### Streams without delimiters -/

namespace Redex
variable {step : Step} {span new : Stream} {settings : Settings} {nested n₁ n₂ : Stream → Traced Token} {e : Engine}

/-- A redex depends neither on nested reductions nor on the functions of the table. -/
theorem fire_congr {u : RuleTable} (h : Redex step span) :
    Engine.fire { e with table := u } n₁ (.step step) span = e.fire n₂ (.step step) span := by
  cases h <;> rfl

theorem result_flat (h : Redex step span) (hf : (Replacement.ofStep settings nested step span).outcome = .ok new) :
    new ≠ [] ∧ new.IsFlat ∧ ∀ t ∈ new, t.category ≠ .function := by
  have each : ∀ t ∈ new, t.isDelimiter = false ∧ t.category ≠ .function := by
    intro t ht
    rcases h.result hf with ⟨u, rfl, hu | hu⟩ | ⟨l, o, m, u, r, -, rfl, hl, ho, hm, hu, hr⟩
    · simp [List.mem_singleton.mp ht, Token.isDelimiter, hu]
    · simp [List.mem_singleton.mp ht, Token.isDelimiter, hu]
    · simp only [List.mem_cons, List.not_mem_nil, or_false] at ht
      rcases ht with rfl | rfl | rfl | rfl | rfl | rfl | rfl <;>
        simp [Token.isDelimiter, Token.conjunction, hl, ho, hm, hu, hr]
  refine ⟨?_, fun t ht => (each t ht).1, fun t ht => (each t ht).2⟩
  rcases h.result hf with ⟨u, rfl, -⟩ | ⟨l, o, m, u, r, -, rfl, -⟩ <;> simp

end Redex

/-- What can be taken from a stream without delimiters is a redex. -/
theorem Reducible.redex_of_flat {action : Action} {pre span post : Stream} (h : Reducible action span)
    (hflat : Stream.IsFlat (pre ++ (span ++ post))) : ∃ step, action = .step step ∧ Redex step span := by
  have bracketed : ∀ {head body : Stream}, span = head ++ body.wrap → False := by
    intro head body hspan
    have : Token.opening.isDelimiter = false := hflat _ (by simp [hspan, Stream.wrap])
    cases this
  cases h with
  | call => exact (bracketed rfl).elim
  | site _ => exact (bracketed rfl).elim
  | redex hredex => exact ⟨_, rfl, hredex⟩

namespace Engine
variable {e : Engine} {depth depth' : Int} {s : Stream} {t : Token}

theorem IsPlain.isStandard (he : e.IsPlain) : e.table.IsStandard := he.table ▸ RuleTable.isStandard_default

theorem IsPlain.all (he : e.IsPlain) : e.table.all = Rule.standard := by
  rw [he.table]
  rfl

/-- A redex of a stream without delimiters leaves such a stream behind, and no name of a function at its end. -/
theorem flat_of_fire {nested : Stream → Traced Token} {step : Step} {pre span post new : Stream}
    (hredex : Redex step span) (hs : Stream.IsFlat (pre ++ (span ++ post)))
    (hfire : e.fire nested (.step step) span = .ok new) : Stream.IsFlat (pre ++ (new ++ post)) ∧
      ((∀ t ∈ (pre ++ (span ++ post)).getLast?, t.category ≠ .function) →
        ∀ t ∈ (pre ++ (new ++ post)).getLast?, t.category ≠ .function) := by
  obtain ⟨hne, hnew, hnames⟩ := hredex.result_flat (e.ofAction_of_fire nested _ hfire).1
  constructor
  · intro t ht
    rcases List.mem_append.mp ht with ht | ht
    · exact hs t (List.mem_append_left _ ht)
    rcases List.mem_append.mp ht with ht | ht
    · exact hnew t ht
    · exact hs t (List.mem_append_right _ (List.mem_append_right _ ht))
  · intro hlast t ht
    cases post with
    | nil =>
      rw [List.append_nil, List.getLast?_append_of_ne_nil _ hne] at ht
      exact hnames t (List.mem_of_getLast? ht)
    | cons u post =>
      have hback : (u :: post) ≠ [] := by simp
      rw [← List.append_assoc, List.getLast?_append_of_ne_nil _ hback] at ht hlast
      exact hlast t ht

/-- A stream without delimiters reduces in the same way at every depth within the limit, and under every table with the
    same matches in such streams. -/
theorem reduce_flat_congr (ht : e.table.IsStandard) {u : RuleTable} (hu : u.IsStandard)
    (hsame : ∀ ts : Stream, ts.IsFlat → Rule.firstMatch? u.all ts = Rule.firstMatch? e.table.all ts)
    (hrounds : e.rounds = none) (hd : depth ≤ e.limit) (hd' : depth' ≤ e.limit) (hs : s.IsFlat) :
    (e.reduce depth s).outcome = (Engine.reduce { e with table := u } depth' s).outcome := by
  let e' : Engine := { e with table := u }
  revert hs
  refine reduce_induction (motive := fun s o => s.IsFlat → o = (e'.reduce depth' s).outcome) ht hrounds hd
    ?nil ?single ?stuck ?step s
  case nil => exact fun _ => (@reduce_nil e' depth' hu hrounds hd').symm
  case single => exact fun t _ => (@reduce_single e' depth' hu hrounds hd' t).symm
  case stuck =>
    intro s hlen h hs
    exact (@reduce_stuck e' depth' s hu hrounds hd' hlen ((hsame s hs).trans h)).symm
  case step =>
    intro pre span post r h hred ih hs
    obtain ⟨step, haction, hredex⟩ := hred.redex_of_flat hs
    have hlen : 2 ≤ (pre ++ (span ++ post)).length := by
      have := hred.two_le
      simp only [List.length_append]
      omega
    rw [@reduce_match e' depth' _ _ _ _ _ _ hu hrounds hd' hlen ((hsame _ hs).trans h) rfl rfl]
    rw [haction] at ih ⊢
    have hfire : e'.fire (e'.reduce (depth' + 1)) (.step step) span = e.fire (e.reduce (depth + 1)) (.step step) span :=
      hredex.fire_congr
    rw [hfire]
    exact Outcome.bind_congr fun new hfire => ih new hfire (flat_of_fire hredex hs hfire).1

/-- A stream without delimiters does not reduce to a delimiter, nor to the name of a function if none is at its
    end. -/
theorem reduce_flat_result (he : e.IsPlain) (hd : depth ≤ e.limit) (hs : s.IsFlat)
    (hlast : ∀ t ∈ s.getLast?, t.category ≠ .function) (h : (e.reduce depth s).outcome = .ok t) :
    t.isDelimiter = false ∧ t.category ≠ .function := by
  revert hs hlast h
  refine reduce_induction (motive := fun s o => s.IsFlat → (∀ t ∈ s.getLast?, t.category ≠ .function) → o = .ok t →
    t.isDelimiter = false ∧ t.category ≠ .function) he.isStandard he.rounds hd ?nil ?single ?stuck ?step s
  case nil =>
    intro _ _ h
    rw [← Except.ok.inj h]
    exact ⟨rfl, by simp⟩
  case single =>
    intro u hs hlast h
    rw [← Except.ok.inj h]
    exact ⟨hs u (by simp), hlast u (by simp)⟩
  case stuck =>
    intro s _ _ _ _ h
    cases h
  case step =>
    intro pre span post r _ hred ih hs hlast h
    obtain ⟨step, haction, hredex⟩ := hred.redex_of_flat hs
    obtain ⟨new, hfire, h⟩ := Outcome.bind_eq_ok h
    have hnew := flat_of_fire hredex hs (haction ▸ hfire)
    exact ih new hfire hnew.1 (hnew.2 hlast) h

/-! ### Contractions of brackets -/

/-- A site of the stream is contracted, at the given depth. -/
inductive Contracts (e : Engine) (depth : Int) : Stream → Stream → Prop where
  | intro {step : Step} {pre head body new : Stream} (post : Stream) : Site step head body → pre.Leaves head →
      e.fire (e.reduce (depth + 1)) (.step step) (head ++ body.wrap) = .ok new →
      Contracts e depth (pre ++ ((head ++ body.wrap) ++ post)) (pre ++ (new ++ post))

/-- A site of the stream fails when it is contracted. -/
inductive Broken (e : Engine) (depth : Int) : Stream → Prop where
  | intro {step : Step} {pre head body : Stream} {f : Failure} (post : Stream) : Site step head body →
      pre.Leaves head → e.fire (e.reduce (depth + 1)) (.step step) (head ++ body.wrap) = .error f →
      Broken e depth (pre ++ ((head ++ body.wrap) ++ post))

variable {a b : Stream}

/-- What a site gives is a single token, neither a delimiter nor the name of a function. -/
theorem fire_site (he : e.IsPlain) {step : Step} {pre head body post new : Stream} (h : Site step head body)
    (hs : Stream.IsApplied (pre ++ ((head ++ body.wrap) ++ post)))
    (hfire : e.fire (e.reduce (depth + 1)) (.step step) (head ++ body.wrap) = .ok new) :
    ∃ t, new = [t] ∧ t.isDelimiter = false ∧ t.category ≠ .function := by
  obtain ⟨t, rfl, hres⟩ := h.result (e.ofAction_of_fire _ _ hfire).1
  refine ⟨t, rfl, ?_⟩
  rcases hres with (hc | hc) | ⟨a, u, b, v, c, rfl, hv, hd, hbranch⟩ | ⟨hflat, hout⟩
  · simp [Token.isDelimiter, hc]
  · simp [Token.isDelimiter, hc]
  · refine ⟨hd, ?_⟩
    rcases hbranch with rfl | rfl
    · refine @Stream.IsApplied.category_ne (pre ++ head ++ [.opening, a, u]) (c :: .closing :: post) t v ?_ ?_ ?_
      · simpa [Stream.wrap] using hs
      · simp [Token.isDelimiter, hv]
      · intro hopen
        rw [hopen] at hv
        cases hv
    · refine @Stream.IsApplied.category_ne (pre ++ head ++ [.opening, a, u, b, v]) post t .closing ?_ rfl ?_
      · simpa [Stream.wrap] using hs
      · simp [Token.opening, Token.closing]
  · have hd : depth + 1 ≤ e.limit := by
      refine Int.not_lt.mp fun hlt => ?_
      rw [reduce_of_limit_lt hlt] at hout
      cases hout
    refine reduce_flat_result he hd hflat (fun u hu => ?_) hout
    obtain ⟨front, rfl⟩ := List.getLast?_eq_some_iff.mp hu
    refine @Stream.IsApplied.category_ne (pre ++ head ++ .opening :: front) post u .closing ?_ rfl ?_
    · simpa [Stream.wrap] using hs
    · simp [Token.opening, Token.closing]

/-- The contraction of a site shortens the stream and keeps the names of functions in order. -/
theorem Contracts.keeps (he : e.IsPlain) (h : Contracts e depth s a) (hs : s.IsApplied) :
    a.IsApplied ∧ a.length < s.length := by
  cases h with
  | @intro step pre head body new post hsite _ hfire =>
    obtain ⟨t, rfl, hd, hf⟩ := fire_site he hsite hs hfire
    refine ⟨hs.replace hd hf, ?_⟩
    simp only [List.length_append, Stream.wrap, List.length_cons, List.length_nil]
    omega

theorem leaves_of_replace {pre head mid : Stream} {t : Token} (h : t.category ≠ .function)
    {span : Stream} (hl : Stream.Leaves (pre ++ (span ++ mid)) head) : Stream.Leaves (pre ++ ([t] ++ mid)) head := by
  intro hhead u hu
  cases mid with
  | nil =>
    rw [List.append_nil, List.getLast?_concat] at hu
    rintro ⟨name, -, hname⟩
    rw [← Option.some.inj hu] at hname
    exact h (hname ▸ rfl)
  | cons v mid =>
    have hback : (v :: mid) ≠ [] := by simp
    rw [← List.append_assoc, List.getLast?_append_of_ne_nil _ hback] at hu
    have := hl hhead u
    rw [← List.append_assoc, List.getLast?_append_of_ne_nil _ hback] at this
    exact this hu

/-- Sites that are apart can be contracted one after the other in both orders. -/
theorem contracts_apart {step₁ step₂ : Step} {pre₁ head₁ body₁ mid head₂ body₂ : Stream} {t₁ t₂ : Token}
    (h₁ : Site step₁ head₁ body₁) (h₂ : Site step₂ head₂ body₂) (hl₁ : pre₁.Leaves head₁)
    (hl₂ : Stream.Leaves (pre₁ ++ ((head₁ ++ body₁.wrap) ++ mid)) head₂)
    (hf₁ : e.fire (e.reduce (depth + 1)) (.step step₁) (head₁ ++ body₁.wrap) = .ok [t₁])
    (hf₂ : e.fire (e.reduce (depth + 1)) (.step step₂) (head₂ ++ body₂.wrap) = .ok [t₂])
    (hn₁ : t₁.category ≠ .function) (post₂ : Stream) :
    ∃ c, Contracts e depth (pre₁ ++ ([t₁] ++ (mid ++ ((head₂ ++ body₂.wrap) ++ post₂)))) c ∧
      Contracts e depth ((pre₁ ++ ((head₁ ++ body₁.wrap) ++ mid)) ++ ([t₂] ++ post₂)) c := by
  have second := Contracts.intro post₂ h₂ (leaves_of_replace hn₁ hl₂) hf₂
  have first := Contracts.intro (mid ++ ([t₂] ++ post₂)) h₁ hl₁ hf₁
  refine ⟨pre₁ ++ ([t₁] ++ (mid ++ ([t₂] ++ post₂))), ?_, ?_⟩
  · simpa only [List.append_assoc] using second
  · simpa only [List.append_assoc] using first

/-- Two contractions of a stream lead to the same stream, or a contraction leads from each result to a common
    one. -/
theorem Contracts.diamond (he : e.IsPlain) (ha : Contracts e depth s a) (hb : Contracts e depth s b)
    (hs : s.IsApplied) : a = b ∨ ∃ c, Contracts e depth a c ∧ Contracts e depth b c := by
  cases ha with
  | @intro step₁ pre₁ head₁ body₁ new₁ post₁ h₁ hl₁ hf₁ =>
    generalize hs₂ : pre₁ ++ ((head₁ ++ body₁.wrap) ++ post₁) = s₂ at hb hs
    cases hb with
    | @intro step₂ pre₂ head₂ body₂ new₂ post₂ h₂ hl₂ hf₂ =>
      obtain ⟨t₁, rfl, -, hn₁⟩ := fire_site he h₁ (hs₂ ▸ hs) hf₁
      obtain ⟨t₂, rfl, -, hn₂⟩ := fire_site he h₂ hs hf₂
      -- Both are the same site, or one of them stands behind the other and is still there afterwards.
      rcases h₁.same_or_apart h₂ hl₁ hl₂ hs₂ with ⟨rfl, rfl, rfl, rfl, rfl⟩ | ⟨mid, rfl, rfl⟩ | ⟨mid, rfl, rfl⟩
      · rw [hf₁] at hf₂
        exact Or.inl (by rw [Except.ok.inj hf₂])
      · exact Or.inr (contracts_apart h₁ h₂ hl₁ hl₂ hf₁ hf₂ hn₁ post₂)
      · obtain ⟨c, hc₂, hc₁⟩ := contracts_apart h₂ h₁ hl₂ hl₁ hf₂ hf₁ hn₂ post₁
        exact Or.inr ⟨c, hc₁, hc₂⟩

/-- A site that fails stays one when another site is contracted. -/
theorem Broken.of_contracts (he : e.IsPlain) (hbroken : Broken e depth s) (ha : Contracts e depth s a)
    (hs : s.IsApplied) : Broken e depth a := by
  cases ha with
  | @intro step₁ pre₁ head₁ body₁ new₁ post₁ h₁ hl₁ hf₁ =>
    generalize hs₂ : pre₁ ++ ((head₁ ++ body₁.wrap) ++ post₁) = s₂ at hbroken hs
    cases hbroken with
    | @intro step₂ pre₂ head₂ body₂ f post₂ h₂ hl₂ hf₂ =>
      obtain ⟨t₁, rfl, -, hn₁⟩ := fire_site he h₁ (hs₂ ▸ hs) hf₁
      rcases h₁.same_or_apart h₂ hl₁ hl₂ hs₂ with ⟨rfl, rfl, rfl, rfl, rfl⟩ | ⟨mid, rfl, rfl⟩ | ⟨mid, rfl, rfl⟩
      · rw [hf₁] at hf₂
        cases hf₂
      · have := Broken.intro post₂ h₂ (leaves_of_replace hn₁ hl₂) hf₂
        simpa only [List.append_assoc] using this
      · have := Broken.intro (mid ++ ([t₁] ++ post₁)) h₂ hl₂ hf₂
        simpa only [List.append_assoc] using this

/-! ### What a stream with sites reduces to -/

/-- A stream with a site fails by one of its sites, or it reduces as after the contraction of one. -/
theorem reduce_site (he : e.IsPlain) (hd : depth ≤ e.limit) {step : Step} {head body : Stream}
    (h : Site step head body) (pre post : Stream) :
    (Broken e depth (pre ++ ((head ++ body.wrap) ++ post)) ∧
      ∀ t, (e.reduce depth (pre ++ ((head ++ body.wrap) ++ post))).outcome ≠ .ok t) ∨
    ∃ a, Contracts e depth (pre ++ ((head ++ body.wrap) ++ post)) a ∧
      (e.reduce depth (pre ++ ((head ++ body.wrap) ++ post))).outcome = (e.reduce depth a).outcome := by
  obtain ⟨r, step', pre', head', body', post', hs, hmatch, haction, hsite, hl⟩ := h.firstMatch? pre post
  have hlen : 2 ≤ (pre ++ ((head ++ body.wrap) ++ post)).length := by
    simp only [List.length_append, Stream.wrap, List.length_cons, List.length_nil]
    omega
  have hred := reduce_match he.isStandard he.rounds hd hlen (he.all ▸ hmatch) hs rfl
  rw [haction] at hred
  rw [hred, hs]
  cases hfire : e.fire (e.reduce (depth + 1)) (.step step') (head' ++ body'.wrap) with
  | error f => exact Or.inl ⟨.intro post' hsite hl hfire, fun t h => by cases h⟩
  | ok new => exact Or.inr ⟨_, .intro post' hsite hl hfire, rfl⟩

/-- The sites of a stream can be contracted in any order. -/
theorem joining (he : e.IsPlain) (hd : depth ≤ e.limit) (t : Token) :
    Joining List.length Stream.IsApplied (Contracts e depth) (Broken e depth)
      (fun s => (e.reduce depth s).outcome = .ok t) where
  shrinks hs ha := ha.keeps he hs
  diamond hs ha hb := ha.diamond he hb hs
  stays hs hbroken ha := hbroken.of_contracts he ha hs
  first := by
    have site : ∀ {step : Step} {pre head body post : Stream}, Site step head body →
        (Broken e depth (pre ++ ((head ++ body.wrap) ++ post)) ∧
          (e.reduce depth (pre ++ ((head ++ body.wrap) ++ post))).outcome ≠ .ok t) ∨
        ∃ a, Contracts e depth (pre ++ ((head ++ body.wrap) ++ post)) a ∧
          ((e.reduce depth (pre ++ ((head ++ body.wrap) ++ post))).outcome = .ok t ↔
            (e.reduce depth a).outcome = .ok t) := by
      intro step pre head body post hsite
      rcases reduce_site he hd hsite pre post with ⟨hbroken, hne⟩ | ⟨a, ha, hred⟩
      · exact Or.inl ⟨hbroken, hne t⟩
      · exact Or.inr ⟨a, ha, by rw [hred]⟩
    rintro s - (⟨post, hsite, -, -⟩ | ⟨a, ⟨post, hsite, -, -⟩⟩)
    · exact site hsite
    · exact site hsite

/-- A stream with a site that fails does not reduce to a token. -/
theorem Broken.reduce_ne (he : e.IsPlain) (hd : depth ≤ e.limit) (h : Broken e depth s) (hs : s.IsApplied) :
    ∀ t, (e.reduce depth s).outcome ≠ .ok t :=
  fun t => (joining he hd t).not_done hs h

/-- Contracting a site, wherever it is, does not change the token that a stream reduces to. -/
theorem Contracts.reduce_iff (he : e.IsPlain) (hd : depth ≤ e.limit) (h : Contracts e depth s a) (hs : s.IsApplied) :
    (e.reduce depth s).outcome = .ok t ↔ (e.reduce depth a).outcome = .ok t :=
  (joining he hd t).step_iff hs h

/-- A stream with a site reduces to a token if and only if the site gives something and the stream with that in its
    place does. -/
theorem reduce_site_iff (he : e.IsPlain) (hd : depth ≤ e.limit) {step : Step} {pre head body post : Stream}
    (h : Site step head body) (hl : pre.Leaves head) (hs : Stream.IsApplied (pre ++ ((head ++ body.wrap) ++ post))) :
    (e.reduce depth (pre ++ ((head ++ body.wrap) ++ post))).outcome = .ok t ↔
      ∃ new, e.fire (e.reduce (depth + 1)) (.step step) (head ++ body.wrap) = .ok new ∧
        (e.reduce depth (pre ++ (new ++ post))).outcome = .ok t := by
  cases hfire : e.fire (e.reduce (depth + 1)) (.step step) (head ++ body.wrap) with
  | error f =>
    have hbroken := Broken.intro post h hl hfire
    exact iff_of_false (hbroken.reduce_ne he hd hs t) fun ⟨_, hnew, _⟩ => by cases hnew
  | ok new =>
    rw [(Contracts.intro post h hl hfire).reduce_iff he hd hs]
    exact ⟨fun hout => ⟨new, rfl, hout⟩, fun ⟨_, hnew, hout⟩ => Except.ok.inj hnew ▸ hout⟩

/-! ### Groups -/

theorem isWritable_wrap (body : Stream) : body.wrap.isWritable = body.isWritable := by
  have hopen : Token.opening.value.isWritable = true := rfl
  have hclose : Token.closing.value.isWritable = true := rfl
  simp [Stream.isWritable, Stream.wrap, hopen, hclose]

theorem isWritable_call (name : String) (body : Stream) : Stream.isWritable ([.named name] ++ body.wrap) = body.isWritable := by
  show ((Token.named name).value.isWritable && Stream.isWritable body.wrap) = _
  rw [isWritable_wrap]
  rfl

theorem fire_group {nested : Stream → Traced Token} {body : Stream} (hv : (nested body).outcome = .ok t)
    (hbody : body.isWritable = true) (ht : t.value.isWritable = true) :
    e.fire nested (.step .evaluateGroup) body.wrap = .ok [t] := by
  have hstep : (Replacement.ofAction e.settings nested e.table (.step .evaluateGroup) body.wrap).outcome = .ok [t] := by
    show (Replacement.ofStep e.settings nested .evaluateGroup body.wrap).outcome = .ok [t]
    rw [ofStep_group, hv]
    rfl
  have hboth : (body.wrap.isWritable && Stream.isWritable [t]) = true := by
    rw [isWritable_wrap, hbody]
    simp [Stream.isWritable, ht]
  rw [fire, hstep]
  exact if_pos hboth

/-- A subexpression in brackets can be replaced by the token that it reduces to, in front of and behind any
    other tokens. No function may stand right in front of the brackets, as it would take them, and names of
    functions stand in front of brackets only, as they do in the tokens of a text. -/
theorem reduce_group_iff (he : e.IsPlain) (hd : depth < e.limit) {pre body post : Stream} {v : Token}
    (hbody : body.IsFlat) (hpre : ∀ u ∈ pre.getLast?, u.category ≠ .function)
    (hcalls : ∀ front u back, pre ++ body.wrap ++ post = front ++ u :: back → u.category = .function →
      back.head? = some Token.opening)
    (hv : (e.reduce depth body).outcome = .ok v) (hwritable : body.isWritable = true ∧ v.value.isWritable = true)
    (t : Token) :
    (e.reduce depth (pre ++ body.wrap ++ post)).outcome = .ok t ↔
      (e.reduce depth (pre ++ [v] ++ post)).outcome = .ok t := by
  have hnested : (e.reduce (depth + 1) body).outcome = .ok v := by
    rw [← hv]
    exact reduce_flat_congr he.isStandard he.isStandard (fun _ _ => rfl) he.rounds (by omega) (by omega) hbody
  have hfire := fire_group (e := e) hnested hwritable.1 hwritable.2
  have hl : pre.Leaves [] := by
    rintro - u hu ⟨name, -, hname⟩
    exact hpre u hu (hname ▸ rfl)
  have hcontracts := Contracts.intro post (Site.group hbody) hl hfire
  have happlied : Stream.IsApplied (pre ++ (([] ++ body.wrap) ++ post)) := by
    refine Stream.isApplied_of_followed fun front u back h hu => ?_
    exact ⟨_, hcalls front u back (by rw [← h]; simp) hu, Or.inl rfl⟩
  have := hcontracts.reduce_iff (t := t) he (by omega) happlied
  simpa only [List.nil_append, List.append_assoc] using this

/-- The factor of a product in brackets. -/
theorem reduce_group_factor :
    (Engine.reduce {} 0 ([⟨.numeric, .int 2⟩, ⟨.operator, .text "multiply"⟩] ++ Stream.wrap [⟨.numeric, .int 3⟩] ++ [])).outcome
        = .ok ⟨.numeric, .int 6⟩ ↔
      (Engine.reduce {} 0 ([⟨.numeric, .int 2⟩, ⟨.operator, .text "multiply"⟩] ++ [⟨.numeric, .int 3⟩] ++ [])).outcome
        = .ok ⟨.numeric, .int 6⟩ := by
  have he : Engine.IsPlain {} := ⟨rfl, rfl⟩
  refine reduce_group_iff he (by decide) ?_ ?_ ?_ (reduce_single he.isStandard he.rounds (by decide) _)
    ⟨by decide +kernel, by decide +kernel⟩ _
  · intro u hu
    rw [List.mem_singleton.mp hu]
    rfl
  · intro u hu
    rw [← Option.some.inj hu]
    simp
  · intro front u back h hu
    have hmem : u ∈ front ++ u :: back := by simp
    rw [← h] at hmem
    simp only [Stream.wrap, List.cons_append, List.nil_append, List.append_nil, List.mem_cons, List.not_mem_nil,
      or_false] at hmem
    rcases hmem with rfl | rfl | rfl | rfl | rfl <;> cases hu

end Engine
end Reckoner
