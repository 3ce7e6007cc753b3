import Reckoner.Proofs.StandardRules
import Mathlib.Data.List.Basic

/-!
# Where brackets can be contracted

Sites at different places of a stream have no token in common (`Site.apart`), except that the brackets behind
the name of a function are not a group (`Stream.Leaves`). While a stream has a site the topmost match of the
standard rules is one (`Site.firstMatch?`).
-/

namespace Reckoner

/-- The functions that take brackets whatever number of tokens is inside. -/
def Token.takesBrackets (t : Token) : Prop := ∃ name ∈ ["round", "roundup", "rounddown", "not"], t = .named name

/-- The tokens in front of brackets leave them to a rule with the given head: brackets alone are a group only
    if no function in front takes them. -/
def Stream.Leaves (pre head : Stream) : Prop := head = [] → ∀ t ∈ pre.getLast?, ¬ t.takesBrackets

namespace Stream
variable {pre head body post : Stream} {i : Nat}

theorem getElem?_opening : (pre ++ ((head ++ body.wrap) ++ post))[pre.length + head.length]? = some Token.opening := by
  rw [List.append_assoc, ← List.append_assoc, ← List.length_append, List.getElem?_append_right (Nat.le_refl _),
    Nat.sub_self]
  rfl

theorem getElem?_closing :
    (pre ++ ((head ++ body.wrap) ++ post))[pre.length + head.length + body.length + 1]? = some Token.closing := by
  have hsplit : pre ++ ((head ++ body.wrap) ++ post) = (pre ++ head ++ Token.opening :: body) ++ (Token.closing :: post) := by
    simp [wrap]
  have hlen : pre.length + head.length + body.length + 1 = (pre ++ head ++ Token.opening :: body).length := by
    simp only [List.length_append, List.length_cons]
    omega
  rw [hsplit, hlen, List.getElem?_append_right (Nat.le_refl _), Nat.sub_self]
  rfl

/-- No bracket stands between the brackets of a site. -/
theorem category_of_inside (hb : body.IsUnbracketed) (hlo : pre.length + head.length < i)
    (hhi : i < pre.length + head.length + body.length + 1) :
    ∀ t ∈ (pre ++ ((head ++ body.wrap) ++ post))[i]?, t.category ≠ .grouping := by
  intro t ht
  have hsplit : pre ++ ((head ++ body.wrap) ++ post) = (pre ++ head ++ [Token.opening]) ++ (body ++ (Token.closing :: post)) := by
    simp [wrap]
  have hlen : (pre ++ head ++ [Token.opening]).length = pre.length + head.length + 1 := by
    simp only [List.length_append, List.length_cons, List.length_nil]
  rw [hsplit, List.getElem?_append_right (by omega), List.getElem?_append_left (by omega)] at ht
  exact hb t (List.mem_of_getElem? ht)

end Stream

theorem Stream.IsFlat.isUnbracketed {ts : Stream} (h : ts.IsFlat) : ts.IsUnbracketed := by
  intro t ht hc
  have := h t ht
  simp [Token.isDelimiter, hc] at this

theorem Stream.IsFlat.not_mem {ts : Stream} (h : ts.IsFlat) {t : Token} (ht : t.isDelimiter = true) : t ∉ ts := fun hmem => by
  rw [h t hmem] at ht
  cases ht

/-- Where there is a single pair of brackets, it is known what stands inside. -/
theorem Stream.wrap_unique {pre body post pre' body' post' : Stream} (hpre : pre.IsFlat) (hbody : body.IsUnbracketed)
    (hpost : post.IsFlat) (hs : pre ++ (body.wrap ++ post) = pre' ++ (body'.wrap ++ post')) :
    pre = pre' ∧ body = body' ∧ post = post' := by
  have unbracketed : ∀ {t : Token}, t.category = .grouping → t ∉ body := fun ht hmem => hbody _ hmem ht
  have hopen : pre ++ Token.opening :: (body ++ Token.closing :: post) =
      pre' ++ Token.opening :: (body' ++ Token.closing :: post') := by
    simpa [wrap] using hs
  have hinside : Token.opening ∉ body ++ Token.closing :: post := by
    rw [List.mem_append, List.mem_cons]
    rintro (hmem | heq | hmem)
    · exact unbracketed rfl hmem
    · simp [Token.opening, Token.closing] at heq
    · exact hpost.not_mem rfl hmem
  obtain ⟨hpre', -, hclose⟩ := (List.append_cons_inj_of_notMem (hpre.not_mem rfl) hinside).mp hopen
  obtain ⟨hbody', -, hpost'⟩ :=
    (List.append_cons_inj_of_notMem (unbracketed (t := .closing) rfl) (hpost.not_mem rfl)).mp hclose
  exact ⟨hpre', hbody', hpost'⟩

namespace Site
variable {step step₁ step₂ : Step} {head body pre₁ head₁ body₁ post₁ pre₂ head₂ body₂ post₂ : Stream}

/-- In front of the brackets stands the name of a function, or nothing. Brackets with nothing in front have no
    comma inside, and a name whose brackets have a comma in the way of a group is that of a choice. -/
theorem head_cases (h : Site step head body) : (head = [] ∧ body.IsFlat) ∨
    ∃ t, head = [t] ∧ t.category = .function ∧ (body.IsFlat → t.takesBrackets) := by
  cases h with
  | @choose a b c u v _ hu _ _ _ =>
    refine Or.inr ⟨_, rfl, rfl, fun hflat => ?_⟩
    have := hflat u (by simp)
    simp [Token.isDelimiter, hu] at this
  | round _ => exact Or.inr ⟨_, rfl, rfl, fun _ => ⟨_, by simp, rfl⟩⟩
  | roundTo _ _ _ => exact Or.inr ⟨_, rfl, rfl, fun _ => ⟨_, by simp, rfl⟩⟩
  | roundUp _ => exact Or.inr ⟨_, rfl, rfl, fun _ => ⟨_, by simp, rfl⟩⟩
  | roundDown _ => exact Or.inr ⟨_, rfl, rfl, fun _ => ⟨_, by simp, rfl⟩⟩
  | not _ => exact Or.inr ⟨_, rfl, rfl, fun _ => ⟨_, by simp, rfl⟩⟩
  | group hxs => exact Or.inl ⟨rfl, hxs⟩

theorem body_isUnbracketed (h : Site step head body) : body.IsUnbracketed := by
  have delimited : ∀ {t : Token}, t.isDelimiter = false → t.category ≠ .grouping := by
    intro t ht hc
    simp [Token.isDelimiter, hc] at ht
  have comma : ∀ {t : Token}, t.category = .comma → t.category ≠ .grouping := by
    intro t ht
    simp [ht]
  cases h with
  | choose ha hu hb hv hc =>
    intro t ht
    simp only [List.mem_cons, List.not_mem_nil, or_false] at ht
    rcases ht with rfl | rfl | rfl | rfl | rfl
    · exact delimited ha
    · exact comma hu
    · exact delimited hb
    · exact comma hv
    · exact delimited hc
  | roundTo hxs hu hys =>
    intro t ht
    rcases List.mem_append.mp ht with ht | ht
    · exact delimited (hxs t ht)
    · rcases List.mem_cons.mp ht with rfl | ht
      · exact comma hu
      · exact delimited (hys t ht)
  | round hxs | roundUp hxs | roundDown hxs | not hxs | group hxs => exact hxs.isUnbracketed

/-- The name and what is inside the brackets determine the step. -/
theorem step_unique (h₁ : Site step₁ head₁ body₁) (h₂ : Site step₂ head₂ body₂) (hhead : head₁ = head₂) :
    step₁ = step₂ := by
  cases h₁ <;> cases h₂ <;> first | rfl | simp [Token.named] at hhead

/-- A choice has five tokens inside its brackets. -/
theorem length_of_choice (h : Site step head body) (hhead : head = [.named "if"]) : body.length = 5 := by
  cases h <;> first | rfl | simp [Token.named] at hhead

/-! ### Two sites of a stream -/

section Two
variable (h₁ : Site step₁ head₁ body₁) (h₂ : Site step₂ head₂ body₂)
  (hs : pre₁ ++ ((head₁ ++ body₁.wrap) ++ post₁) = pre₂ ++ ((head₂ ++ body₂.wrap) ++ post₂))
include h₁ h₂ hs

/-- The site whose bracket opens first ends before the other one begins. -/
theorem apart (hlt : pre₁.length + head₁.length < pre₂.length + head₂.length) :
    ∃ mid, pre₂ = pre₁ ++ ((head₁ ++ body₁.wrap) ++ mid) ∧ post₁ = mid ++ ((head₂ ++ body₂.wrap) ++ post₂) := by
  have hopen₂ : (pre₁ ++ ((head₁ ++ body₁.wrap) ++ post₁))[pre₂.length + head₂.length]? = some Token.opening :=
    hs ▸ Stream.getElem?_opening
  have hclose₁ := @Stream.getElem?_closing pre₁ head₁ body₁ post₁
  have houter : pre₁.length + head₁.length + body₁.length + 1 < pre₂.length + head₂.length := by
    have hne : pre₂.length + head₂.length ≠ pre₁.length + head₁.length + body₁.length + 1 := by
      intro heq
      rw [heq, hclose₁] at hopen₂
      simp [Token.closing, Token.opening] at hopen₂
    have hnot : ¬ pre₂.length + head₂.length < pre₁.length + head₁.length + body₁.length + 1 := fun hin =>
      Stream.category_of_inside h₁.body_isUnbracketed hlt hin _ hopen₂ rfl
    omega
  -- The name in front of the second bracket is not the closing bracket of the first site.
  have hbegin : pre₁.length + head₁.length + body₁.length + 1 < pre₂.length := by
    rcases h₂.head_cases with ⟨rfl, -⟩ | ⟨t, rfl, ht, -⟩
    · simpa using houter
    · have hne : pre₂.length ≠ pre₁.length + head₁.length + body₁.length + 1 := by
        intro heq
        rw [hs, ← heq] at hclose₁
        simp only [List.cons_append, List.nil_append, List.getElem?_append_right (Nat.le_refl _),
          Nat.sub_self, List.getElem?_cons_zero, Option.some.injEq] at hclose₁
        rw [hclose₁] at ht
        cases ht
      simp only [List.length_cons, List.length_nil] at houter
      omega
  rw [← List.append_assoc] at hs
  rcases List.append_eq_append_iff.mp hs with ⟨mid, hpre, hpost⟩ | ⟨mid, hpre, -⟩
  · exact ⟨mid, by rw [hpre, List.append_assoc], hpost⟩
  · have hlen := congrArg List.length hpre
    simp only [List.length_append, Stream.wrap, List.length_cons, List.length_nil] at hlen
    have hmid : mid = [] := List.length_eq_zero_iff.mp (by omega)
    subst hmid
    rw [List.append_nil] at hpre
    refine ⟨[], by rw [List.append_nil, hpre], ?_⟩
    rw [hpre] at hs
    exact List.append_cancel_left hs

/-- Sites with the same brackets are the same site. -/
theorem same (hp₁ : pre₁.Leaves head₁) (hp₂ : pre₂.Leaves head₂)
    (heq : pre₁.length + head₁.length = pre₂.length + head₂.length) :
    step₁ = step₂ ∧ pre₁ = pre₂ ∧ head₁ = head₂ ∧ body₁ = body₂ ∧ post₁ = post₂ := by
  have hsplit : (pre₁ ++ head₁) ++ (body₁.wrap ++ post₁) = (pre₂ ++ head₂) ++ (body₂.wrap ++ post₂) := by
    simpa only [List.append_assoc] using hs
  obtain ⟨hfront, hback⟩ := List.append_inj hsplit (by simpa only [List.length_append] using heq)
  -- The brackets close at the same place, as no bracket stands inside them.
  have hlen : body₁.length = body₂.length := by
    have hclose₁ := @Stream.getElem?_closing pre₁ head₁ body₁ post₁
    have hclose₂ := @Stream.getElem?_closing pre₂ head₂ body₂ post₂
    rw [hs] at hclose₁
    rw [← hs] at hclose₂
    have hge : ¬ body₁.length < body₂.length := fun hlt =>
      Stream.category_of_inside h₂.body_isUnbracketed (by omega) (by omega) _ hclose₁ rfl
    have hle : ¬ body₂.length < body₁.length := fun hlt =>
      Stream.category_of_inside h₁.body_isUnbracketed (by omega) (by omega) _ hclose₂ rfl
    omega
  obtain ⟨hwrap, hpost⟩ := List.append_inj hback (by simp [Stream.wrap, hlen])
  have hbody : body₁ = body₂ := by
    simp only [Stream.wrap, List.cons.injEq, true_and] at hwrap
    exact (List.append_inj hwrap hlen).1
  subst hbody
  have behind : ∀ {xs ys : Stream} {t : Token}, xs ++ [t] = ys ++ [] → (body₁.IsFlat → t.takesBrackets) →
      body₁.IsFlat → ¬ ys.Leaves [] := by
    intro xs ys t h htakes hflat hleaves
    rw [List.append_nil] at h
    exact hleaves rfl t (by simp [← h]) (htakes hflat)
  have hhead : head₁ = head₂ := by
    rcases h₁.head_cases with ⟨rfl, hflat⟩ | ⟨t, rfl, -, htakes⟩
    · rcases h₂.head_cases with ⟨rfl, -⟩ | ⟨u, rfl, -, htakes⟩
      · rfl
      · exact absurd hp₁ (behind hfront.symm htakes hflat)
    · rcases h₂.head_cases with ⟨rfl, hflat⟩ | ⟨u, rfl, -, -⟩
      · exact absurd hp₂ (behind hfront htakes hflat)
      · exact (List.append_inj' hfront rfl).2
  subst hhead
  exact ⟨h₁.step_unique h₂ rfl, List.append_cancel_right hfront, rfl, rfl, hpost⟩

end Two

/-- Two sites of a stream are the same, or one of them ends before the other one begins. -/
theorem same_or_apart (h₁ : Site step₁ head₁ body₁) (h₂ : Site step₂ head₂ body₂)
    (hp₁ : pre₁.Leaves head₁) (hp₂ : pre₂.Leaves head₂)
    (hs : pre₁ ++ ((head₁ ++ body₁.wrap) ++ post₁) = pre₂ ++ ((head₂ ++ body₂.wrap) ++ post₂)) :
    (step₁ = step₂ ∧ pre₁ = pre₂ ∧ head₁ = head₂ ∧ body₁ = body₂ ∧ post₁ = post₂) ∨
      (∃ mid, pre₂ = pre₁ ++ ((head₁ ++ body₁.wrap) ++ mid) ∧ post₁ = mid ++ ((head₂ ++ body₂.wrap) ++ post₂)) ∨
      ∃ mid, pre₁ = pre₂ ++ ((head₂ ++ body₂.wrap) ++ mid) ∧ post₂ = mid ++ ((head₁ ++ body₁.wrap) ++ post₁) := by
  rcases Nat.lt_trichotomy (pre₁.length + head₁.length) (pre₂.length + head₂.length) with hlt | heq | hgt
  · exact Or.inr (Or.inl (h₁.apart h₂ hs hlt))
  · exact Or.inl (h₁.same h₂ hs hp₁ hp₂ heq)
  · exact Or.inr (Or.inr (h₂.apart h₁ hs.symm hgt))

end Site

/-! ### Sites are found -/

theorem Pattern.determined_of_call {name : String} {p : Pattern} (h : Pattern.Determined (p ++ [Matcher.closing])) :
    (Pattern.call name p).Determined :=
  ⟨Or.inl rfl, Or.inl rfl, h⟩

theorem Rule.determined_of_mem_brackets {r : Rule} (hr : r ∈ Rule.brackets) : r.pattern.Determined := by
  have closing : ∀ t, Matcher.closing.accepts t = true → Matcher.nonGroup.star.accepts t = false := by
    intro t ht
    rw [Matcher.accepts_closing.mp ht]
    rfl
  have comma : ∀ t, Matcher.comma.accepts t = true → Matcher.nonGroup.star.accepts t = false := by
    intro t ht
    have hc : t.category = .comma := Matcher.accepts_category.mp ht
    have hiff := Matcher.accepts_nonGroup (t := t)
    have hd : t.isDelimiter = true := by simp [Token.isDelimiter, hc]
    rw [hd] at hiff
    exact Bool.eq_false_iff.mpr fun h => Bool.noConfusion (hiff.mp h)
  have flat : Pattern.Determined [Matcher.nonGroup.star, Matcher.closing] :=
    ⟨Or.inr ⟨rfl, _, _, rfl, by decide, closing⟩, Or.inl rfl, trivial⟩
  simp only [Rule.brackets, Rule.standard, List.take_succ_cons, List.take_zero, List.mem_cons, List.not_mem_nil,
    or_false] at hr
  rcases hr with rfl | rfl | rfl | rfl | rfl | rfl | rfl
  · exact Pattern.determined_of_call ⟨Or.inl rfl, Or.inl rfl, Or.inl rfl, Or.inl rfl, Or.inl rfl, Or.inl rfl, trivial⟩
  · exact Pattern.determined_of_call flat
  · exact Pattern.determined_of_call ⟨Or.inr ⟨rfl, _, _, rfl, by decide, comma⟩, Or.inl rfl, flat⟩
  · exact Pattern.determined_of_call flat
  · exact Pattern.determined_of_call flat
  · exact Pattern.determined_of_call flat
  · exact ⟨Or.inl rfl, flat⟩

theorem Rule.find?_of_mem_brackets {r : Rule} (hr : r ∈ Rule.brackets) {span : Stream} (h : r.pattern.Parses span)
    (pre post : Stream) : r.pattern.find? (pre ++ (span ++ post)) ≠ none := by
  have hshape : ∀ r ∈ Rule.brackets, r.pattern.isEmpty = false ∧ r.pattern.isAnchored = false := by decide
  have hne : r.pattern ≠ [] := fun h => by simpa [h] using (hshape r hr).1
  exact Pattern.find?_ne_none hne (hshape r hr).2 (Rule.determined_of_mem_brackets hr) h pre post

/-- A rule that does not stand above another one in a list stands beside or below it in every front part that
    holds the first. -/
theorem Rule.mem_of_split {r r₀ : Rule} {xs ys above below : List Rule} (h : xs ++ ys = above ++ r :: below)
    (h₀ : r₀ ∈ xs) (hn : r₀ ∉ above) : ∃ rest, xs = above ++ r :: rest := by
  rcases List.append_eq_append_iff.mp h with ⟨mid, hmid, -⟩ | ⟨mid, hmid, hrest⟩
  · exact absurd (hmid ▸ List.mem_append_left _ h₀) hn
  · cases mid with
    | nil =>
      rw [List.append_nil] at hmid
      exact absurd (hmid ▸ h₀) hn
    | cons r' mid =>
      rw [List.cons_append, List.cons.injEq] at hrest
      exact ⟨mid, by rw [hmid, hrest.1]⟩

namespace Site

/-- The topmost match of a stream with a site is a site. -/
theorem firstMatch? {step : Step} {head body : Stream} (h : Site step head body) (pre post : Stream) :
    ∃ r step' pre' head' body' post', pre ++ ((head ++ body.wrap) ++ post) = pre' ++ ((head' ++ body'.wrap) ++ post') ∧
      Rule.firstMatch? Rule.standard (pre ++ ((head ++ body.wrap) ++ post)) =
        some (r, pre'.length, head' ++ body'.wrap) ∧
      r.action = .step step' ∧ Site step' head' body' ∧ pre'.Leaves head' := by
  generalize hs : pre ++ ((head ++ body.wrap) ++ post) = s
  obtain ⟨r₀, hr₀, -, hparse₀, -⟩ := h.parses
  have hfind₀ : r₀.pattern.find? s ≠ none := hs ▸ Rule.find?_of_mem_brackets hr₀ hparse₀ pre post
  cases hfirst : Rule.firstMatch? Rule.standard s with
  | none =>
    refine absurd (Rule.firstMatch?_eq_none.mp hfirst r₀ ?_) hfind₀
    rw [← Rule.brackets_append_flat]
    exact List.mem_append_left _ hr₀
  | some found =>
    obtain ⟨r, k, taken⟩ := found
    obtain ⟨above, below, hall, habove, hfind⟩ := Rule.firstMatch?_some hfirst
    obtain ⟨pre', post', hs', rfl, hfound⟩ := Pattern.foundAt_of_find? hfind
    -- The rule is one on brackets, for such a rule matches.
    rw [← Rule.brackets_append_flat] at hall
    obtain ⟨rest, hbrackets⟩ := Rule.mem_of_split hall hr₀ fun h => hfind₀ (habove r₀ h)
    have hr : r ∈ Rule.brackets := by simp [hbrackets]
    obtain ⟨step', head', body', haction, rfl, hsite, hgroup⟩ := Site.of_parses hr hfound.parses
    refine ⟨r, step', pre', head', body', post', hs', rfl, haction, hsite, fun hnil t ht htakes => ?_⟩
    subst hnil
    -- A group behind a name that takes its brackets is part of a match of a rule on calls, which stands above.
    obtain ⟨front, hfront⟩ : ∃ front, pre' = front ++ [t] := by
      obtain ⟨front, h⟩ := List.getLast?_eq_some_iff.mp ht
      exact ⟨front, h⟩
    have hflat : body'.IsFlat := by
      rcases hsite.head_cases with ⟨-, hflat⟩ | ⟨_, hnil, -⟩
      · exact hflat
      · cases hnil
    obtain ⟨r₁, hr₁, hfind₁⟩ : ∃ r₁ ∈ Rule.calls, r₁.pattern.find? s ≠ none := by
      obtain ⟨step₁, hcall⟩ : ∃ step₁, Site step₁ [t] body' := by
        obtain ⟨name, hname, rfl⟩ := htakes
        simp only [List.mem_cons, List.not_mem_nil, or_false] at hname
        rcases hname with rfl | rfl | rfl | rfl
        · exact ⟨_, .round hflat⟩
        · exact ⟨_, .roundUp hflat⟩
        · exact ⟨_, .roundDown hflat⟩
        · exact ⟨_, .not hflat⟩
      obtain ⟨r₁, hr₁, -, hparse₁, hcall₁⟩ := hcall.parses
      refine ⟨r₁, hcall₁ (by simp), ?_⟩
      have := Rule.find?_of_mem_brackets hr₁ hparse₁ front post'
      rwa [show front ++ (([t] ++ body'.wrap) ++ post') = s by simp [hs', hfront]] at this
    rw [← Rule.calls_append_group] at hbrackets
    obtain ⟨rest', hcalls⟩ := Rule.mem_of_split hbrackets hr₁ fun h => hfind₁ (habove r₁ h)
    exact hgroup rfl (by simp [hcalls])

end Site
end Reckoner
