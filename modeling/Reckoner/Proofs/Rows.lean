import Reckoner.Proofs.Binding
import Mathlib.Data.List.Forall2

/-!
# Rows of lines

Lines can stand in one stream with other tokens between them, as the arguments of a call do. Where these tokens are no
operators, a level is folded in all the lines before the next level is folded in any of them
(`Engine.reduce_rows_level`). The lines do not get into each other's way, so that in the end each is reduced to the
value that it has by itself (`Engine.reduce_rows`).
-/

namespace Reckoner

theorem forall₂_comp {α β γ : Type} {R : α → β → Prop} {S : β → γ → Prop} {xs : List α} {zs : List γ} :
    (∃ ys, List.Forall₂ R xs ys ∧ List.Forall₂ S ys zs) ↔ List.Forall₂ (fun x z => ∃ y, R x y ∧ S y z) xs zs := by
  induction xs generalizing zs with
  | nil => simp
  | cons x xs ih =>
    simp only [List.forall₂_cons_left_iff, ← ih]
    constructor
    · rintro ⟨_, ⟨y, ys, hy, hys, rfl⟩, h⟩
      obtain ⟨z, zs, hz, hzs, rfl⟩ := List.forall₂_cons_left_iff.mp h
      exact ⟨z, zs, ⟨y, hy, hz⟩, ⟨ys, hys, hzs⟩, rfl⟩
    · rintro ⟨z, zs, ⟨y, hy, hz⟩, ⟨ys, hys, hzs⟩, rfl⟩
      exact ⟨y :: ys, ⟨y, ys, hy, hys, rfl⟩, .cons hz hzs⟩

theorem exists_mem_of_forall₂ {α β : Type} {R : α → β → Prop} {xs : List α} {ys : List β} (h : List.Forall₂ R xs ys) :
    ∀ y ∈ ys, ∃ x ∈ xs, R x y := by
  induction h with
  | nil => simp
  | cons hxy _ ih =>
    refine List.forall_mem_cons.mpr ⟨⟨_, List.mem_cons_self .., hxy⟩, fun y hy => ?_⟩
    obtain ⟨x, hx, hxy⟩ := ih y hy
    exact ⟨x, List.mem_cons_of_mem _ hx, hxy⟩

/-! ### Levels without operators -/

section Absent
variable {L : Level} {ts : Stream}

theorem Level.find?_of_absent (h : ∀ u ∈ ts, ¬ L.Has u) : L.rule.pattern.find? ts = none := by
  refine Pattern.find?_eq_none_of fun pre span post hts hp _ => ?_
  obtain ⟨l, o, r, rfl, -, ho, -⟩ := Level.parses_rule.mp hp
  exact h o (by simp [hts]) ho

theorem Level.settled_of_absent (h : ∀ u ∈ ts, ¬ L.Has u) : L.Settled ts := by
  intro a b hab hb v rest
  rw [prefix?_eq_none]
  rintro l o r rest' hts ⟨-, ho, -⟩
  match b with
  | [x] =>
    -- The operator would be the number behind the stream.
    simp only [List.cons_append, List.nil_append, List.cons.injEq] at hts
    rw [← hts.2.1] at ho
    cases ho.category
  | x :: y :: b =>
    simp only [List.cons_append, List.cons.injEq] at hts
    exact h o (by simp [hab, hts.2.1]) ho

end Absent

theorem Level.rank_lt_of_fold {op : Sign → Value → Value → Outcome Value} {L : Level} {v : Value} {links : Links}
    {p : Value × Links} (hlinks : ∀ l ∈ links, L.rank ≤ l.1.level.rank) (h : L.fold op v links = .ok p) :
    ∀ l ∈ p.2, L.rank < l.1.level.rank := by
  intro l hl
  obtain ⟨hne, w, hw⟩ := mem_of_fold op h l hl
  exact Nat.lt_of_le_of_ne (hlinks (l.1, w) hw) fun heq => hne (rank_injective heq.symm)

/-! ### Rows -/

/-- Lines, each with tokens in front of it, and tokens behind the last one. -/
def Stream.rows : List Stream → List (Value × Links) → Stream → Stream
  | lead :: leads, a :: lines, tail => lead ++ (line a.1 a.2 ++ rows leads lines tail)
  | _, _, tail => tail

/-- The tokens around the lines do not interfere with them: they are no operators, and the rules on brackets and calls
    match nowhere while one of the lines is longer than one number. -/
structure Spaced (t : RuleTable) (leads : List Stream) (tail : Stream) : Prop where
  between : ∀ lead ∈ leads, ∀ u ∈ lead, u.category ≠ .operator
  behind : ∀ u ∈ tail, u.category ≠ .operator
  calls : ∀ lines : List (Value × Links), lines.length = leads.length → (∃ a ∈ lines, a.2 ≠ []) →
    ∀ r ∈ t.functionRules ++ Rule.brackets, r.pattern.find? (Stream.rows leads lines tail) = none

section Rows
variable {leads front back : List Stream} {lead tail : Stream} {lines done todo : List (Value × Links)} {a : Value × Links}
  {L : Level} {t : RuleTable}

theorem Stream.rows_split : ∀ {front : List Stream} {done : List (Value × Links)}, front.length = done.length →
    rows (front ++ lead :: back) (done ++ a :: todo) tail =
      (rows front done [] ++ lead) ++ (line a.1 a.2 ++ rows back todo tail)
  | [], [], _ => by simp [rows]
  | x :: front, b :: done, h => by
    simp only [List.cons_append, rows, rows_split (Nat.succ.inj h), List.append_assoc]

theorem Stream.mem_rows {u : Token} (hu : u ∈ rows leads lines tail) :
    (∃ lead ∈ leads, u ∈ lead) ∨ (∃ a ∈ lines, u ∈ line a.1 a.2) ∨ u ∈ tail := by
  induction leads generalizing lines with
  | nil => exact Or.inr (Or.inr hu)
  | cons lead leads ih =>
    cases lines with
    | nil => exact Or.inr (Or.inr hu)
    | cons a lines =>
      rcases List.mem_append.mp hu with hu | hu
      · exact Or.inl ⟨lead, List.mem_cons_self .., hu⟩
      rcases List.mem_append.mp hu with hu | hu
      · exact Or.inr (Or.inl ⟨a, List.mem_cons_self .., hu⟩)
      rcases ih hu with ⟨lead, hlead, hu⟩ | ⟨a, ha, hu⟩ | hu
      · exact Or.inl ⟨lead, List.mem_cons_of_mem _ hlead, hu⟩
      · exact Or.inr (Or.inl ⟨a, List.mem_cons_of_mem _ ha, hu⟩)
      · exact Or.inr (Or.inr hu)

theorem Stream.exists_of_mem_rows (hleads : ∀ lead ∈ leads, ∀ u ∈ lead, u.category ≠ .operator)
    (htail : ∀ u ∈ tail, u.category ≠ .operator) {u : Token} (hu : u ∈ rows leads lines tail) (hc : u.category = .operator) :
    ∃ a ∈ lines, ∃ l ∈ a.2, u = l.1.token := by
  rcases mem_rows hu with ⟨lead, hlead, hu⟩ | ⟨a, ha, hu⟩ | hu
  · exact absurd hc (hleads lead hlead u hu)
  · rcases List.mem_cons.mp hu with rfl | hu
    · cases hc
    · obtain ⟨l, hl, hu⟩ := List.mem_flatMap.mp hu
      simp only [List.mem_cons, List.not_mem_nil, or_false] at hu
      rcases hu with rfl | rfl
      · exact ⟨a, ha, l, hl, rfl⟩
      · cases hc
  · exact absurd hc (htail u hu)

theorem Stream.alternating_rows (hleads : ∀ lead ∈ leads, ∀ u ∈ lead, u.category ≠ .operator)
    (htail : ∀ u ∈ tail, u.category ≠ .operator) : IsAlternating (rows leads lines tail) := by
  have hend : IsAlternating tail := by
    have hnil : IsAlternating [] := .nil
    have := hnil.append_of_ne htail
    rwa [List.append_nil] at this
  induction leads generalizing lines with
  | nil => exact hend
  | cons lead leads ih =>
    cases lines with
    | nil => exact hend
    | cons a lines =>
      obtain ⟨hlead, hleads⟩ := List.forall_mem_cons.mp hleads
      exact ((ih hleads).line a.1 a.2).append_of_ne hlead

theorem Stream.head?_rows (hleads : ∀ lead ∈ leads, ∀ u ∈ lead, u.category ≠ .operator)
    (htail : ∀ u ∈ tail, u.category ≠ .operator) : ∀ u ∈ (rows leads lines tail).head?, u.category ≠ .operator := by
  intro u hu
  match leads, lines with
  | [], _ | _ :: _, [] => exact htail u (List.mem_of_mem_head? hu)
  | lead :: leads, a :: lines =>
    cases lead with
    | nil =>
      rw [← Option.some.inj hu]
      simp [Token.number]
    | cons x lead => exact hleads _ (List.mem_cons_self ..) u (Option.some.inj hu ▸ List.mem_cons_self ..)

theorem Spaced.absent (S : Spaced t leads tail) (h : ∀ a ∈ lines, ∀ l ∈ a.2, l.1.level ≠ L) :
    ∀ u ∈ Stream.rows leads lines tail, ¬ L.Has u := by
  intro u hu hhas
  obtain ⟨a, ha, l, hl, rfl⟩ := Stream.exists_of_mem_rows S.between S.behind hu hhas.category
  exact h a ha l hl (Level.has_token.mp hhas)

/-- Without delimiters nothing interferes. -/
theorem Spaced.of_flat (ht : t.IsStandard) (hleads : ∀ lead ∈ leads, lead.IsFlat ∧ ∀ u ∈ lead, u.category ≠ .operator)
    (htail : tail.IsFlat ∧ ∀ u ∈ tail, u.category ≠ .operator) : Spaced t leads tail where
  between := fun lead hlead => (hleads lead hlead).2
  behind := htail.2
  calls := by
    intro lines _ _ r hr
    have hflat : Stream.IsFlat (Stream.rows leads lines tail) := by
      intro u hu
      rcases Stream.mem_rows hu with ⟨lead, hlead, hu⟩ | ⟨a, -, hu⟩ | hu
      · exact (hleads lead hlead).1 u hu
      · exact Stream.flat_line a.1 a.2 u hu
      · exact htail.1 u hu
    rcases List.mem_append.mp hr with hr | hr
    · obtain ⟨name, arguments, rfl⟩ := ht.calls r hr
      exact Pattern.find?_call (Or.inl (hflat.not_mem rfl))
    · exact Pattern.find?_brackets (hflat.not_mem rfl) r hr

/-- A level is ready in a line if it is done in the lines in front, and no tighter one is left behind. -/
theorem Spaced.ready (S : Spaced t (front ++ lead :: back) tail) (hfront : front.length = done.length)
    (hback : back.length = todo.length) (hdone : ∀ a ∈ done, ∀ l ∈ a.2, L.rank < l.1.level.rank)
    (htodo : ∀ a ∈ todo, ∀ l ∈ a.2, L.rank ≤ l.1.level.rank) :
    L.Ready t (Stream.rows front done [] ++ lead) (Stream.rows back todo tail) where
  calls := by
    intro v links hne r hr
    have := S.calls (done ++ (v, links) :: todo) (by simp [hfront, hback]) ⟨(v, links), by simp, hne⟩ r hr
    rwa [Stream.rows_split hfront] at this
  above := by
    intro v links hlinks
    have hrank : ∀ a ∈ done ++ (v, links) :: todo, ∀ l ∈ a.2, L.rank ≤ l.1.level.rank := by
      simp only [List.forall_mem_append, List.forall_mem_cons]
      exact ⟨fun a ha l hl => Nat.le_of_lt (hdone a ha l hl), hlinks, htodo⟩
    have habove : ∀ r ∈ L.above,
        r.pattern.find? (Stream.rows (front ++ lead :: back) (done ++ (v, links) :: todo) tail) = none := by
      refine Level.find?_above (Stream.head?_rows S.between S.behind) (Stream.alternating_rows S.between S.behind) fun M hM => ?_
      refine Level.find?_of_absent (S.absent fun a ha l hl heq => ?_)
      have := hrank a ha l hl
      rw [heq] at this
      omega
    rwa [Stream.rows_split hfront] at habove
  front := by
    refine Level.settled_of_absent fun u hu hhas => ?_
    rcases List.mem_append.mp hu with hu | hu
    · obtain ⟨a, ha, l, hl, rfl⟩ := Stream.exists_of_mem_rows (fun lead hlead => S.between lead (by simp [hlead]))
        (by simp) hu hhas.category
      have := hdone a ha l hl
      rw [Level.has_token.mp hhas] at this
      omega
    · exact S.between lead (by simp) u hu hhas.category

end Rows

/-! ### Reductions -/

namespace Engine
variable {e : Engine} {depth : Int} (ht : e.table.IsStandard) (hrounds : e.rounds = none) (hd : depth ≤ e.limit)
  {front back leads : List Stream} {tail : Stream} {done todo lines : List (Value × Links)} {L : Level} {t : Token}
include ht hrounds hd

/-- A level is folded in one line after the other. -/
theorem reduce_rows_level (S : Spaced e.table (front ++ back) tail) (hfront : front.length = done.length)
    (hback : back.length = todo.length) (hdone : ∀ a ∈ done, ∀ l ∈ a.2, L.rank < l.1.level.rank)
    (htodo : ∀ a ∈ todo, ∀ l ∈ a.2, L.rank ≤ l.1.level.rank) :
    (e.reduce depth (Stream.rows (front ++ back) (done ++ todo) tail)).outcome = .ok t ↔
      ∃ todo', List.Forall₂ (fun a a' => L.fold Sign.contracted a.1 a.2 = .ok a') todo todo' ∧
        (e.reduce depth (Stream.rows (front ++ back) (done ++ todo') tail)).outcome = .ok t := by
  -- The induction is on the lines to be folded. Those in front have no operator of the level any more.
  induction todo generalizing front back done with
  | nil => simp
  | cons a todo ih =>
    obtain ⟨lead, back, rfl⟩ := List.exists_cons_of_length_eq_add_one hback
    obtain ⟨ha, htodo⟩ := List.forall_mem_cons.mp htodo
    have hback : back.length = todo.length := Nat.succ.inj hback
    rw [Stream.rows_split hfront, reduce_fold ht hrounds hd (S.ready hfront hback hdone htodo) ha]
    simp only [List.forall₂_cons_left_iff]
    cases hfold : L.fold Sign.contracted a.1 a.2 with
    | error f =>
      constructor
      · intro h
        cases h
      · rintro ⟨_, ⟨_, _, h, _⟩, _⟩
        cases h
    | ok p =>
      -- The line joins those in front of the next one.
      have hdone' : ∀ a ∈ done ++ [p], ∀ l ∈ a.2, L.rank < l.1.level.rank := by
        simp only [List.forall_mem_append, List.forall_mem_singleton]
        exact ⟨hdone, Level.rank_lt_of_fold ha hfold⟩
      have hsplit : ∀ todo, Stream.rows (front ++ lead :: back) (done ++ p :: todo) tail =
          Stream.rows ((front ++ [lead]) ++ back) ((done ++ [p]) ++ todo) tail := by simp
      have hih := @ih (front ++ [lead]) back (done ++ [p]) (by simpa using S) (by simp [hfront]) hback hdone' htodo
      show (e.reduce depth ((Stream.rows front done [] ++ lead) ++ (Stream.line p.1 p.2 ++ Stream.rows back todo tail))).outcome =
        .ok t ↔ _
      rw [← Stream.rows_split hfront, hsplit, hih]
      constructor
      · rintro ⟨todo', hfolds, h⟩
        exact ⟨p :: todo', ⟨p, todo', rfl, hfolds, rfl⟩, hsplit todo' ▸ h⟩
      · rintro ⟨_, ⟨p', todo', hp, hfolds, rfl⟩, h⟩
        obtain rfl := Except.ok.inj hp
        exact ⟨todo', hfolds, hsplit todo' ▸ h⟩

/-- Levels in order are folded one after the other, each of them in all lines. -/
theorem reduce_rows_levels (S : Spaced e.table leads tail) (hlines : leads.length = lines.length) {Ls : List Level}
    (hLs : Ls.Pairwise fun L M => L.rank < M.rank) (hmem : ∀ a ∈ lines, ∀ l ∈ a.2, l.1.level ∈ Ls) :
    (e.reduce depth (Stream.rows leads lines tail)).outcome = .ok t ↔
      ∃ lines', List.Forall₂ (fun a a' => Level.foldAll Sign.contracted Ls a.1 a.2 = .ok a') lines lines' ∧
        (e.reduce depth (Stream.rows leads lines' tail)).outcome = .ok t := by
  induction Ls generalizing lines with
  | nil =>
    have heq : (fun a a' : Value × Links => Level.foldAll Sign.contracted [] a.1 a.2 = .ok a') = Eq := by
      ext a a'
      exact ⟨Except.ok.inj, congrArg _⟩
    simp [heq, List.forall₂_eq_eq_eq]
  | cons L Ls ih =>
    obtain ⟨hrank, hLs⟩ := List.pairwise_cons.mp hLs
    have hlevel := @reduce_rows_level e depth ht hrounds hd [] leads tail [] lines L t S rfl hlines (by simp)
      fun a ha l hl => Level.rank_le hrank (hmem a ha l hl)
    have hcons : ∀ a a' : Value × Links, Level.foldAll Sign.contracted (L :: Ls) a.1 a.2 = .ok a' ↔
        ∃ b, L.fold Sign.contracted a.1 a.2 = .ok b ∧ Level.foldAll Sign.contracted Ls b.1 b.2 = .ok a' := by
      intro a a'
      constructor
      · exact fun h => Outcome.bind_eq_ok h
      · rintro ⟨b, hb, h⟩
        rw [Level.foldAll, hb]
        exact h
    simp only [List.nil_append] at hlevel
    simp only [hlevel, hcons, ← forall₂_comp]
    have hleft : ∀ {lines₁}, List.Forall₂ (fun a a' => L.fold Sign.contracted a.1 a.2 = .ok a') lines lines₁ →
        ∀ a ∈ lines₁, ∀ l ∈ a.2, l.1.level ∈ Ls := fun hfold a ha => by
      obtain ⟨b, hb, hba⟩ := exists_mem_of_forall₂ hfold a ha
      exact Level.level_mem_of_fold _ (hmem b hb) hba
    constructor
    · rintro ⟨lines₁, hfold, h⟩
      obtain ⟨lines', hfoldAll, h⟩ := (ih (hlines.trans hfold.length_eq) hLs (hleft hfold)).mp h
      exact ⟨lines', ⟨lines₁, hfold, hfoldAll⟩, h⟩
    · rintro ⟨lines', ⟨lines₁, hfold, hfoldAll⟩, h⟩
      exact ⟨lines₁, hfold, (ih (hlines.trans hfold.length_eq) hLs (hleft hfold)).mpr ⟨lines', hfoldAll, h⟩⟩

/-- Lines with tokens between them are reduced to their values. -/
theorem reduce_rows (S : Spaced e.table leads tail) (hlines : leads.length = lines.length) :
    (e.reduce depth (Stream.rows leads lines tail)).outcome = .ok t ↔
      ∃ vs, List.Forall₂ (fun a v => Links.value Sign.contracted a.1 a.2 = .ok v) lines vs ∧
        (e.reduce depth (Stream.rows leads (vs.map fun v => (v, [])) tail)).outcome = .ok t := by
  rw [reduce_rows_levels ht hrounds hd S hlines Level.pairwise_all fun _ _ l _ => l.1.level.mem_all]
  simp only [Links.value_eq_ok]
  constructor
  · rintro ⟨lines', hfoldAll, h⟩
    have hnil : ∀ a a' : Value × Links, Level.foldAll Sign.contracted Level.all a.1 a.2 = .ok a' → (a'.1, []) = a' :=
      fun a a' h => Prod.ext rfl (Level.links_of_foldAll _ (fun l _ => l.1.level.mem_all) h).symm
    have hlines' : (lines'.map (·.1)).map (fun v => (v, [])) = lines' := by
      rw [List.map_map]
      refine (List.map_congr_left fun a' ha' => ?_).trans (List.map_id _)
      obtain ⟨a, -, ha⟩ := exists_mem_of_forall₂ hfoldAll a' ha'
      exact hnil a a' ha
    refine ⟨lines'.map (·.1), List.forall₂_map_right_iff.mpr (hfoldAll.imp fun a a' ha => ?_), by rwa [hlines']⟩
    rw [ha, hnil a a' ha]
  · rintro ⟨vs, hvalue, h⟩
    exact ⟨_, List.forall₂_map_right_iff.mpr hvalue, h⟩

end Engine
end Reckoner
