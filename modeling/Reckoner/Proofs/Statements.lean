import Reckoner.Proofs.ClauseReduction
import Reckoner.Proofs.FixedCalls
import Reckoner.Proofs.TableOrder

/-!
# Statements

Connectives join truth values, comparisons of two lines and comparisons of two texts. Such a stream is reduced in layers.
First every line is reduced to its value where it stands (`Engine.reduce_elements`). Then every comparison gives its truth
value, and the truth values are combined from left to right when no comparison is left (`Engine.reduce_judgements`).
Together each operand is what it is by itself (`Engine.reduce_statements`).
-/

namespace Reckoner

theorem forall₂_append {α β : Type} {R : α → β → Prop} {xs ys : List α} {zs : List β} :
    List.Forall₂ R (xs ++ ys) zs ↔ ∃ as bs, List.Forall₂ R xs as ∧ List.Forall₂ R ys bs ∧ zs = as ++ bs := by
  induction xs generalizing zs with
  | nil => simp
  | cons x xs ih =>
    simp only [List.cons_append, List.forall₂_cons_left_iff, ih]
    constructor
    · rintro ⟨z, _, hz, ⟨as, bs, has, hbs, rfl⟩, rfl⟩
      exact ⟨z :: as, bs, ⟨z, as, hz, has, rfl⟩, hbs, rfl⟩
    · rintro ⟨_, bs, ⟨z, as, hz, has, rfl⟩, hbs, rfl⟩
      exact ⟨z, as ++ bs, hz, ⟨as, bs, has, hbs, rfl⟩, rfl⟩

/-! ### Lines among other tokens -/

/-- A token of a stream that is none of an operation, or a line. -/
inductive Element where
  | token (t : Token)
  | line (a : Value × Links)

namespace Element

def tokens : Element → Stream
  | .token t => [t]
  | .line a => Stream.line a.1 a.2

/-- What the operations leave of an element. -/
def settled : Element → Outcome Token
  | .token t => .ok t
  | .line a => (Links.value Sign.contracted a.1 a.2).map .number

theorem settled_token (t : Token) : settled (.token t) = .ok t := rfl

def lines : List Element → List (Value × Links)
  | [] => []
  | .token _ :: es => lines es
  | .line a :: es => a :: lines es

/-- The tokens in front of each line. -/
def leads (front : Stream) : List Element → List Stream
  | [] => []
  | .token t :: es => leads (front ++ [t]) es
  | .line _ :: es => front :: leads [] es

/-- The tokens behind the last line. -/
def tail (front : Stream) : List Element → Stream
  | [] => front
  | .token t :: es => tail (front ++ [t]) es
  | .line _ :: es => tail [] es

variable {es : List Element} {front : Stream}

theorem length_leads (front : Stream) (es : List Element) : (leads front es).length = (lines es).length := by
  induction es generalizing front with
  | nil => rfl
  | cons p es ih =>
    cases p with
    | token t => exact ih _
    | line a => exact congrArg (· + 1) (ih _)

theorem rows_eq (front : Stream) (es : List Element) :
    Stream.rows (leads front es) (lines es) (tail front es) = front ++ es.flatMap tokens := by
  induction es generalizing front with
  | nil => exact (List.append_nil front).symm
  | cons p es ih =>
    cases p with
    | token t => exact (ih _).trans (List.append_assoc ..)
    | line a => exact congrArg (fun s => front ++ (Stream.line a.1 a.2 ++ s)) (ih [])

theorem forall_between {P : Token → Prop} (hfront : ∀ u ∈ front, P u) (hes : ∀ t, .token t ∈ es → P t) :
    (∀ lead ∈ leads front es, ∀ u ∈ lead, P u) ∧ ∀ u ∈ tail front es, P u := by
  induction es generalizing front with
  | nil => exact ⟨by simp [leads], hfront⟩
  | cons p es ih =>
    have htail : ∀ t, .token t ∈ es → P t := fun t ht => hes t (List.mem_cons_of_mem _ ht)
    cases p with
    | token t =>
      refine ih (fun u hu => ?_) htail
      rcases List.mem_append.mp hu with hu | hu
      · exact hfront u hu
      · exact List.mem_singleton.mp hu ▸ hes t (List.mem_cons_self ..)
    | line a =>
      obtain ⟨hleads, hend⟩ := @ih [] (by simp) htail
      exact ⟨List.forall_mem_cons.mpr ⟨hfront, hleads⟩, hend⟩

/-- To reduce the lines of a row to their values is to settle its elements. -/
theorem settled_iff {P : Stream → Prop} :
    (∃ vs, List.Forall₂ (fun a v => Links.value Sign.contracted a.1 a.2 = .ok v) (lines es) vs ∧
      P (Stream.rows (leads front es) (vs.map fun v => (v, [])) (tail front es))) ↔
    ∃ us, List.Forall₂ (fun p u => settled p = .ok u) es us ∧ P (front ++ us) := by
  induction es generalizing front P with
  | nil => simp [lines, leads, tail, Stream.rows]
  | cons p es ih =>
    cases p with
    | token t =>
      refine (@ih (front ++ [t]) P).trans ?_
      simp only [List.forall₂_cons_left_iff, settled, Except.ok.injEq]
      constructor
      · rintro ⟨us, hus, h⟩
        exact ⟨t :: us, ⟨t, us, rfl, hus, rfl⟩, by rwa [List.append_assoc] at h⟩
      · rintro ⟨_, ⟨_, us, rfl, hus, rfl⟩, h⟩
        exact ⟨us, hus, by rwa [List.append_assoc]⟩
    | line a =>
      simp only [lines, List.forall₂_cons_left_iff, settled, Outcome.map_eq_ok_iff]
      constructor
      · rintro ⟨_, ⟨v, vs, hv, hvs, rfl⟩, h⟩
        obtain ⟨us, hus, h⟩ := (@ih [] fun s => P (front ++ (Stream.line v [] ++ s))).mp ⟨vs, hvs, h⟩
        exact ⟨.number v :: us, ⟨_, us, ⟨v, hv, rfl⟩, hus, rfl⟩, h⟩
      · rintro ⟨_, ⟨_, us, ⟨v, hv, rfl⟩, hus, rfl⟩, h⟩
        obtain ⟨vs, hvs, h⟩ := (@ih [] fun s => P (front ++ (Stream.line v [] ++ s))).mpr ⟨us, hus, h⟩
        exact ⟨v :: vs, ⟨v, vs, hv, hvs, rfl⟩, h⟩

end Element

/-- Lines among tokens that are neither operators nor delimiters are reduced to their values. -/
theorem Engine.reduce_elements {e : Engine} {depth : Int} (ht : e.table.IsStandard) (hrounds : e.rounds = none)
    (hd : depth ≤ e.limit) {es : List Element}
    (hes : ∀ t, .token t ∈ es → t.isDelimiter = false ∧ t.category ≠ .operator) {t : Token} :
    (e.reduce depth (es.flatMap Element.tokens)).outcome = .ok t ↔
      ∃ us, List.Forall₂ (fun p u => Element.settled p = .ok u) es us ∧ (e.reduce depth us).outcome = .ok t := by
  obtain ⟨hleads, htail⟩ := @Element.forall_between es [] _ (by simp) hes
  have hspaced : Spaced e.table (Element.leads [] es) (Element.tail [] es) :=
    .of_flat ht (fun lead hlead => ⟨fun u hu => (hleads lead hlead u hu).1, fun u hu => (hleads lead hlead u hu).2⟩)
      ⟨fun u hu => (htail u hu).1, fun u hu => (htail u hu).2⟩
  have hrows := reduce_rows (t := t) ht hrounds hd hspaced (Element.length_leads [] es)
  rw [Element.rows_eq, List.nil_append] at hrows
  exact hrows.trans (@Element.settled_iff es [] fun s => (e.reduce depth s).outcome = .ok t)

/-! ### Operands with connectives between them -/

namespace Connective
variable {α : Type} (tokens : α → Stream) (truth : α → Outcome Bool)

/-- Connectives, each with the operand behind it. -/
def chain (items : List (Connective × α)) : Stream := items.flatMap fun l => l.1.token :: tokens l.2

/-- Operands with connectives between them. -/
def joined (first : α) (rest : List (Connective × α)) : Stream := tokens first ++ chain tokens rest

/-- A truth value combined with those of further operands, from left to right. -/
def combine (x : Bool) : List (Connective × α) → Outcome Bool
  | [] => .ok x
  | (k, a) :: rest => (truth a).bind fun y => combine (k.holds x y) rest

/-- The truth value of joined operands. -/
def combined (first : α) (rest : List (Connective × α)) : Outcome Bool := (truth first).bind fun x => combine truth x rest

variable {tokens truth} {items before after rest : List (Connective × α)} {a b first : α} {k : Connective} {x z : Bool}

@[simp] theorem chain_nil : chain tokens [] = [] := rfl

@[simp] theorem chain_cons (l : Connective × α) (items : List (Connective × α)) :
    chain tokens (l :: items) = l.1.token :: (tokens l.2 ++ chain tokens items) := rfl

theorem chain_append : chain tokens (before ++ after) = chain tokens before ++ chain tokens after := List.flatMap_append

theorem eq_and_of_token (h : Connective.and.token = k.token) : k = .and := by
  cases k with
  | and => rfl
  | or => simp [Connective.token, Connective.operation, Operation.name] at h

theorem combine_append : combine truth x (before ++ (k, a) :: after) = .ok z ↔
    ∃ y w, combine truth x before = .ok y ∧ truth a = .ok w ∧ combine truth (k.holds y w) after = .ok z := by
  induction before generalizing x with
  | nil => simp [combine, Outcome.bind_eq_ok_iff]
  | cons l before ih =>
    simp only [List.cons_append, combine, Outcome.bind_eq_ok_iff, ih]
    constructor
    · rintro ⟨v, hv, y, w, hy, hw, hz⟩
      exact ⟨y, w, ⟨v, hv, hy⟩, hw, hz⟩
    · rintro ⟨y, w, ⟨v, hv, hy⟩, hw, hz⟩
      exact ⟨v, hv, y, w, hy, hw, hz⟩

end Connective

/-! ### Comparisons of values -/

/-- What is compared. -/
inductive Kind where
  | number
  | text

namespace Kind

def category : Kind → Category
  | .number => .numeric
  | .text => .string

def rule (q : Kind) : Rule := ⟨[.of q.category [], .comparator, .of q.category []], .step .apply⟩

theorem determined_rule (q : Kind) : q.rule.pattern.Determined := by
  exact ⟨Or.inl rfl, Or.inl rfl, Or.inl rfl, trivial⟩

end Kind

/-- An operand whose lines are settled: a truth value, or a comparison of two values. -/
inductive Judgement where
  | truth (x : Bool)
  | compared (q : Kind) (c : Comparator) (v w : Value)

namespace Judgement

def tokens : Judgement → Stream
  | .truth x => [.truth x]
  | .compared q c v w => [⟨q.category, v⟩, c.token, ⟨q.category, w⟩]

/-- The truth value of an operand, if comparisons have these truth values. -/
def value (holds : Comparator → Value → Value → Outcome Bool) : Judgement → Outcome Bool
  | .truth x => .ok x
  | .compared _ c v w => holds c v w

open Connective

variable {items before after : List (Connective × Judgement)} {pre post s : Stream} {l o r t : Token} {k : Connective}

theorem category_chain (ht : t ∈ chain tokens items) :
    t.category ≠ .operator ∧ t.category ≠ .grouping := by
  obtain ⟨⟨k, J⟩, -, ht⟩ := List.mem_flatMap.mp ht
  rcases List.mem_cons.mp ht with rfl | ht
  · simp [Connective.token]
  cases J with
  | truth x =>
    rw [List.mem_singleton.mp ht]
    simp [Token.truth]
  | compared q c v w =>
    simp only [tokens, List.mem_cons, List.not_mem_nil, or_false] at ht
    rcases ht with rfl | rfl | rfl
    · cases q <;> simp [Kind.category]
    · simp [Comparator.token]
    · cases q <;> simp [Kind.category]

theorem ne_of_chain (h : chain tokens items = t :: post) : t.category = .combinator := by
  cases items with
  | nil => cases h
  | cons l items => exact (List.cons.inj h).1 ▸ rfl

/-- A comparator among a connective, its operand and the next operands is in the middle of a comparison, which is this
    operand, or it is further behind. -/
theorem cases_cons {J : Judgement} (h : k.token :: (tokens J ++ chain tokens items) = pre ++ l :: o :: r :: post)
    (ho : o.category = .comparator) :
    ((∃ q c v w, J = .compared q c v w) ∧ pre = [k.token] ∧ [l, o, r] = tokens J ∧ post = chain tokens items) ∨
      ∃ pre', pre = k.token :: (tokens J ++ pre') ∧ chain tokens items = pre' ++ l :: o :: r :: post := by
  -- Wherever the tokens begin within the operand, the second one is a comparator at one place only.
  cases J with
  | truth x =>
    match pre, h with
    | [], h =>
      simp only [tokens, List.cons_append, List.nil_append, List.cons.injEq] at h
      rw [← h.2.1] at ho
      cases ho
    | [_], h =>
      simp only [tokens, List.cons_append, List.nil_append, List.cons.injEq] at h
      rw [ne_of_chain h.2.2] at ho
      cases ho
    | _ :: _ :: pre, h =>
      simp only [tokens, List.cons_append, List.nil_append, List.cons.injEq] at h
      obtain ⟨rfl, rfl, hchain⟩ := h
      exact Or.inr ⟨pre, rfl, hchain⟩
  | compared q c v w =>
    match pre, h with
    | [], h =>
      simp only [tokens, List.cons_append, List.nil_append, List.cons.injEq] at h
      rw [← h.2.1] at ho
      cases q <;> cases ho
    | [_], h =>
      simp only [tokens, List.cons_append, List.nil_append, List.cons.injEq] at h
      obtain ⟨rfl, rfl, rfl, rfl, rfl⟩ := h
      exact Or.inl ⟨⟨q, c, v, w, rfl⟩, rfl, rfl, rfl⟩
    | [_, _], h =>
      simp only [tokens, List.cons_append, List.nil_append, List.cons.injEq] at h
      rw [← h.2.2.2.1] at ho
      cases q <;> cases ho
    | [_, _, _], h =>
      simp only [tokens, List.cons_append, List.nil_append, List.cons.injEq] at h
      rw [ne_of_chain h.2.2.2.2] at ho
      cases ho
    | _ :: _ :: _ :: _ :: pre, h =>
      simp only [tokens, List.cons_append, List.nil_append, List.cons.injEq] at h
      obtain ⟨rfl, rfl, rfl, rfl, hchain⟩ := h
      exact Or.inr ⟨pre, rfl, hchain⟩

/-- A comparator stands in the middle of a comparison. -/
theorem exists_compared (h : chain tokens items = pre ++ l :: o :: r :: post) (ho : o.category = .comparator) :
    ∃ before k q c v w after, items = before ++ (k, .compared q c v w) :: after ∧
      pre = chain tokens before ++ [k.token] ∧ [l, o, r] = tokens (.compared q c v w) ∧ post = chain tokens after := by
  induction items generalizing pre with
  | nil => simp at h
  | cons item items ih =>
    obtain ⟨k, J⟩ := item
    rcases cases_cons h ho with ⟨⟨q, c, v, w, rfl⟩, rfl, hspan, rfl⟩ | ⟨pre', rfl, hchain⟩
    · exact ⟨[], k, q, c, v, w, items, rfl, rfl, hspan, rfl⟩
    · obtain ⟨before, k', q, c, v, w, after, rfl, rfl, hspan, rfl⟩ := ih hchain
      exact ⟨(k, J) :: before, k', q, c, v, w, after, rfl, by simp, hspan, rfl⟩

/-! ### The topmost match -/

theorem parses_rule {q : Kind} {ts : Stream} : q.rule.pattern.Parses ts ↔
    ∃ l o r, ts = [l, o, r] ∧ l.category = q.category ∧ o.category = .comparator ∧ r.category = q.category := by
  simp only [Kind.rule, Matcher.comparator, Pattern.parses_single (m := .of _ []) rfl rfl, Pattern.parses_nil,
    Matcher.accepts_category]
  constructor
  · rintro ⟨l, _, rfl, hl, o, _, rfl, ho, r, _, rfl, hr, rfl⟩
    exact ⟨l, o, r, rfl, hl, ho, hr⟩
  · rintro ⟨l, o, r, rfl, hl, ho, hr⟩
    exact ⟨l, _, rfl, hl, o, _, rfl, ho, r, _, rfl, hr, rfl⟩

theorem parses_combination {ts : Stream} : Pattern.Parses .combination ts ↔
    ∃ l o r, ts = [l, o, r] ∧ l.category = .logical ∧ o.category = .combinator ∧ r.category = .logical := by
  simp only [Pattern.combination, Matcher.logical, Matcher.combinator, Pattern.parses_single (m := .of _ []) rfl rfl,
    Pattern.parses_nil, Matcher.accepts_category]
  constructor
  · rintro ⟨l, _, rfl, hl, o, _, rfl, ho, r, _, rfl, hr, rfl⟩
    exact ⟨l, o, r, rfl, hl, ho, hr⟩
  · rintro ⟨l, o, r, rfl, hl, ho, hr⟩
    exact ⟨l, _, rfl, hl, o, _, rfl, ho, r, _, rfl, hr, rfl⟩

theorem parses_truths (x y : Bool) (k : Connective) :
    Pattern.Parses .combination [.truth x, k.token, .truth y] := parses_combination.mpr ⟨_, _, _, rfl, rfl, rfl, rfl⟩

/-- How joined operands are contracted: a comparison wherever it stands, or the first two truth values. -/
inductive Contracts : List (Connective × Judgement) → (pre span post : Stream) → Prop where
  | compared (before after : List (Connective × Judgement)) (k : Connective) (q : Kind) (c : Comparator) (v w : Value)
      (pre : Stream) : Connective.and.token :: pre = chain tokens before ++ [k.token] →
      Contracts (before ++ (k, .compared q c v w) :: after) pre (tokens (.compared q c v w)) (chain tokens after)
  | combined (x y : Bool) (k : Connective) (after : List (Connective × Judgement)) :
      Contracts ((.and, .truth x) :: (k, .truth y) :: after) [] [.truth x, k.token, .truth y] (chain tokens after)

section Match
variable {q : Kind} {i : Nat} {span : Stream} {rule : Rule} (h : Connective.and.token :: s = chain tokens items)
include h

theorem exists_front {J : Judgement} (hitems : items = before ++ (k, J) :: after) :
    ∃ pre, Connective.and.token :: pre = chain tokens before ++ [k.token] ∧ s = pre ++ (tokens J ++ chain tokens after) := by
  subst hitems
  rw [chain_append, chain_cons] at h
  cases before with
  | nil =>
    obtain ⟨hk, rfl⟩ := List.cons.inj h
    exact ⟨[], congrArg ([·]) hk, rfl⟩
  | cons l before =>
    rw [chain_cons, List.cons_append] at h
    obtain ⟨hl, rfl⟩ := List.cons.inj h
    exact ⟨tokens l.2 ++ chain tokens before ++ [k.token], by simp [hl], by simp⟩

/-- Between two comparators of a range there is no connective. -/
theorem find?_range {xs ys : List String} :
    Pattern.find? [.numeric, .of .comparator xs, .numeric, .of .comparator ys, .numeric] s = none := by
  refine Pattern.find?_eq_none_of fun pre span post hs hp _ => ?_
  obtain ⟨l, _, rfl, -, hp⟩ := Pattern.of_parses hp
  obtain ⟨o, _, rfl, ho, hp⟩ := Pattern.of_parses hp
  obtain ⟨m, d, r, rfl, -, hd, -⟩ := Pattern.of_parses_three hp
  obtain ⟨_, _, _, _, _, _, after, _, _, _, hpost⟩ :=
    @exists_compared items (Connective.and.token :: pre) _ _ _ _ (h.symm.trans (congrArg _ hs)) ho
  rw [ne_of_chain hpost.symm] at hd
  cases hd

theorem truths_of_find? (hnone : ∀ q : Kind, q.rule.pattern.find? s = none) : ∀ l ∈ items, ∃ x, l.2 = .truth x := by
  rintro ⟨k, J⟩ hl
  cases J with
  | truth x => exact ⟨x, rfl⟩
  | compared q c v w =>
    obtain ⟨before, after, hitems⟩ := List.append_of_mem hl
    obtain ⟨pre, -, rfl⟩ := exists_front h hitems
    have hparse : q.rule.pattern.Parses (tokens (.compared q c v w)) := parses_rule.mpr ⟨_, _, _, rfl, rfl, rfl, rfl⟩
    exact absurd (hnone q) (Pattern.find?_ne_none (by simp [Kind.rule]) rfl q.determined_rule hparse _ _)

/-- Two truth values stand at the start if there are no comparisons. -/
theorem exists_truths (htruths : ∀ l ∈ items, ∃ x, l.2 = .truth x) (hlen : 2 ≤ s.length) : ∃ x k y after,
    items = (.and, .truth x) :: (k, .truth y) :: after ∧ s = [.truth x, k.token, .truth y] ++ chain tokens after := by
  match items, h with
  | [], h => cases h
  | [(k, J)], h =>
    obtain ⟨x, rfl⟩ := htruths (k, J) (by simp)
    rw [chain_cons, chain_nil, List.append_nil] at h
    rw [(List.cons.inj h).2] at hlen
    simp [tokens] at hlen
  | (k, J) :: (k', J') :: after, h =>
    obtain ⟨x, rfl⟩ := htruths (k, J) (by simp)
    obtain ⟨y, rfl⟩ := htruths (k', J') (by simp)
    rw [chain_cons, chain_cons] at h
    obtain ⟨hk, rfl⟩ := List.cons.inj h
    obtain rfl := eq_and_of_token hk
    exact ⟨x, k', y, after, rfl, rfl⟩

theorem contracts_of_find? (hfind : q.rule.pattern.find? s = some (i, span)) :
    ∃ pre post, s = pre ++ (span ++ post) ∧ i = pre.length ∧ Contracts items pre span post := by
  obtain ⟨pre, post, rfl, rfl, hfound⟩ := Pattern.foundAt_of_find? hfind
  obtain ⟨l, o, r, rfl, -, ho, -⟩ := parses_rule.mp hfound.parses
  obtain ⟨before, k, q', c, v, w, after, rfl, hpre, hspan, rfl⟩ :=
    @exists_compared items (Connective.and.token :: pre) _ _ _ _ h.symm ho
  exact ⟨pre, _, rfl, rfl, hspan ▸ .compared before after k q' c v w pre hpre⟩

/-- Of the standard rules only the comparisons and the combination apply. -/
theorem firstMatch?_standard : Rule.firstMatch? Rule.standard s =
    Rule.firstMatch? [Kind.number.rule, Kind.text.rule, ⟨.combination, .step .apply⟩] s := by
  have hcategory : ∀ u ∈ s, u.category ≠ .operator ∧ u.category ≠ .grouping := fun u hu =>
    category_chain (h ▸ List.mem_cons_of_mem _ hu)
  have habove := Rule.find?_of_no_operator (fun hopening => (hcategory _ hopening).2 rfl) fun u hu => (hcategory u hu).1
  have hsplit : Rule.standard = (Rule.brackets ++ Rule.flat.take 9) ++
      ([⟨.ascendingRange, .step .expandRange⟩, ⟨.descendingRange, .step .expandRange⟩] ++
        [Kind.number.rule, Kind.text.rule, ⟨.combination, .step .apply⟩]) := rfl
  rw [hsplit, Rule.firstMatch?_append habove, Rule.firstMatch?_append]
  simp only [List.forall_mem_cons]
  exact ⟨find?_range h, find?_range h, by simp⟩

/-- The topmost match is a comparison, or the combination at the start if there is none. -/
theorem contracts_of_firstMatch? (hmatch : Rule.firstMatch? Rule.standard s = some (rule, i, span)) :
    rule.action = .step .apply ∧
      ∃ pre post, s = pre ++ (span ++ post) ∧ i = pre.length ∧ Contracts items pre span post := by
  rw [firstMatch?_standard h] at hmatch
  rcases Rule.firstMatch?_cons hmatch with ⟨rfl, hfind⟩ | ⟨hnumber, hmatch⟩
  · exact ⟨rfl, contracts_of_find? h hfind⟩
  rcases Rule.firstMatch?_cons hmatch with ⟨rfl, hfind⟩ | ⟨htext, hmatch⟩
  · exact ⟨rfl, contracts_of_find? h hfind⟩
  rcases Rule.firstMatch?_cons hmatch with ⟨rfl, hfind⟩ | ⟨-, hmatch⟩
  · obtain ⟨pre, post, hs, rfl, hfound⟩ := Pattern.foundAt_of_find? hfind
    obtain ⟨l, o, r, rfl, -⟩ := parses_combination.mp hfound.parses
    have hlen : 2 ≤ s.length := by
      rw [hs]
      simp only [List.length_append, List.length_cons]
      omega
    obtain ⟨x, k, y, after, rfl, hstart⟩ :=
      exists_truths h (truths_of_find? h fun q => by cases q <;> assumption) hlen
    -- The combination at the start is found first.
    have hpre : pre = [] := by
      by_contra hne
      have hnone := hfound.first [] pre rfl hne
      rw [← hs, hstart, Pattern.prefix?_of_parses Clause.determined_combination (parses_truths x y k)] at hnone
      cases hnone
    subst hpre
    have hsame : [l, o, r] ++ post = [.truth x, k.token, .truth y] ++ chain tokens after := hs.symm.trans hstart
    obtain ⟨hspan, rfl⟩ := List.append_inj hsame rfl
    rw [hspan]
    exact ⟨rfl, [], _, hstart, rfl, .combined x y k after⟩
  · cases hmatch

theorem firstMatch?_ne_none (hlen : 2 ≤ s.length) : Rule.firstMatch? Rule.standard s ≠ none := by
  intro hmatch
  rw [firstMatch?_standard h, Rule.firstMatch?_eq_none] at hmatch
  have hkinds : ∀ q : Kind, q.rule.pattern.find? s = none := fun q => hmatch q.rule (by cases q <;> simp)
  obtain ⟨x, k, y, after, rfl, rfl⟩ := exists_truths h (truths_of_find? h hkinds) hlen
  exact Pattern.find?_ne_none (by simp [Pattern.combination]) rfl Clause.determined_combination (parses_truths x y k) [] _
    (hmatch ⟨.combination, .step .apply⟩ (by simp))

end Match

end Judgement

/-! ### Reduction of comparisons -/

namespace Engine
open Connective Judgement
variable {e : Engine} {depth : Int} {t : Token}

theorem fire_compared (nested : Stream → Traced Token) (q : Kind) (c : Comparator) (v w : Value) :
    e.fire nested (.step .apply) (Judgement.tokens (.compared q c v w)) =
      (Judgement.value Comparator.checked (.compared q c v w)).map fun x => [.truth x] := by
  refine (e.fire_operands nested c.operation .comparator ⟨q.category, v⟩ ⟨q.category, w⟩).trans ?_
  rw [c.category_operation, Judgement.value, c.contracted_eq, Comparator.contracted]
  cases c.checked v w <;> rfl

theorem fire_combined (nested : Stream → Traced Token) (x y : Bool) (k : Connective) :
    e.fire nested (.step .apply) [.truth x, k.token, .truth y] = .ok [.truth (k.holds x y)] := by
  have hcontracted : k.operation.contracted (.bool x) (.bool y) = .ok (.bool (k.holds x y)) :=
    Operation.contracted_of_apply (k.apply_eq x y) rfl rfl rfl
  refine (e.fire_operands nested k.operation .combinator (.truth x) (.truth y)).trans ?_
  rw [Token.truth, Token.truth, hcontracted]
  cases k <;> rfl

/-- Joined comparisons of values reduce to the combination of their truth values. -/
theorem reduce_judgements (he : e.IsPlain) (hd : depth ≤ e.limit) (first : Judgement) (rest : List (Connective × Judgement)) :
    (e.reduce depth (joined Judgement.tokens first rest)).outcome = .ok t ↔
      ∃ x, combined (Judgement.value Comparator.checked) first rest = .ok x ∧ t = .truth x := by
  -- In the induction the first operand has a connective like the others, which changes nothing.
  suffices h : ∀ s items, Connective.and.token :: s = chain Judgement.tokens items → ∀ t,
      (e.reduce depth s).outcome = .ok t ↔
        ∃ x, combine (Judgement.value Comparator.checked) true items = .ok x ∧ t = .truth x from
    h _ ((.and, first) :: rest) rfl t
  refine reduce_induction (motive := fun s o => ∀ items, Connective.and.token :: s = chain Judgement.tokens items → ∀ t,
    o = .ok t ↔ ∃ x, combine (Judgement.value Comparator.checked) true items = .ok x ∧ t = .truth x)
    he.isStandard he.rounds hd ?nil ?single ?stuck ?step
  case nil =>
    intro items hs
    match items, hs with
    | (k, .truth x) :: items, hs => simp [Judgement.tokens] at hs
    | (k, .compared q c v w) :: items, hs => simp [Judgement.tokens] at hs
  case single =>
    intro u items hs t
    match items, hs with
    | [(k, .truth x)], hs =>
      simp only [chain_cons, chain_nil, Judgement.tokens, List.append_nil, List.cons.injEq] at hs
      obtain rfl := eq_and_of_token hs.1
      simp [hs.2.1, combine, Judgement.value, Except.bind, Connective.holds, eq_comm]
    | (k, .truth x) :: item :: items, hs => simp [Judgement.tokens] at hs
    | (k, .compared q c v w) :: items, hs => simp [Judgement.tokens] at hs
  case stuck =>
    intro s hlen hmatch items hs
    rw [he.all] at hmatch
    exact absurd hmatch (firstMatch?_ne_none hs hlen)
  case step =>
    intro pre span post r hmatch _ ih items hs t
    rw [he.all] at hmatch
    obtain ⟨haction, pre', post', hsplit, hlength, hcontracts⟩ := contracts_of_firstMatch? hs hmatch
    obtain ⟨rfl, hrest⟩ := List.append_inj hsplit hlength
    obtain rfl := List.append_cancel_left hrest
    rw [haction] at ih ⊢
    cases hcontracts with
    | compared before after k q c v w _ hpre =>
      rw [fire_compared] at ih ⊢
      cases hx : Judgement.value Comparator.checked (.compared q c v w) with
      | error f => simp [combine_append, hx, Except.map, Except.bind]
      | ok x =>
        have hitems : Connective.and.token :: (pre ++ ([.truth x] ++ chain Judgement.tokens after)) =
            chain Judgement.tokens (before ++ (k, .truth x) :: after) := by
          rw [chain_append, chain_cons, ← List.cons_append, hpre]
          simp [Judgement.tokens]
        refine (ih _ (by rw [hx]; rfl) _ hitems t).trans ?_
        simp only [combine_append, hx]
        rfl
    | combined x y k after =>
      rw [fire_combined] at ih ⊢
      exact ih _ rfl ((.and, .truth (k.holds x y)) :: after) rfl t

end Engine

/-! ### Statements -/

/-- An operand of a connective: a truth value, a comparison of two lines, or one of two texts. -/
inductive Statement where
  | truth (x : Bool)
  | numbers (c : Comparator) (l r : Value × Links)
  | texts (c : Comparator) (s t : String)

namespace Statement

def tokens : Statement → Stream
  | .truth x => [.truth x]
  | .numbers c l r => Stream.comparison c l r
  | .texts c s t => [⟨.string, .text s⟩, c.token, ⟨.string, .text t⟩]

def elements : Statement → List Element
  | .truth x => [.token (.truth x)]
  | .numbers c l r => [.line l, .token c.token, .line r]
  | .texts c s t => [.token ⟨.string, .text s⟩, .token c.token, .token ⟨.string, .text t⟩]

section Value
variable (op : Sign → Value → Value → Outcome Value) (holds : Comparator → Value → Value → Outcome Bool)

/-- The operand with the values of its lines, if an operation is carried out like this. -/
def settled : Statement → Outcome Judgement
  | .truth x => .ok (.truth x)
  | .numbers c l r => (Links.value op l.1 l.2).bind fun v => (Links.value op r.1 r.2).map fun w => .compared .number c v w
  | .texts c s t => .ok (.compared .text c (.text s) (.text t))

/-- The truth value that the operand has by itself. -/
def value (a : Statement) : Outcome Bool := (a.settled op).bind (Judgement.value holds)

end Value

open Connective

variable {a first : Statement} {rest : List (Connective × Statement)} {us : Stream}

theorem tokens_elements (a : Statement) : a.elements.flatMap Element.tokens = a.tokens := by
  cases a <;> simp [elements, tokens, Element.tokens, Stream.comparison]

theorem forall_elements (a : Statement) : ∀ t, .token t ∈ a.elements → t.isDelimiter = false ∧ t.category ≠ .operator := by
  cases a <;> simp [elements, Token.truth, Comparator.token, Token.isDelimiter]

theorem settled_elements : List.Forall₂ (fun p u => Element.settled p = .ok u) a.elements us ↔
    ∃ J, a.settled Sign.contracted = .ok J ∧ us = J.tokens := by
  cases a with
  | truth x | texts c s t =>
    simp [elements, settled, Element.settled, List.forall₂_cons_left_iff, Judgement.tokens, Kind.category]
  | numbers c l r =>
    simp only [elements, settled, Element.settled, List.forall₂_cons_left_iff, Outcome.bind_eq_ok_iff, Outcome.map_eq_ok_iff]
    constructor
    · rintro ⟨_, _, ⟨v, hv, rfl⟩, ⟨_, _, hc, ⟨_, _, ⟨w, hw, rfl⟩, hnil, rfl⟩, rfl⟩, rfl⟩
      rw [List.forall₂_nil_left_iff.mp hnil, ← Except.ok.inj hc]
      exact ⟨_, ⟨v, hv, w, hw, rfl⟩, rfl⟩
    · rintro ⟨_, ⟨v, hv, w, hw, rfl⟩, rfl⟩
      exact ⟨_, _, ⟨v, hv, rfl⟩, ⟨_, _, rfl, ⟨_, _, ⟨w, hw, rfl⟩, .nil, rfl⟩, rfl⟩, rfl⟩

/-- The elements of connectives with operands behind them. -/
def chainElements (items : List (Connective × Statement)) : List Element :=
  items.flatMap fun l => .token l.1.token :: l.2.elements

theorem tokens_chainElements (items : List (Connective × Statement)) :
    (chainElements items).flatMap Element.tokens = chain tokens items := by
  induction items with
  | nil => rfl
  | cons l items ih =>
    rw [chainElements, List.flatMap_cons, List.cons_append, List.flatMap_cons, List.flatMap_append, tokens_elements]
    exact congrArg (fun s => l.1.token :: (l.2.tokens ++ s)) ih

/-- The operands have their lines reduced. -/
def Settles (items : List (Connective × Statement)) (judged : List (Connective × Judgement)) : Prop :=
  List.Forall₂ (fun l m => l.1 = m.1 ∧ l.2.settled Sign.contracted = .ok m.2) items judged

theorem settles_chainElements {items : List (Connective × Statement)} :
    List.Forall₂ (fun p u => Element.settled p = .ok u) (chainElements items) us ↔
      ∃ judged, Settles items judged ∧ us = chain Judgement.tokens judged := by
  induction items generalizing us with
  | nil => simp [chainElements, Settles]
  | cons l items ih =>
    obtain ⟨k, a⟩ := l
    have helements : chainElements ((k, a) :: items) = .token k.token :: (a.elements ++ chainElements items) := rfl
    rw [helements]
    simp only [Settles, List.forall₂_cons_left_iff, Element.settled_token, Except.ok.injEq, forall₂_append, settled_elements,
      ih]
    constructor
    · rintro ⟨_, _, rfl, ⟨_, _, ⟨J, hJ, rfl⟩, ⟨judged, hjudged, rfl⟩, rfl⟩, rfl⟩
      exact ⟨(k, J) :: judged, ⟨(k, J), judged, ⟨rfl, hJ⟩, hjudged, rfl⟩, rfl⟩
    · rintro ⟨_, ⟨⟨_, J⟩, judged, ⟨rfl, hJ⟩, hjudged, rfl⟩, rfl⟩
      exact ⟨_, _, rfl, ⟨_, _, ⟨J, hJ, rfl⟩, ⟨judged, hjudged, rfl⟩, rfl⟩, rfl⟩

theorem combine_settled {x z : Bool} {items : List (Connective × Statement)} :
    combine (value Sign.contracted Comparator.checked) x items = .ok z ↔
      ∃ judged, Settles items judged ∧ combine (Judgement.value Comparator.checked) x judged = .ok z := by
  induction items generalizing x with
  | nil => simp [Settles, combine]
  | cons l items ih =>
    obtain ⟨k, a⟩ := l
    simp only [combine, value, Settles, List.forall₂_cons_left_iff, Outcome.bind_eq_ok_iff, ih]
    constructor
    · rintro ⟨y, ⟨J, hJ, hy⟩, judged, hjudged, hz⟩
      exact ⟨(k, J) :: judged, ⟨(k, J), judged, ⟨rfl, hJ⟩, hjudged, rfl⟩, Outcome.bind_eq_ok_iff.mpr ⟨y, hy, hz⟩⟩
    · rintro ⟨_, ⟨⟨_, J⟩, judged, ⟨rfl, hJ⟩, hjudged, rfl⟩, hz⟩
      obtain ⟨y, hy, hz⟩ := Outcome.bind_eq_ok_iff.mp hz
      exact ⟨y, ⟨J, hJ, hy⟩, judged, hjudged, hz⟩

/-! #### Operations that agree up to a failure -/

section Agree
variable {op op' : Sign → Value → Value → Outcome Value} {holds holds' : Comparator → Value → Value → Outcome Bool}
  {f : Failure} (hop : ∀ s v w, op s v w = .error f ∨ op s v w = op' s v w)
  (hholds : ∀ c v w, holds c v w = .error f ∨ holds c v w = holds' c v w)
include hop hholds

theorem value_agree (a : Statement) : a.value op holds = .error f ∨ a.value op holds = a.value op' holds' := by
  have hline : ∀ b : Value × Links, Links.value op b.1 b.2 = .error f ∨ Links.value op b.1 b.2 = Links.value op' b.1 b.2 :=
    fun b => Outcome.map_agree (Level.foldAll_agree hop)
  have hjudgement : ∀ J : Judgement, J.value holds = .error f ∨ J.value holds = J.value holds' := fun J => by
    cases J with
    | truth x => exact Or.inr rfl
    | compared q c v w => exact hholds c v w
  refine Outcome.bind_agree ?_ hjudgement
  cases a with
  | truth x | texts c s t => exact Or.inr rfl
  | numbers c l r => exact Outcome.bind_agree (hline l) fun v => Outcome.map_agree (hline r)

theorem combine_agree {x : Bool} : combine (value op holds) x rest = .error f ∨
    combine (value op holds) x rest = combine (value op' holds') x rest := by
  induction rest generalizing x with
  | nil => exact Or.inr rfl
  | cons l rest ih => exact Outcome.bind_agree (value_agree hop hholds l.2) fun y => ih

end Agree

end Statement

/-- Joined statements reduce to their truth values, each of them by itself, combined from left to right. What is different
    from the operations and the truth of the comparisons is that an integer may be too long to be written. -/
theorem Engine.reduce_statements {e : Engine} {depth : Int} (he : e.IsPlain) (hd : depth ≤ e.limit) (first : Statement)
    (rest : List (Connective × Statement)) :
    let out := (e.reduce depth (Connective.joined Statement.tokens first rest)).outcome
    let combined := fun op holds => Connective.combined (Statement.value op holds) first rest
    let contracted := combined Sign.contracted Comparator.checked
    (∀ t, out = .ok t ↔ ∃ x, contracted = .ok x ∧ t = .truth x) ∧
      (contracted = .error .longInteger ∨ contracted = combined (fun s => s.operation.apply) Comparator.truth) := by
  intro out combined contracted
  refine ⟨fun t => ?_, ?_⟩
  · have helements : ∀ u, .token u ∈ first.elements ++ Statement.chainElements rest →
        u.isDelimiter = false ∧ u.category ≠ .operator := by
      intro u hu
      rcases List.mem_append.mp hu with hu | hu
      · exact first.forall_elements u hu
      · obtain ⟨l, -, hu⟩ := List.mem_flatMap.mp hu
        rcases List.mem_cons.mp hu with hu | hu
        · rw [Element.token.inj hu]
          simp [Connective.token, Token.isDelimiter]
        · exact l.2.forall_elements u hu
    have hreduce := @reduce_elements e depth he.isStandard he.rounds hd _ helements t
    rw [List.flatMap_append, Statement.tokens_elements, Statement.tokens_chainElements] at hreduce
    refine hreduce.trans ?_
    simp only [forall₂_append, Statement.settled_elements, Statement.settles_chainElements, contracted, combined,
      Connective.combined, Statement.value, Outcome.bind_eq_ok_iff, Statement.combine_settled]
    constructor
    · rintro ⟨_, ⟨_, _, ⟨J, hJ, rfl⟩, ⟨judged, hjudged, rfl⟩, rfl⟩, ht⟩
      obtain ⟨x, hx, rfl⟩ := (reduce_judgements he hd J judged).mp ht
      obtain ⟨y, hy, hx⟩ := Outcome.bind_eq_ok_iff.mp hx
      exact ⟨x, ⟨y, ⟨J, hJ, hy⟩, judged, hjudged, hx⟩, rfl⟩
    · rintro ⟨x, ⟨y, ⟨J, hJ, hy⟩, judged, hjudged, hx⟩, rfl⟩
      exact ⟨_, ⟨_, _, ⟨J, hJ, rfl⟩, ⟨judged, hjudged, rfl⟩, rfl⟩,
        (reduce_judgements he hd J judged).mpr ⟨x, Outcome.bind_eq_ok_iff.mpr ⟨y, hy, hx⟩, rfl⟩⟩
  · have hop : ∀ s v w, Sign.contracted s v w = .error .longInteger ∨ Sign.contracted s v w = s.operation.apply v w :=
      fun s => s.operation.contracted_agree
    exact Outcome.bind_agree (Statement.value_agree hop Comparator.checked_agree first)
      fun x => Statement.combine_agree hop Comparator.checked_agree

/-- In `"a" < "b" or true and 2 + 3 * 4 > 15` the connective in front is not looser than the one behind. -/
theorem Engine.reduce_statements_left : (Engine.reduce {} 0 (Connective.joined Statement.tokens (.texts .lt "a" "b")
    [(.or, .truth true), (.and, .numbers .gt (.int 2, [(.add, .int 3), (.multiply, .int 4)]) (.int 15, []))])).outcome =
      .ok (.truth false) := by
  have hproduct : Sign.contracted .multiply (.int 3) (.int 4) = .ok (.int 12) :=
    Operation.contracted_of_apply rfl (by decide +kernel) (by decide +kernel) (by decide +kernel)
  have hsum : Sign.contracted .add (.int 2) (.int 12) = .ok (.int 14) :=
    Operation.contracted_of_apply rfl (by decide +kernel) (by decide +kernel) (by decide +kernel)
  have hgreater : Comparator.checked .gt (.int 14) (.int 15) = .ok false :=
    Comparator.checked_of_truth (Comparator.truth_ints ..) (by decide +kernel) (by decide +kernel)
  have hless : Comparator.truth .lt (.text "a") (.text "b") = .ok true :=
    congrArg Except.ok (decide_eq_true (by decide))
  have hline : Links.value Sign.contracted (.int 2) [(.add, .int 3), (.multiply, .int 4)] = .ok (.int 14) := by
    simp [Links.value, Level.all, Level.foldAll, Level.fold, Sign.level, Except.map, Except.bind, hproduct, hsum]
  have hfirst : Statement.value Sign.contracted Comparator.checked (.texts .lt "a" "b") = .ok true :=
    Comparator.checked_of_truth hless rfl rfl
  have hlast : Statement.value Sign.contracted Comparator.checked
      (.numbers .gt (.int 2, [(.add, .int 3), (.multiply, .int 4)]) (.int 15, [])) = .ok false := by
    have hsingle : Links.value Sign.contracted (.int 15) [] = .ok (.int 15) := rfl
    rw [Statement.value, Statement.settled, hline, hsingle]
    simp only [Except.bind, Except.map, Judgement.value, hgreater]
  refine ((@reduce_statements {} 0 ⟨rfl, rfl⟩ (by decide) _ _).1 _).mpr ⟨false, ?_, rfl⟩
  simp only [Connective.combined, Connective.combine, hfirst, hlast]
  rfl

end Reckoner
