import Reckoner.Proofs.Lines
import Mathlib.Data.List.Chain

/-!
# Lines under standard tables

A standard table reduces a line level by level, from left to right, wherever the line stands between tokens
that do not interfere (`Frame`): no rule on brackets or calls may match, and the level and the tighter
ones may find nothing to contract around the line (`Level.Due`). Then the level is folded from left to right, as the
value of the line says (`Engine.reduce_fold`).
-/

namespace Reckoner

/-! ### The rules of the levels -/

namespace Level

def matcher : Level → Matcher
  | .power => .powerSign
  | .remainder => .percentSign
  | .product => .productSign
  | .sum => .sumSign

def rule (L : Level) : Rule := ⟨[.numeric, L.matcher, .numeric], .step .apply⟩

def Has (L : Level) (t : Token) : Prop := ∃ s : Sign, s.level = L ∧ t = s.token

/-- The standard rules without brackets that stand above the rule of a level. -/
def above : Level → List Rule
  | .power => Rule.flat.take 1
  | .remainder => Rule.flat.take 3
  | .product => Rule.flat.take 4
  | .sum => Rule.flat.take 6

def below : Level → List Rule
  | .power => Rule.flat.drop 2
  | .remainder => Rule.flat.drop 4
  | .product => Rule.flat.drop 5
  | .sum => Rule.flat.drop 7

theorem flat_eq (L : Level) : Rule.flat = L.above ++ L.rule :: L.below := by
  cases L <;> rfl

theorem Has.category {L : Level} {t : Token} (h : L.Has t) : t.category = .operator := by
  obtain ⟨s, -, rfl⟩ := h
  rfl

theorem has_token {L : Level} {s : Sign} : L.Has s.token ↔ s.level = L :=
  ⟨fun ⟨_, hs, h⟩ => Sign.token_injective h ▸ hs, fun h => ⟨s, h, rfl⟩⟩

def signs : Level → List Sign
  | .power => [.pow]
  | .remainder => [.mod]
  | .product => [.multiply, .divide]
  | .sum => [.add, .subtract]

theorem mem_signs {L : Level} {s : Sign} : s ∈ L.signs ↔ s.level = L := by
  cases L <;> cases s <;> simp [signs, Sign.level]

theorem matcher_eq (L : Level) : L.matcher = .of .operator (L.signs.map fun s => s.operation.name) := by
  cases L <;> rfl

theorem accepts_matcher {L : Level} {t : Token} : L.matcher.accepts t = true ↔ L.Has t := by
  have hne : L.signs.map (fun s => s.operation.name) ≠ [] := by cases L <;> simp [signs]
  rw [matcher_eq, Matcher.accepts_names hne]
  constructor
  · rintro ⟨n, hn, rfl⟩
    obtain ⟨s, hs, rfl⟩ := List.mem_map.mp hn
    exact ⟨s, mem_signs.mp hs, rfl⟩
  · rintro ⟨s, hs, rfl⟩
    exact ⟨_, List.mem_map_of_mem (mem_signs.mpr hs), rfl⟩

/-- Two numbers and an operator of the level between them. -/
def Window (L : Level) (l o r : Token) : Prop := l.category = .numeric ∧ L.Has o ∧ r.category = .numeric

theorem parses_rule {L : Level} {ts : Stream} :
    L.rule.pattern.Parses ts ↔ ∃ l o r, ts = [l, o, r] ∧ L.Window l o r := by
  have hsingle : L.matcher.least = 1 ∧ L.matcher.greatest = some 1 := by cases L <;> exact ⟨rfl, rfl⟩
  have hnumeric : ∀ {t}, Matcher.numeric.accepts t = true ↔ t.category = .numeric := Matcher.accepts_category
  simp only [rule, Pattern.parses_single (m := .numeric) rfl rfl, Pattern.parses_single hsingle.1 hsingle.2,
    Pattern.parses_nil, hnumeric, accepts_matcher]
  constructor
  · rintro ⟨l, _, rfl, hl, o, _, rfl, ho, r, _, rfl, hr, rfl⟩
    exact ⟨l, o, r, rfl, hl, ho, hr⟩
  · rintro ⟨l, o, r, rfl, hl, ho, hr⟩
    exact ⟨l, _, rfl, hl, o, _, rfl, ho, r, _, rfl, hr, rfl⟩

theorem determined_rule (L : Level) : L.rule.pattern.Determined := by
  have hsingle : L.matcher.greatest = some L.matcher.least := by cases L <;> rfl
  exact ⟨Or.inl rfl, Or.inl hsingle, Or.inl rfl, trivial⟩

theorem prefix?_eq_none {L : Level} {ts : Stream} : L.rule.pattern.prefix? ts = none ↔
    ∀ l o r rest, ts = l :: o :: r :: rest → ¬ L.Window l o r := by
  constructor
  · rintro h l o r rest rfl hw
    have := Pattern.prefix?_of_parses L.determined_rule (parses_rule.mpr ⟨l, o, r, rfl, hw⟩) rest
    rw [show [l, o, r] ++ rest = l :: o :: r :: rest from rfl, h] at this
    cases this
  · intro h
    cases hp : L.rule.pattern.prefix? ts with
    | none => rfl
    | some taken =>
      obtain ⟨hparse, rest, hts⟩ := Pattern.parses_of_prefix? hp
      obtain ⟨l, o, r, rfl, hw⟩ := parses_rule.mp hparse
      exact absurd hw (h l o r rest hts)

/-! ### What stands in front of a line -/

/-- No two numbers with an operator of the level between them begin in these tokens, where a number follows. -/
def Settled (L : Level) (front : Stream) : Prop :=
  ∀ a b, front = a ++ b → b ≠ [] → ∀ v rest, L.rule.pattern.prefix? (b ++ (.number v :: rest)) = none

variable {L : Level} {front : Stream} {x y : Token}

theorem settled_nil (L : Level) : L.Settled [] := by
  intro a b h hb
  exact absurd (List.append_eq_nil_iff.mp h.symm).2 hb

/-- Any token but a number may follow, and an operator of the level if it does not follow a number. -/
theorem Settled.snoc (h : L.Settled front) (hc : x.category ≠ .numeric)
    (hx : ∀ u ∈ front.getLast?, u.category = .numeric → ¬ L.Has x) : L.Settled (front ++ [x]) := by
  intro a b hab hb v rest
  rw [prefix?_eq_none]
  rintro l o r rest' hts ⟨hl, ho, hr⟩
  obtain ⟨c, rfl, rfl⟩ : ∃ c, front = a ++ c ∧ b = c ++ [x] := by
    rcases List.append_eq_append_iff.mp hab with ⟨c, hc, hx⟩ | ⟨c, hc, hx⟩
    · cases c with
      | nil => exact ⟨[], by simp [hc], by simpa using hx.symm⟩
      | cons y c =>
        simp only [List.cons_append, List.cons.injEq, List.nil_eq, List.append_eq_nil_iff] at hx
        exact absurd hx.2.2 hb
    · exact ⟨c, hc, hx⟩
  match c with
  | [] =>
    simp only [List.nil_append, List.cons_append, List.cons.injEq] at hts
    exact hc (hts.1 ▸ hl)
  | [u] =>
    simp only [List.nil_append, List.cons_append, List.cons.injEq] at hts
    exact hx u List.getLast?_concat (hts.1 ▸ hl) (hts.2.1 ▸ ho)
  | [u, z] =>
    simp only [List.nil_append, List.cons_append, List.cons.injEq] at hts
    exact hc (hts.2.2.1 ▸ hr)
  | u :: z :: w :: c =>
    simp only [List.cons_append, List.cons.injEq] at hts
    obtain ⟨rfl, rfl, rfl, -⟩ := hts
    exact prefix?_eq_none.mp (h a _ rfl (by simp) v rest) u z w _ rfl ⟨hl, ho, hr⟩

/-- A number may follow, with a token behind it that is no operator of the level. -/
theorem Settled.number (h : L.Settled front) (hc : x.category ≠ .numeric) (hx : ¬ L.Has x) (u : Value) :
    L.Settled (front ++ [.number u, x]) := by
  intro a b hab hb v rest
  rcases List.append_eq_append_iff.mp hab with ⟨c, hc', hcb⟩ | ⟨c, hc', rfl⟩
  · rw [prefix?_eq_none]
    rintro l o r rest' hts ⟨hl, ho, hr⟩
    match c with
    | [] =>
      rw [List.nil_append] at hcb
      subst hcb
      simp only [List.cons_append, List.nil_append, List.cons.injEq] at hts
      exact hx (hts.2.1 ▸ ho)
    | [y] =>
      simp only [List.cons_append, List.nil_append, List.cons.injEq] at hcb
      rw [← hcb.2] at hts
      simp only [List.cons_append, List.nil_append, List.cons.injEq] at hts
      exact hc (hts.1 ▸ hl)
    | y :: z :: c =>
      simp only [List.cons_append, List.cons.injEq, List.nil_eq, List.append_eq_nil_iff] at hcb
      exact absurd hcb.2.2.2 hb
  · cases c with
    | nil =>
      rw [prefix?_eq_none]
      rintro l o r rest' hts ⟨-, ho, -⟩
      simp only [List.cons_append, List.nil_append, List.cons.injEq] at hts
      exact hx (hts.2.1 ▸ ho)
    | cons y c =>
      rw [List.append_assoc]
      exact h a (y :: c) hc' (by simp) u (x :: (.number v :: rest))

/-- A number may follow, with any operator behind it and a token that is no number. -/
theorem Settled.number_pair (h : L.Settled front) (hx : x.category ≠ .numeric) (hy : y.category ≠ .numeric)
    (u : Value) : L.Settled (front ++ [.number u, x, y]) := by
  intro a b hab hb v rest
  rcases List.append_eq_append_iff.mp hab with ⟨c, -, hcb⟩ | ⟨c, hc, rfl⟩
  · rw [prefix?_eq_none]
    rintro l o r rest' hts ⟨hl, -, hr⟩
    match c with
    | [] =>
      rw [List.nil_append] at hcb
      rw [← hcb] at hts
      simp only [List.cons_append, List.nil_append, List.cons.injEq] at hts
      exact hy (hts.2.2.1 ▸ hr)
    | [_] =>
      simp only [List.cons_append, List.nil_append, List.cons.injEq] at hcb
      rw [← hcb.2] at hts
      simp only [List.cons_append, List.nil_append, List.cons.injEq] at hts
      exact hx (hts.1 ▸ hl)
    | [_, _] =>
      simp only [List.cons_append, List.nil_append, List.cons.injEq] at hcb
      rw [← hcb.2.2] at hts
      simp only [List.cons_append, List.nil_append, List.cons.injEq] at hts
      exact hy (hts.1 ▸ hl)
    | _ :: _ :: _ :: c =>
      simp only [List.cons_append, List.cons.injEq, List.nil_eq, List.append_eq_nil_iff] at hcb
      exact absurd hcb.2.2.2.2 hb
  · cases c with
    | nil =>
      rw [prefix?_eq_none]
      rintro l o r rest' hts ⟨-, -, hr⟩
      simp only [List.cons_append, List.nil_append, List.cons.injEq] at hts
      exact hy (hts.2.2.1 ▸ hr)
    | cons z c =>
      rw [List.append_assoc]
      exact h a (z :: c) hc (by simp) u (x :: y :: (.number v :: rest))

end Level

/-! ### Rules that match nowhere -/

/-- No operator follows an operator. -/
def Stream.IsAlternating (ts : Stream) : Prop :=
  ts.IsChain fun t u => t.category = .operator → u.category ≠ .operator

namespace Pattern
variable {p : Pattern} {ts : Stream}

/-- A pattern that parses no part of a stream is not found in it. -/
theorem find?_eq_none_of (h : ∀ pre span post, ts = pre ++ (span ++ post) → p.Parses span →
    (p.isAnchored = true → pre = []) → False) : p.find? ts = none := by
  cases hf : p.find? ts with
  | none => rfl
  | some found =>
    obtain ⟨k, span⟩ := found
    obtain ⟨pre, post, hts, -, hfound⟩ := foundAt_of_find? hf
    exact (h pre span post hts hfound.parses hfound.anchored).elim

theorem find?_leadingNegation (h : ∀ t ∈ ts.head?, t.category ≠ .operator) : leadingNegation.find? ts = none := by
  refine find?_eq_none_of fun pre span post hts hp hpre => ?_
  obtain ⟨m, rest, rfl, hm, -⟩ := (parses_single (m := .leadingMinus) rfl rfl).mp hp
  rw [hpre rfl] at hts
  exact h m (by simp [hts]) (Matcher.accepts_of.mp hm).1

/-- A pattern of four tokens with two operators in the middle, where two operators stand side by side at a single
    place. -/
theorem find?_of_seam {c d : Category} {xs ys zs ws : List String} {front back : Stream} (hfront : front.IsAlternating)
    (hback : back.IsAlternating) (hseam : ∀ t ∈ front.getLast?, ∀ u ∈ back.head?,
      (Matcher.of .operator ys).accepts t = true → (Matcher.of .operator zs).accepts u = false) :
    find? [.of c xs, .of .operator ys, .of .operator zs, .of d ws] (front ++ back) = none := by
  have apart : ∀ ts : Stream, ts.IsAlternating → ts.IsChain fun t u =>
      (Matcher.of .operator ys).accepts t = true → (Matcher.of .operator zs).accepts u = false := fun ts h =>
    h.imp fun t u htu ht => Bool.eq_false_iff.mpr fun hu => htu (Matcher.accepts_of.mp ht).1 (Matcher.accepts_of.mp hu).1
  refine find?_eq_none_of fun pre span post hts hp _ => ?_
  obtain ⟨b, _, rfl, -, hp⟩ := of_parses hp
  obtain ⟨o, _, rfl, ho, hp⟩ := (parses_single rfl rfl).mp hp
  obtain ⟨m, t, rfl, hm, -⟩ := (parses_single rfl rfl).mp hp
  have hpair : [o, m] <:+: front ++ back := ⟨pre ++ [b], t ++ post, by simp [hts]⟩
  have hwhole := List.isChain_append.mpr ⟨apart front hfront, apart back hback, hseam⟩
  have hchain := hwhole.infix hpair
  simp only [List.isChain_cons_cons, List.isChain_singleton, and_true] at hchain
  rw [hchain ho] at hm
  cases hm

/-- A pattern of four tokens with two operators in the middle. -/
theorem find?_of_alternating {c d : Category} {xs ys zs ws : List String} (h : ts.IsAlternating) :
    find? [.of c xs, .of .operator ys, .of .operator zs, .of d ws] ts = none := by
  have := @find?_of_seam c d xs ys zs ws ts [] h .nil (by simp)
  rwa [List.append_nil] at this

end Pattern

/-! ### Patterns of two tokens -/

/-- The matcher takes one token, wherever it stands. -/
def Matcher.IsSingle (m : Matcher) : Prop := m.least = 1 ∧ m.greatest = some 1 ∧ m.anchored = false

namespace Pattern
variable {m k : Matcher} {ts span : Stream}

theorem parses_pair (hm : m.IsSingle) (hk : k.IsSingle) :
    Parses [m, k] span ↔ ∃ t u, span = [t, u] ∧ m.accepts t = true ∧ k.accepts u = true := by
  simp only [parses_single hm.1 hm.2.1, parses_single hk.1 hk.2.1, parses_nil]
  constructor
  · rintro ⟨t, _, rfl, ht, u, _, rfl, hu, rfl⟩
    exact ⟨t, u, rfl, ht, hu⟩
  · rintro ⟨t, u, rfl, ht, hu⟩
    exact ⟨t, _, rfl, ht, u, _, rfl, hu, rfl⟩

/-- A pattern of two tokens is found at the first of its places. -/
theorem foundAt_pair {t u : Token} {pre post : Stream} (hm : m.IsSingle) (hk : k.IsSingle) (ht : m.accepts t = true)
    (hu : k.accepts u = true) (hpre : (pre ++ [t]).IsChain fun t u => m.accepts t = true → k.accepts u = false) :
    FoundAt [m, k] pre [t, u] post := by
  have hparse : Parses [m, k] [t, u] := (parses_pair hm hk).mpr ⟨t, u, rfl, ht, hu⟩
  have hdetermined : Determined [m, k] := ⟨Or.inl (by rw [hm.1, hm.2.1]), Or.inl (by rw [hk.1, hk.2.1]), trivial⟩
  refine ⟨hparse, fun h => ?_, prefix?_of_parses hdetermined hparse post, fun a b hab hb => ?_⟩
  · simp [isAnchored, hm.2.2] at h
  cases hprefix : prefix? [m, k] (b ++ ([t, u] ++ post)) with
  | none => rfl
  | some taken =>
    obtain ⟨hp, rest, hts⟩ := parses_of_prefix? hprefix
    obtain ⟨x, y, rfl, hx, hy⟩ := (parses_pair hm hk).mp hp
    have hpair : [x, y] <:+: pre ++ [t] := by
      obtain ⟨z, b, rfl⟩ := List.exists_cons_of_ne_nil hb
      cases b with
      | nil =>
        simp only [List.cons_append, List.nil_append, List.cons.injEq] at hts
        exact ⟨a, [], by simp [hab, hts.1, hts.2.1]⟩
      | cons w b =>
        simp only [List.cons_append, List.nil_append, List.cons.injEq] at hts
        exact ⟨a, b ++ [t], by simp [hab, hts.1, hts.2.1]⟩
    have hchain : [x, y].IsChain fun t u : Token => m.accepts t = true → k.accepts u = false := hpre.infix hpair
    simp only [List.isChain_cons_cons, List.isChain_singleton, and_true] at hchain
    rw [hchain hx] at hy
    cases hy

/-- A pattern of two tokens is found where they stand side by side. -/
theorem find?_pair (hm : m.IsSingle) (hk : k.IsSingle) : find? [m, k] ts = none ↔
    ts.IsChain fun t u => m.accepts t = true → k.accepts u = false := by
  rw [List.isChain_iff_forall_rel_of_append_cons_cons]
  constructor
  · intro hnone t u pre post hts ht
    refine Bool.eq_false_iff.mpr fun hu => ?_
    have hdetermined : Determined [m, k] := ⟨Or.inl (by rw [hm.1, hm.2.1]), Or.inl (by rw [hk.1, hk.2.1]), trivial⟩
    have hparse : Parses [m, k] [t, u] := (parses_pair hm hk).mpr ⟨t, u, rfl, ht, hu⟩
    exact find?_ne_none (by simp) (by simp [isAnchored, hm.2.2]) hdetermined hparse pre post (hts ▸ hnone)
  · intro h
    refine find?_eq_none_of fun pre span post hts hp _ => ?_
    obtain ⟨t, u, rfl, ht, hu⟩ := (parses_pair hm hk).mp hp
    rw [h hts ht] at hu
    cases hu

end Pattern

theorem Matcher.accepts_percentSign {t : Token} : percentSign.accepts t = true ↔ t = Sign.mod.token := by
  rw [percentSign, accepts_names (by simp)]
  simp [Sign.token, Sign.operation, Operation.name]

theorem Matcher.accepts_minus {t : Token} : minus.accepts t = true ↔ t = Sign.subtract.token := by
  rw [minus, accepts_names (by simp)]
  simp [Sign.token, Sign.operation, Operation.name]

/-! ### Levels that match nowhere -/

/-- The standard rules without brackets that stand above a level match nowhere, if the stream does not begin with
    an operator, no tighter level matches, and neither do the rules on a minus behind an operator, as far as they
    stand above. -/
theorem Level.find?_above_of {L : Level} {ts : Stream} (hhead : ∀ t ∈ ts.head?, t.category ≠ .operator)
    (power : L ≠ .power → Pattern.powerNegated.find? ts = none)
    (product : L = .sum → Pattern.productNegated.find? ts = none)
    (level : ∀ M : Level, M.rank < L.rank → M.rule.pattern.find? ts = none) :
    ∀ r ∈ L.above, r.pattern.find? ts = none := by
  have leading : Pattern.leadingNegation.find? ts = none := Pattern.find?_leadingNegation hhead
  cases L
  case power => simpa [above, Rule.flat, Rule.standard] using leading
  case remainder =>
    have h₀ := level .power (by decide)
    simpa [above, Rule.flat, Rule.standard] using ⟨leading, h₀, power (by simp)⟩
  case product =>
    have h₀ := level .power (by decide)
    have h₁ := level .remainder (by decide)
    simpa [above, Rule.flat, Rule.standard] using ⟨leading, h₀, power (by simp), h₁⟩
  case sum =>
    have h₀ := level .power (by decide)
    have h₁ := level .remainder (by decide)
    have h₂ := level .product (by decide)
    simpa [above, Rule.flat, Rule.standard] using ⟨leading, h₀, power (by simp), h₁, h₂, product rfl⟩

/-- The rules above a level match nowhere, if no operator follows another one. -/
theorem Level.find?_above {L : Level} {ts : Stream} (hhead : ∀ t ∈ ts.head?, t.category ≠ .operator)
    (halt : ts.IsAlternating) (level : ∀ M : Level, M.rank < L.rank → M.rule.pattern.find? ts = none) :
    ∀ r ∈ L.above, r.pattern.find? ts = none :=
  Level.find?_above_of hhead (fun _ => Pattern.find?_of_alternating halt) (fun _ => Pattern.find?_of_alternating halt) level

/-- A level needs three tokens. -/
theorem Level.find?_short {L : Level} {ts : Stream} (h : ts.length < 3) : L.rule.pattern.find? ts = none := by
  refine Pattern.find?_eq_none_of fun pre span post hts hp _ => ?_
  obtain ⟨l, o, r, rfl, -⟩ := Level.parses_rule.mp hp
  have := congrArg List.length hts
  simp only [List.length_append, List.length_cons, List.length_nil] at this
  omega

/-! ### One operation -/

/-- An operation as a contraction carries it out: no integer may be too long to be written. -/
def Operation.contracted (op : Operation) (v w : Value) : Outcome Value :=
  (op.apply v w).bind fun u =>
    if v.isWritable && w.isWritable && u.isWritable then .ok u else .error .longInteger

theorem Operation.contracted_of_apply {op : Operation} {v w u : Value} (h : op.apply v w = .ok u)
    (hv : v.isWritable = true) (hw : w.isWritable = true) (hu : u.isWritable = true) : op.contracted v w = .ok u := by
  rw [contracted, h]
  exact if_pos (by rw [hv, hw, hu]; rfl)

/-- The operands of an operation in a contraction can be written, and so can what it gives. -/
theorem Operation.writable_of_contracted {op : Operation} {v w u : Value} (h : op.contracted v w = .ok u) :
    v.isWritable = true ∧ w.isWritable = true ∧ u.isWritable = true := by
  obtain ⟨u', -, h⟩ := Outcome.bind_eq_ok h
  split at h
  · rename_i hwritable
    rw [← Except.ok.inj h]
    simpa only [Bool.and_eq_true, and_assoc] using hwritable
  · cases h

def Sign.contracted (s : Sign) (v w : Value) : Outcome Value := s.operation.contracted v w

theorem Operation.named_name (op : Operation) : named (.text op.name) = .ok op := by
  cases op <;> rfl

namespace Engine
variable {e : Engine} {depth : Int}

theorem fire_operands (nested : Stream → Traced Token) (op : Operation) (c : Category) (l r : Token) :
    e.fire nested (.step .apply) [l, ⟨c, .text op.name⟩, r] =
      (op.contracted l.value r.value).map fun u => [⟨op.category, u⟩] := by
  have hname : (Value.text op.name).isWritable = true := rfl
  have hout : (Replacement.ofAction e.settings nested e.table (.step .apply) [l, ⟨c, .text op.name⟩, r]).outcome =
      (op.apply l.value r.value).map fun u => [⟨op.category, u⟩] := by
    show (Replacement.apply [l, ⟨c, .text op.name⟩, r]) = _
    simp only [Replacement.apply, Operation.named_name, Operation.token, bind, Except.bind]
    cases op.apply l.value r.value <;> rfl
  rw [fire, hout, Operation.contracted]
  cases op.apply l.value r.value with
  | error f => rfl
  | ok u =>
    have hspan : (Stream.isWritable [l, ⟨c, .text op.name⟩, r] && Stream.isWritable [⟨op.category, u⟩]) =
        (l.value.isWritable && r.value.isWritable && u.isWritable) := by
      simp [Stream.isWritable, hname]
    show (if (Stream.isWritable [l, ⟨c, .text op.name⟩, r] && Stream.isWritable [⟨op.category, u⟩]) = true then _ else _) = _
    rw [hspan]
    show _ = Except.map _ (if _ then _ else _)
    split <;> rfl

theorem fire_apply (nested : Stream → Traced Token) (op : Operation) (c : Category) (v w : Value) :
    e.fire nested (.step .apply) [.number v, ⟨c, .text op.name⟩, .number w] =
      (op.contracted v w).map fun u => [⟨op.category, u⟩] :=
  e.fire_operands nested op c (.number v) (.number w)

theorem fire_operation (nested : Stream → Traced Token) (s : Sign) (v w : Value) :
    e.fire nested (.step .apply) [.number v, s.token, .number w] = (s.contracted v w).map fun u => [.number u] := by
  rw [Sign.token, fire_apply, s.category_operation]
  rfl

end Engine

/-! ### Lines between other tokens -/

/-- What stands around a line does not interfere with it: the rules on brackets and calls match nowhere while the
    line is longer than one number, and operators stand in order. -/
structure Frame (t : RuleTable) (pre post : Stream) : Prop where
  head : ∀ u ∈ pre.head?, u.category ≠ .operator
  front : pre.IsAlternating
  back : post.IsAlternating
  calls : ∀ line : Stream, line.IsFlat → 2 ≤ line.length →
    ∀ r ∈ t.functionRules ++ Rule.brackets, r.pattern.find? (pre ++ (line ++ post)) = none

/-- A level of a line is next: up to this level all that stands in front is settled, and tighter levels match
    nothing behind a number at the end of the line. -/
structure Level.Due (L : Level) (t : RuleTable) (pre post : Stream) : Prop where
  frame : Frame t pre post
  front : ∀ M : Level, M.rank ≤ L.rank → M.Settled pre
  back : ∀ M : Level, M.rank < L.rank → ∀ u, M.rule.pattern.find? (.number u :: post) = none

section Around
variable {L : Level} {t : RuleTable} {pre post : Stream} {v w : Value} {s : Sign} {links : Links}

theorem Stream.category_line {t : Token} (ht : t ∈ line v links) : t.category = .numeric ∨ t.category = .operator := by
  rcases List.mem_cons.mp ht with rfl | ht
  · exact Or.inl rfl
  · obtain ⟨l, -, hl⟩ := List.mem_flatMap.mp ht
    simp only [List.mem_cons, List.not_mem_nil, or_false] at hl
    rcases hl with rfl | rfl
    · exact Or.inr rfl
    · exact Or.inl rfl

theorem Stream.flat_line (v : Value) (links : Links) : (line v links).IsFlat := by
  intro t ht
  rcases category_line ht with hc | hc <;> simp [Token.isDelimiter, hc]

theorem Stream.IsAlternating.number {ts : Stream} (h : ts.IsAlternating) (v : Value) :
    Stream.IsAlternating (.number v :: ts) := by
  cases ts with
  | nil => exact .singleton _
  | cons t ts => exact .cons_cons (fun hv => by cases hv) h

theorem Stream.IsAlternating.line (h : post.IsAlternating) (v : Value) (links : Links) :
    Stream.IsAlternating (Stream.line v links ++ post) := by
  induction links generalizing v with
  | nil => exact h.number v
  | cons l links ih =>
    have hnext : Stream.IsAlternating (l.1.token :: (Stream.line l.2 links ++ post)) :=
      .cons_cons (fun _ => by simp [Token.number]) (ih l.2)
    exact hnext.number v

theorem Stream.IsAlternating.append_of_ne {xs ts : Stream} (h : ts.IsAlternating)
    (hxs : ∀ t ∈ xs, t.category ≠ .operator) : Stream.IsAlternating (xs ++ ts) := by
  refine List.isChain_append.mpr ⟨?_, h, fun t ht _ _ hc => absurd hc (hxs t (List.mem_of_getLast? ht))⟩
  exact List.Pairwise.isChain (List.pairwise_of_forall_mem_list fun t ht _ _ hc => absurd hc (hxs t ht))

/-- A stream that begins with a number keeps what stands in front of it in order. -/
theorem Stream.IsAlternating.append_number {ts : Stream} (h : pre.IsAlternating)
    (hts : Stream.IsAlternating (.number v :: ts)) : Stream.IsAlternating (pre ++ .number v :: ts) := by
  refine List.isChain_append.mpr ⟨h, hts, fun x _ y hy _ => ?_⟩
  rw [← Option.some.inj hy]
  simp [Token.number]

theorem head?_append_number {ts : Stream} (h : ∀ u ∈ pre.head?, u.category ≠ .operator) :
    ∀ u ∈ (pre ++ .number v :: ts).head?, u.category ≠ .operator := by
  intro u hu
  cases pre with
  | nil =>
    rw [← Option.some.inj hu]
    simp [Token.number]
  | cons x pre => exact h u hu

/-- A level none of whose operators is in the line matches nowhere, if all in front is settled and nothing is
    behind. -/
theorem Level.find?_line (hpre : L.Settled pre) (hpost : ∀ u, L.rule.pattern.find? (.number u :: post) = none)
    (hlinks : ∀ l ∈ links, l.1.level ≠ L) : L.rule.pattern.find? (pre ++ (Stream.line v links ++ post)) = none := by
  induction links generalizing pre v with
  | nil =>
    refine (Pattern.find?_eq_none (by simp [rule])).mpr fun a b hab _ => ?_
    rcases List.append_eq_append_iff.mp hab with ⟨c, -, hb⟩ | ⟨c, hc, rfl⟩
    · exact (Pattern.find?_eq_none (by simp [rule])).mp (hpost v) c b hb (fun h => by cases h)
    · cases c with
      | nil => exact (Pattern.find?_eq_none (by simp [rule])).mp (hpost v) [] _ rfl (fun _ => rfl)
      | cons x c => exact hpre a (x :: c) hc (by simp) v post
  | cons l links ih =>
    obtain ⟨s, w⟩ := l
    obtain ⟨hs, hrest⟩ := List.forall_mem_cons.mp hlinks
    have hnext := hpre.number (x := s.token) (by simp [Sign.token]) (fun h => hs (has_token.mp h)) v
    have := ih (v := w) hnext hrest
    simpa [Stream.line] using this

/-- The rules above a level of a line match nowhere as long as the line has operators, and no operation of the level
    begins in front of it. -/
structure Level.Ready (L : Level) (t : RuleTable) (pre post : Stream) : Prop where
  calls : ∀ v links, links ≠ [] → ∀ r ∈ t.functionRules ++ Rule.brackets,
    r.pattern.find? (pre ++ (Stream.line v links ++ post)) = none
  above : ∀ v links, (∀ l ∈ links, L.rank ≤ l.1.level.rank) →
    ∀ r ∈ L.above, r.pattern.find? (pre ++ (Stream.line v links ++ post)) = none
  front : L.Settled pre

theorem Level.Due.ready (D : L.Due t pre post) : L.Ready t pre post where
  calls := fun v links hne => D.frame.calls _ (Stream.flat_line v links) (by
    cases links with
    | nil => exact absurd rfl hne
    | cons l links => simp [Stream.line, Links.tokens])
  above := by
    intro v links hlinks r hr
    refine Level.find?_above (head?_append_number D.frame.head) ?_ (fun M hM => ?_) r hr
    · exact D.frame.front.append_number (D.frame.back.line v _)
    · refine Level.find?_line (D.front M (by omega)) (D.back M hM) fun l hl heq => ?_
      have := hlinks l hl
      rw [heq] at this
      omega
  front := D.front L (Nat.le_refl _)

theorem Stream.line_cons (pre post : Stream) (v : Value) (s : Sign) (w : Value) (links : Links) :
    pre ++ (Stream.line v ((s, w) :: links) ++ post) =
      (pre ++ [.number v, s.token]) ++ (Stream.line w links ++ post) := by
  simp [Stream.line]

/-- A level that is ready stays so behind an operator of a looser one. -/
theorem Level.Ready.snoc (R : L.Ready t pre post) (hlevel : s.level ≠ L) (hrank : L.rank ≤ s.level.rank) (v : Value) :
    L.Ready t (pre ++ [.number v, s.token]) post where
  calls := fun w links _ r hr => Stream.line_cons pre post v s w links ▸ R.calls v ((s, w) :: links) (by simp) r hr
  above := fun w links hlinks r hr =>
    Stream.line_cons pre post v s w links ▸ R.above v ((s, w) :: links) (List.forall_mem_cons.mpr ⟨hrank, hlinks⟩) r hr
  front := R.front.number (by simp [Sign.token]) (fun h => hlevel (Level.has_token.mp h)) v

end Around

/-! ### Folding a level -/

namespace Engine
variable {e : Engine} {depth : Int} {L : Level} {pre post : Stream} {v w : Value} {s : Sign} {links : Links}
  (ht : e.table.IsStandard) (hrounds : e.rounds = none) (hd : depth ≤ e.limit)
include ht hrounds hd

/-- Two numbers and an operator of a level between them are replaced by the result, if all in front is settled and no
    rule above matches. -/
theorem reduce_window (hs : s.level = L) (hpre : L.Settled pre)
    (habove : ∀ r ∈ (e.table.functionRules ++ Rule.brackets) ++ L.above,
      r.pattern.find? (pre ++ ([.number v, s.token, .number w] ++ post)) = none) :
    (e.reduce depth (pre ++ ([.number v, s.token, .number w] ++ post))).outcome =
      (s.contracted v w).bind fun u => (e.reduce depth (pre ++ .number u :: post)).outcome := by
  have hall : e.table.all = ((e.table.functionRules ++ Rule.brackets) ++ L.above) ++ L.rule :: L.below := by
    rw [RuleTable.all, ht.rules, ← Rule.brackets_append_flat, L.flat_eq]
    simp only [List.append_assoc]
  have hparse : L.rule.pattern.Parses [.number v, s.token, .number w] :=
    Level.parses_rule.mpr ⟨_, _, _, rfl, rfl, Level.has_token.mpr hs, rfl⟩
  have hfound : L.rule.pattern.FoundAt pre [.number v, s.token, .number w] post :=
    ⟨hparse, fun h => Bool.noConfusion h, Pattern.prefix?_of_parses L.determined_rule hparse _,
      fun a b hab hb => hpre a b hab hb v _⟩
  have hlen : 2 ≤ (pre ++ ([.number v, s.token, .number w] ++ post)).length := by
    simp only [List.length_append, List.length_cons]
    omega
  rw [reduce_foundAt ht hrounds hd hall hlen habove (by simp [Level.rule]) hfound]
  show (e.fire _ (.step .apply) _).bind _ = _
  rw [fire_operation]
  cases s.contracted v w <;> rfl

/-- The first operation of a level in a line is carried out. -/
theorem reduce_operation (R : L.Ready e.table pre post) (hs : s.level = L)
    (hlinks : ∀ l ∈ links, L.rank ≤ l.1.level.rank) :
    (e.reduce depth (pre ++ (Stream.line v ((s, w) :: links) ++ post))).outcome =
      (s.contracted v w).bind fun u => (e.reduce depth (pre ++ (Stream.line u links ++ post))).outcome := by
  have hrank : ∀ l ∈ (s, w) :: links, L.rank ≤ l.1.level.rank :=
    List.forall_mem_cons.mpr ⟨Nat.le_of_eq (congrArg Level.rank hs.symm), hlinks⟩
  have habove : ∀ r ∈ (e.table.functionRules ++ Rule.brackets) ++ L.above,
      r.pattern.find? (pre ++ (Stream.line v ((s, w) :: links) ++ post)) = none := by
    intro r hr
    rcases List.mem_append.mp hr with hr | hr
    · exact R.calls v _ (by simp) r hr
    · exact R.above v _ hrank r hr
  exact @reduce_window e depth L pre (links.tokens ++ post) v w s ht hrounds hd hs R.front habove

/-- A level of a line is folded, from left to right. -/
theorem reduce_fold (R : L.Ready e.table pre post) (hlinks : ∀ l ∈ links, L.rank ≤ l.1.level.rank) :
    (e.reduce depth (pre ++ (Stream.line v links ++ post))).outcome =
      (L.fold Sign.contracted v links).bind fun p =>
        (e.reduce depth (pre ++ (Stream.line p.1 p.2 ++ post))).outcome := by
  induction links generalizing pre v with
  | nil => rfl
  | cons l links ih =>
    obtain ⟨s, w⟩ := l
    obtain ⟨hrank, hrest⟩ := List.forall_mem_cons.mp hlinks
    rw [Level.fold]
    split
    · rename_i hlevel
      rw [reduce_operation ht hrounds hd R hlevel hrest]
      cases s.contracted v w with
      | error f => rfl
      | ok u => exact ih R hrest
    · -- An operator of a looser level joins what stands in front of the line.
      rename_i hlevel
      rw [Stream.line_cons, ih (R.snoc hlevel hrank v) hrest]
      cases L.fold Sign.contracted w links with
      | error f => rfl
      | ok p => exact congrArg (fun ts => (e.reduce depth ts).outcome) (Stream.line_cons ..).symm

/-- Levels in order are folded one after the other; looser ones may be left. -/
theorem reduce_foldAll {Ls Ms : List Level} (hLs : (Ls ++ Ms).Pairwise fun L M => L.rank < M.rank)
    (R : ∀ L ∈ Ls, L.Ready e.table pre post) (hlinks : ∀ l ∈ links, l.1.level ∈ Ls ++ Ms) :
    (e.reduce depth (pre ++ (Stream.line v links ++ post))).outcome =
      (Level.foldAll Sign.contracted Ls v links).bind fun p =>
        (e.reduce depth (pre ++ (Stream.line p.1 p.2 ++ post))).outcome := by
  induction Ls generalizing v links with
  | nil => rfl
  | cons L Ls ih =>
    obtain ⟨hrank, hLs⟩ := List.pairwise_cons.mp hLs
    obtain ⟨hL, R⟩ := List.forall_mem_cons.mp R
    rw [Level.foldAll, Outcome.bind_assoc, reduce_fold ht hrounds hd hL fun l hl => Level.rank_le hrank (hlinks l hl)]
    exact Outcome.bind_congr fun p hp => ih hLs R (Level.level_mem_of_fold _ hlinks hp)

/-- A line between tokens that never interfere is reduced to its value. -/
theorem reduce_value (D : ∀ L : Level, L.Due e.table pre post) :
    (e.reduce depth (pre ++ (Stream.line v links ++ post))).outcome =
      (Links.value Sign.contracted v links).bind fun u => (e.reduce depth (pre ++ (.number u :: post))).outcome := by
  have hlinks : ∀ l ∈ links, l.1.level ∈ Level.all := fun l _ => l.1.level.mem_all
  rw [@reduce_foldAll e depth pre post v links ht hrounds hd Level.all [] Level.pairwise_all (fun L _ => (D L).ready) hlinks,
    Links.value]
  cases hfold : Level.foldAll Sign.contracted Level.all v links with
  | error f => rfl
  | ok p =>
    have hnil := Level.links_of_foldAll _ hlinks hfold
    show (e.reduce depth (pre ++ (Stream.line p.1 p.2 ++ post))).outcome = _
    rw [hnil]
    rfl

end Engine
end Reckoner
