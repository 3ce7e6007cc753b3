import Reckoner.Proofs.Binding
import Reckoner.Proofs.Chains
import Reckoner.Proofs.Comparisons
import Reckoner.Proofs.Surplus

/-!
# Choices between lines

A choice whose condition is a comparison is no operand to the lines around it. The comparison is carried out
only when no operation is left, and so the line in front of the choice and the line behind it are first reduced
to their values, whatever the operators next to the choice are. The number that is chosen is then combined with
these values (`Engine.reduce_choice_iff`).
-/

namespace Reckoner

/-! ### Choices by a comparison -/

namespace Stream

def choiceOpen (c : Comparator) (m n x : Value) : Stream :=
  [.named "if", .opening, .number m, c.token, .number n, .comma, .number x, .comma]

/-- The tokens of a choice between two numbers by a comparison. -/
def choice (c : Comparator) (m n x y : Value) : Stream :=
  [.named "if"] ++ wrap [.number m, c.token, .number n, .comma, .number x, .comma, .number y]

/-- The tokens of a choice whose comparison has given a truth value. -/
def chosen (b x y : Value) : Stream := [.named "if"] ++ wrap [⟨.logical, b⟩, .comma, .number x, .comma, .number y]

theorem choice_split (pre post : Stream) (c : Comparator) (m n x y : Value) : pre ++ (choice c m n x y ++ post) =
    (pre ++ [Token.named "if", .opening]) ++
      ([Token.number m, c.token, .number n] ++ ([Token.comma, .number x, .comma, .number y, .closing] ++ post)) := by
  simp [choice, wrap]

theorem chosen_split (pre post : Stream) (b x y : Value) : pre ++ (chosen b x y ++ post) =
    (pre ++ [Token.named "if", .opening]) ++
      ([Token.mk .logical b] ++ ([Token.comma, .number x, .comma, .number y, .closing] ++ post)) := by
  simp [chosen, wrap]

end Stream

section Between
variable {M L : Level} {c : Comparator} {m n x y v : Value} {s : Sign} {links : Links} {F B : Side}
  {pre : Stream}

/-! ### Levels around a choice -/

theorem settled_line {t : Token} (h : M.Settled pre) (hlinks : ∀ l ∈ links, l.1.level ≠ M)
    (ht : t.category ≠ .numeric) : M.Settled (pre ++ (Stream.line v links ++ [s.token, t])) := by
  induction links generalizing pre v with
  | nil => exact h.number_pair (by simp [Sign.token]) ht v
  | cons l links ih =>
    obtain ⟨s', w⟩ := l
    obtain ⟨hs', hlinks⟩ := List.forall_mem_cons.mp hlinks
    have hnext := h.number (x := s'.token) (by simp [Sign.token]) (fun h' => hs' (Level.has_token.mp h')) v
    simpa [Stream.line] using ih (v := w) hnext hlinks

theorem settled_choiceOpen (hF : ∀ l ∈ F.inner, l.1.level ≠ M) :
    M.Settled (F.before ++ Stream.choiceOpen c m n x) := by
  -- No token of a choice is an operator.
  have hlevel : ∀ t : Token, t.category ≠ .operator → ¬ M.Has t := fun t ht h => ht h.category
  have hname : M.Settled (F.before ++ [.named "if"]) := by
    cases F with
    | nil => exact M.settled_nil.snoc (by simp [Token.named]) (by simp)
    | line s v links =>
      have hlinks : ∀ l ∈ links, l.1.level ≠ M := hF
      have := settled_line (v := v) (s := s) (t := .named "if") M.settled_nil hlinks (by simp [Token.named])
      simpa [Side.before] using this
  have hopen := hname.snoc (x := .opening) (by simp [Token.opening]) fun _ _ _ => hlevel _ (by simp [Token.opening])
  have hleft := hopen.number (x := c.token) (by simp [Comparator.token]) (hlevel _ (by simp [Comparator.token])) m
  have hright := hleft.number (x := .comma) (by simp [Token.comma]) (hlevel _ (by simp [Token.comma])) n
  have hbranch := hright.number (x := .comma) (by simp [Token.comma]) (hlevel _ (by simp [Token.comma])) x
  simpa [Stream.choiceOpen] using hbranch

theorem settled_choice (hF : ∀ l ∈ F.inner, l.1.level ≠ M) :
    M.Settled (F.before ++ (Stream.choice c m n x y ++ [s.token])) := by
  have hclose := (settled_choiceOpen (c := c) (m := m) (n := n) (x := x) hF).number (x := .closing)
    (by simp [Token.closing]) (fun h => by cases h.category) y
  have := hclose.snoc (x := s.token) (by simp [Sign.token]) fun u hu hnum => by
    rw [List.getLast?_append_of_ne_nil _ (by simp)] at hu
    rw [← Option.some.inj hu] at hnum
    cases hnum
  simpa [Stream.choiceOpen, Stream.choice, Stream.wrap] using this

/-- A level without operators in the lines around a choice matches nowhere. -/
theorem find?_level_choice (hF : ∀ l ∈ F.inner, l.1.level ≠ M) (hB : ∀ l ∈ B.inner, l.1.level ≠ M) :
    M.rule.pattern.find? (F.before ++ (Stream.choice c m n x y ++ B.behind)) = none := by
  cases B with
  | nil =>
    have : M.rule.pattern.find? ((F.before ++ Stream.choiceOpen c m n x) ++ (Stream.line y [] ++ [.closing])) = none :=
      Level.find?_line (settled_choiceOpen hF) (fun u => Level.find?_short (by simp)) (by simp)
    simpa [Stream.choiceOpen, Stream.choice, Stream.wrap, Stream.line, Side.behind] using this
  | line s w links =>
    have : M.rule.pattern.find? ((F.before ++ (Stream.choice c m n x y ++ [s.token])) ++ (Stream.line w links ++ [])) =
        none := Level.find?_line (settled_choice hF) (fun u => Level.find?_short (by simp)) hB
    simpa [Side.behind] using this

/-! ### Brackets around a comparison -/

theorem Side.category_before {t : Token} (ht : t ∈ F.before) : t.category = .numeric ∨ t.category = .operator := by
  cases F with
  | nil => cases ht
  | line s v links =>
    rcases List.mem_append.mp ht with ht | ht
    · exact Stream.category_line ht
    · rw [List.mem_singleton.mp ht]
      exact Or.inr rfl

theorem Side.category_behind {t : Token} (ht : t ∈ B.behind) : t.category = .numeric ∨ t.category = .operator := by
  cases B with
  | nil => cases ht
  | line s v links =>
    rcases List.mem_cons.mp ht with rfl | ht
    · exact Or.inr rfl
    · exact Stream.category_line ht

theorem Side.flat_before (F : Side) : F.before.IsFlat := by
  intro t ht
  rcases category_before ht with hc | hc <;> simp [Token.isDelimiter, hc]

theorem Side.flat_behind (B : Side) : B.behind.IsFlat := by
  intro t ht
  rcases category_behind ht with hc | hc <;> simp [Token.isDelimiter, hc]

/-- No rule on brackets matches while the comparison is not carried out. -/
theorem find?_brackets_choice {front back : Stream} (hfront : front.IsFlat) (hback : back.IsFlat) :
    ∀ r ∈ Rule.brackets, r.pattern.find? (front ++ (Stream.choice c m n x y ++ back)) = none := by
  have hbody : Stream.IsUnbracketed [.number m, c.token, .number n, .comma, .number x, .comma, .number y] := by
    simp [Stream.IsUnbracketed, Token.number, Comparator.token, Token.comma]
  exact Pattern.find?_brackets_call hfront hbody hback (by simp) fun step h => by cases h.length_of_choice rfl

/-! ### Operators in order -/

theorem Stream.IsAlternating.operator {ts : Stream} (h : ts.IsAlternating) (t : Token)
    (hhead : ∀ u ∈ ts.head?, u.category ≠ .operator) : Stream.IsAlternating (t :: ts) := by
  exact List.isChain_cons.mpr ⟨fun u hu _ => hhead u hu, h⟩

theorem category_of_choice : ∀ t ∈ Stream.choice c m n x y, t.category ≠ .operator := by
  simp [Stream.choice, Stream.wrap, Token.named, Token.opening, Token.number, Comparator.token, Token.comma, Token.closing]

theorem Side.alternating_behind (B : Side) : B.behind.IsAlternating := by
  cases B with
  | nil => exact .nil
  | line s w links =>
    refine Stream.IsAlternating.operator ?_ _ fun u hu => ?_
    · simpa using Stream.IsAlternating.line .nil w links
    · rw [← Option.some.inj hu]
      simp [Token.number]

theorem alternating_around {back : Stream} (F : Side) (h : back.IsAlternating) :
    Stream.IsAlternating (F.before ++ (Stream.choice c m n x y ++ back)) := by
  have hchoice : Stream.IsAlternating (Stream.choice c m n x y ++ back) := h.append_of_ne category_of_choice
  cases F with
  | nil => exact hchoice
  | line s v links =>
    have := (hchoice.operator s.token (by simp [Stream.choice, Token.named])).line v links
    simpa [Side.before] using this

theorem head?_front (F : Side) : ∀ u ∈ (F.before ++ (Stream.choice c m n x y ++ pre)).head?, u.category ≠ .operator := by
  intro u hu
  cases F with
  | nil =>
    rw [← Option.some.inj hu]
    simp [Token.named]
  | line s v links =>
    rw [← Option.some.inj hu]
    simp [Token.number]

/-! ### The lines are folded first -/

variable {t : RuleTable}

/-- A level of the line in front of a choice is next, if no tighter one is left behind the choice. -/
theorem Level.due_front (ht : t.functionRules = []) (hB : ∀ l ∈ B.inner, L.rank ≤ l.1.level.rank) :
    L.Due t [] (s.token :: (Stream.choice c m n x y ++ B.behind)) where
  frame := {
    head := by simp
    front := .nil
    back := (alternating_around .nil B.alternating_behind).operator _ (by simp [Side.before, Stream.choice, Token.named])
    calls := by
      intro line hline _ r hr
      rw [ht, List.nil_append] at hr
      have hflat : Stream.IsFlat (line ++ [s.token]) := by
        intro u hu
        rcases List.mem_append.mp hu with hu | hu
        · exact hline u hu
        · rw [List.mem_singleton.mp hu]
          rfl
      have := find?_brackets_choice (c := c) (m := m) (n := n) (x := x) (y := y) hflat B.flat_behind r hr
      simpa using this }
  front := fun M _ => M.settled_nil
  back := by
    intro M hM u
    have hlevel : ∀ l ∈ B.inner, l.1.level ≠ M := by
      intro l hl heq
      have := hB l hl
      rw [heq] at this
      omega
    have hfront : ∀ l ∈ (Side.line s u []).inner, l.1.level ≠ M := by simp [Side.inner]
    have := find?_level_choice (c := c) (m := m) (n := n) (x := x) (y := y) hfront hlevel
    simpa [Side.before, Stream.line] using this

/-- A level of the line behind a choice is next, if only looser ones are left in front of the choice. -/
theorem Level.due_back (ht : t.functionRules = []) (hF : ∀ l ∈ F.inner, L.rank < l.1.level.rank) :
    L.Due t (F.before ++ (Stream.choice c m n x y ++ [s.token])) [] where
  frame := {
    head := head?_front F
    front := alternating_around F (.singleton _)
    back := .nil
    calls := by
      intro line hline _ r hr
      rw [ht, List.nil_append] at hr
      have hflat : Stream.IsFlat (s.token :: line) := by
        intro u hu
        rcases List.mem_cons.mp hu with rfl | hu
        · rfl
        · exact hline u hu
      have := find?_brackets_choice (c := c) (m := m) (n := n) (x := x) (y := y) F.flat_before hflat r hr
      simpa using this }
  front := by
    intro M hM
    refine settled_choice fun l hl heq => ?_
    have := hF l hl
    rw [heq] at this
    omega
  back := fun M _ u => Level.find?_short (by simp)

end Between

/-! ### Lines level by level -/

namespace Side

/-- The side with something done to its line. -/
def onLine (f : Value → Links → Outcome (Value × Links)) : Side → Outcome Side
  | nil => .ok nil
  | line s v links => (f v links).map fun p => line s p.1 p.2

variable {F F' : Side} {f g : Value → Links → Outcome (Value × Links)} {L : Level} {Ls : List Level}

theorem onLine_ok (F : Side) : F.onLine (fun v links => .ok (v, links)) = .ok F := by
  cases F <;> rfl

theorem onLine_bind (F : Side) : F.onLine (fun v links => (f v links).bind fun p => g p.1 p.2) = (F.onLine f).bind (onLine g) := by
  cases F with
  | nil => rfl
  | line s v links =>
    show ((f v links).bind _).map _ = ((f v links).map _).bind _
    cases f v links <;> rfl

theorem level_mem_of_onLine (hF : ∀ l ∈ F.inner, l.1.level ∈ L :: Ls) (h : F.onLine (L.fold Sign.contracted) = .ok F') :
    ∀ l ∈ F'.inner, l.1.level ∈ Ls := by
  cases F with
  | nil =>
    rw [← Except.ok.inj h]
    intro l hl
    cases hl
  | line s v links =>
    obtain ⟨p, hp, rfl⟩ := Outcome.map_eq_ok h
    exact Level.level_mem_of_fold _ hF hp

theorem onLine_all (F : Side) : F.onLine (Level.foldAll Sign.contracted Level.all) = F.value := by
  cases F with
  | nil => rfl
  | line s v links =>
    rw [onLine, value, Links.value]
    cases hp : Level.foldAll Sign.contracted Level.all v links with
    | error f => rfl
    | ok p =>
      have hnil := Level.links_of_foldAll Sign.contracted (fun l _ => l.1.level.mem_all) hp
      show Except.ok (line s p.1 p.2) = Except.ok (line s p.1 [])
      rw [hnil]

end Side

namespace Engine
variable {e : Engine} {depth : Int} (he : e.IsPlain) (hd : depth ≤ e.limit) {L : Level} {c : Comparator}
  {m n x y : Value} {F B : Side} {t : Token}
include he hd

/-- A level of the line in front of a choice is folded. -/
theorem reduce_level_before (hF : ∀ l ∈ F.inner, L.rank ≤ l.1.level.rank) (hB : ∀ l ∈ B.inner, L.rank ≤ l.1.level.rank) :
    (e.reduce depth (F.before ++ (Stream.choice c m n x y ++ B.behind))).outcome =
      (F.onLine (L.fold Sign.contracted)).bind fun F' =>
        (e.reduce depth (F'.before ++ (Stream.choice c m n x y ++ B.behind))).outcome := by
  cases F with
  | nil => rfl
  | line s v links =>
    have hline : ∀ {v : Value} {links : Links}, (Side.line s v links).before ++ (Stream.choice c m n x y ++ B.behind) =
        [] ++ (Stream.line v links ++ (s.token :: (Stream.choice c m n x y ++ B.behind))) := by
      intro v links
      simp [Side.before]
    have hdue := L.due_front (s := s) (c := c) (m := m) (n := n) (x := x) (y := y)
      (show e.table.functionRules = [] by rw [he.table]) hB
    have hlinks : ∀ l ∈ links, L.rank ≤ l.1.level.rank := hF
    rw [hline, reduce_fold he.isStandard he.rounds hd hdue.ready hlinks, Side.onLine]
    cases L.fold Sign.contracted v links with
    | error f => rfl
    | ok p => exact congrArg (fun ts => (e.reduce depth ts).outcome) hline.symm

/-- A level of the line behind a choice is folded, if it is done in front of the choice. -/
theorem reduce_level_behind (hF : ∀ l ∈ F.inner, L.rank < l.1.level.rank) (hB : ∀ l ∈ B.inner, L.rank ≤ l.1.level.rank) :
    (e.reduce depth (F.before ++ (Stream.choice c m n x y ++ B.behind))).outcome =
      (B.onLine (L.fold Sign.contracted)).bind fun B' =>
        (e.reduce depth (F.before ++ (Stream.choice c m n x y ++ B'.behind))).outcome := by
  cases B with
  | nil => rfl
  | line s v links =>
    have hline : ∀ {v : Value} {links : Links}, F.before ++ (Stream.choice c m n x y ++ (Side.line s v links).behind) =
        (F.before ++ (Stream.choice c m n x y ++ [s.token])) ++ (Stream.line v links ++ []) := by
      intro v links
      simp [Side.behind]
    have hdue := L.due_back (s := s) (c := c) (m := m) (n := n) (x := x) (y := y)
      (show e.table.functionRules = [] by rw [he.table]) hF
    have hlinks : ∀ l ∈ links, L.rank ≤ l.1.level.rank := hB
    rw [hline, reduce_fold he.isStandard he.rounds hd hdue.ready hlinks, Side.onLine]
    cases L.fold Sign.contracted v links with
    | error f => rfl
    | ok p => exact congrArg (fun ts => (e.reduce depth ts).outcome) hline.symm

/-- Levels in order are folded one after the other, each in front of the choice and then behind it. -/
theorem reduce_levels {Ls : List Level} (hLs : Ls.Pairwise fun L M => L.rank < M.rank)
    (hF : ∀ l ∈ F.inner, l.1.level ∈ Ls) (hB : ∀ l ∈ B.inner, l.1.level ∈ Ls) :
    (e.reduce depth (F.before ++ (Stream.choice c m n x y ++ B.behind))).outcome = .ok t ↔
      ∃ F' B', F.onLine (Level.foldAll Sign.contracted Ls) = .ok F' ∧ B.onLine (Level.foldAll Sign.contracted Ls) = .ok B' ∧
        (e.reduce depth (F'.before ++ (Stream.choice c m n x y ++ B'.behind))).outcome = .ok t := by
  induction Ls generalizing F B with
  | nil =>
    constructor
    · exact fun h => ⟨F, B, F.onLine_ok, B.onLine_ok, h⟩
    · rintro ⟨F', B', hF', hB', h⟩
      obtain rfl := Except.ok.inj (F.onLine_ok.symm.trans hF')
      obtain rfl := Except.ok.inj (B.onLine_ok.symm.trans hB')
      exact h
  | cons L Ls ih =>
    obtain ⟨hlt, hLs⟩ := List.pairwise_cons.mp hLs
    have hsplit : ∀ S : Side, S.onLine (Level.foldAll Sign.contracted (L :: Ls)) =
        (S.onLine (L.fold Sign.contracted)).bind (Side.onLine (Level.foldAll Sign.contracted Ls)) := fun S => S.onLine_bind
    simp only [hsplit]
    rw [reduce_level_before he hd (fun l hl => Level.rank_le hlt (hF l hl)) (fun l hl => Level.rank_le hlt (hB l hl))]
    cases hF₁ : F.onLine (L.fold Sign.contracted) with
    | error f =>
      constructor
      · intro h
        cases h
      · rintro ⟨_, _, h, _⟩
        cases h
    | ok F₁ =>
      have hmem := Side.level_mem_of_onLine hF hF₁
      show (e.reduce depth (F₁.before ++ (Stream.choice c m n x y ++ B.behind))).outcome = .ok t ↔ _
      rw [reduce_level_behind he hd (fun l hl => hlt _ (hmem l hl)) (fun l hl => Level.rank_le hlt (hB l hl))]
      cases hB₁ : B.onLine (L.fold Sign.contracted) with
      | error f =>
        constructor
        · intro h
          cases h
        · rintro ⟨_, _, _, h, _⟩
          cases h
      | ok B₁ => exact ih hLs hmem (Side.level_mem_of_onLine hB hB₁)

/-- The lines on both sides of a choice are reduced to their values before the comparison is carried out. -/
theorem reduce_sides : (e.reduce depth (F.before ++ (Stream.choice c m n x y ++ B.behind))).outcome = .ok t ↔
    ∃ F' B', F.value = .ok F' ∧ B.value = .ok B' ∧
      (e.reduce depth (F'.before ++ (Stream.choice c m n x y ++ B'.behind))).outcome = .ok t := by
  rw [reduce_levels he hd Level.pairwise_all (fun l _ => l.1.level.mem_all) (fun l _ => l.1.level.mem_all),
    F.onLine_all, B.onLine_all]

end Engine

end Reckoner
