import Reckoner.Proofs.Chains

/-!
# Parts of a line

The part of a line in front of an operator can be computed on its own if no operator in it is looser
(`Links.value_left`), and the part behind an operator if all operators in it are tighter (`Links.value_right`).
-/

namespace Reckoner

section Parts
variable {op : Sign → Value → Value → Outcome Value} {L : Level} {Ls : List Level} {s : Sign} {v w z : Value}
  {xs ys rest : Links} {p : Value × Links}

namespace Level

/-- An operator of another level parts a line. -/
theorem fold_append (hs : s.level ≠ L) : L.fold op v (xs ++ (s, w) :: ys) =
    (L.fold op v xs).bind fun p => (L.fold op w ys).map fun q => (p.1, p.2 ++ (s, q.1) :: q.2) := by
  induction xs generalizing v with
  | nil =>
    show L.fold op v ((s, w) :: ys) = (L.fold op w ys).map fun q => (v, (s, q.1) :: q.2)
    rw [fold, if_neg hs]
  | cons x xs ih =>
    obtain ⟨s', w'⟩ := x
    rw [List.cons_append, fold, fold]
    split
    · rw [Outcome.bind_assoc]
      exact Outcome.bind_congr fun u _ => ih
    · rw [ih]
      cases L.fold op w' xs with
      | error f => rfl
      | ok p => cases L.fold op w ys <;> rfl

/-- The operations of one level in front of a line are carried out first. -/
theorem fold_append_level (hxs : ∀ l ∈ xs, l.1.level = L) :
    L.fold op v (xs ++ rest) = (L.fold op v xs).bind fun p => L.fold op p.1 rest := by
  induction xs generalizing v with
  | nil => rfl
  | cons x xs ih =>
    obtain ⟨s, w⟩ := x
    obtain ⟨hs, hxs⟩ := List.forall_mem_cons.mp hxs
    rw [List.cons_append, fold, if_pos hs, fold, if_pos hs, Outcome.bind_assoc]
    exact Outcome.bind_congr fun u _ => ih hxs

theorem links_of_fold {links : Links} (hxs : ∀ l ∈ xs, l.1.level = L) (h : L.fold op v xs = .ok (u, links)) :
    links = [] := by
  refine List.eq_nil_iff_forall_not_mem.mpr fun l hl => ?_
  obtain ⟨hne, w, hw⟩ := mem_of_fold op h l hl
  exact hne (hxs (l.1, w) hw)

theorem foldAll_nil (Ls : List Level) (v : Value) : foldAll op Ls v [] = .ok (v, []) := by
  induction Ls with
  | nil => rfl
  | cons L Ls ih => exact ih

/-- What is in front of an operator is computed first, if no operator in it is looser. -/
theorem foldAll_left (hLs : Ls.Pairwise fun L M => L.rank < M.rank) (hs : s.level ∈ Ls)
    (hxs : ∀ l ∈ xs, l.1.level ∈ Ls) (hrank : ∀ l ∈ xs, l.1.level.rank ≤ s.level.rank) :
    foldAll op Ls v (xs ++ (s, z) :: rest) = .ok p ↔
      ∃ u, foldAll op Ls v xs = .ok (u, []) ∧ foldAll op Ls u ((s, z) :: rest) = .ok p := by
  induction Ls generalizing v xs z rest with
  | nil => cases hs
  | cons L Ls ih =>
    obtain ⟨hlt, hLs⟩ := List.pairwise_cons.mp hLs
    rw [foldAll, foldAll]
    by_cases heq : s.level = L
    · -- All operators in front are of the level of the operator.
      have hlevel : ∀ l ∈ xs, l.1.level = L := by
        intro l hl
        have hle := hrank l hl
        have hge := rank_le hlt (hxs l hl)
        rw [heq] at hle
        exact rank_injective (Nat.le_antisymm hle hge)
      rw [fold_append_level hlevel]
      cases hfold : L.fold op v xs with
      | error f =>
        constructor
        · intro h
          cases h
        · rintro ⟨_, h, _⟩
          cases h
      | ok q =>
        have hnil : q.2 = [] := links_of_fold hlevel hfold
        show _ ↔ ∃ u, foldAll op Ls q.1 q.2 = .ok (u, []) ∧ _
        rw [hnil, foldAll_nil]
        constructor
        · exact fun h => ⟨q.1, rfl, h⟩
        · rintro ⟨u, hu, h⟩
          obtain ⟨rfl, -⟩ := Prod.mk.inj (Except.ok.inj hu)
          exact h
    · have hs' : s.level ∈ Ls := (List.mem_cons.mp hs).resolve_left heq
      have hbehind : ∀ u, L.fold op u ((s, z) :: rest) = (L.fold op z rest).map fun q => (u, (s, q.1) :: q.2) := by
        intro u
        rw [fold, if_neg heq]
      rw [fold_append heq]
      cases hfold : L.fold op v xs with
      | error f =>
        constructor
        · intro h
          cases h
        · rintro ⟨_, h, _⟩
          cases h
      | ok q =>
        cases hrest : L.fold op z rest with
        | error f =>
          constructor
          · intro h
            cases h
          · rintro ⟨u, -, h⟩
            rw [foldAll, hbehind, hrest] at h
            cases h
        | ok r =>
          have hunder := @ih q.1 r.1 q.2 r.2 hLs hs' (level_mem_of_fold op hxs hfold)
            (forall_of_fold op (P := fun s' => s'.level.rank ≤ s.level.rank) hrank hfold)
          simp only [foldAll, hbehind, hrest]
          exact hunder

/-- What is behind an operator is computed first, if all operators in it are tighter. -/
theorem foldAll_right (hLs : Ls.Pairwise fun L M => L.rank < M.rank) (hs : s.level ∈ Ls)
    (hys : ∀ l ∈ ys, l.1.level ∈ Ls) (hrank : ∀ l ∈ ys, l.1.level.rank < s.level.rank) :
    foldAll op Ls v (xs ++ (s, w) :: ys) = .ok p ↔
      ∃ u, foldAll op Ls w ys = .ok (u, []) ∧ foldAll op Ls v (xs ++ [(s, u)]) = .ok p := by
  induction Ls generalizing v w xs ys with
  | nil => cases hs
  | cons L Ls ih =>
    obtain ⟨hlt, hLs⟩ := List.pairwise_cons.mp hLs
    by_cases heq : s.level = L
    · -- Nothing is tighter than the operator.
      have hnil : ys = [] := List.eq_nil_iff_forall_not_mem.mpr fun l hl => by
        have hle := rank_le hlt (hys l hl)
        have hgt := hrank l hl
        rw [heq] at hgt
        omega
      rw [hnil, foldAll_nil]
      constructor
      · exact fun h => ⟨w, rfl, h⟩
      · rintro ⟨u, hu, h⟩
        obtain ⟨rfl, -⟩ := Prod.mk.inj (Except.ok.inj hu)
        exact h
    · have hs' : s.level ∈ Ls := (List.mem_cons.mp hs).resolve_left heq
      have hfront : ∀ u, foldAll op (L :: Ls) v (xs ++ [(s, u)]) =
          (L.fold op v xs).bind fun q => foldAll op Ls q.1 (q.2 ++ [(s, u)]) := by
        intro u
        rw [foldAll, fold_append heq, Outcome.bind_assoc]
        rfl
      simp only [hfront]
      rw [foldAll, foldAll, fold_append heq]
      cases hfold : L.fold op v xs with
      | error f =>
        constructor
        · intro h
          cases h
        · rintro ⟨_, _, h⟩
          cases h
      | ok q =>
        cases hrest : L.fold op w ys with
        | error f =>
          constructor
          · intro h
            cases h
          · rintro ⟨_, h, _⟩
            cases h
        | ok r =>
          exact @ih q.1 r.1 q.2 r.2 hLs hs' (level_mem_of_fold op hys hrest)
            (forall_of_fold op (P := fun s' => s'.level.rank < s.level.rank) hrank hrest)

end Level

/-! ### Values -/

namespace Links

theorem value_eq_ok {u : Value} : value op v xs = .ok u ↔ Level.foldAll op Level.all v xs = .ok (u, []) := by
  constructor
  · intro h
    obtain ⟨p, hp, rfl⟩ := Outcome.map_eq_ok h
    have hnil : p.2 = [] := Level.links_of_foldAll op (fun l _ => l.1.level.mem_all) hp
    rw [hp, ← hnil]
  · intro h
    rw [value, h]
    rfl

theorem value_left {r : Value} (hrank : ∀ l ∈ xs, l.1.level.rank ≤ s.level.rank) :
    value op v (xs ++ (s, z) :: rest) = .ok r ↔ ∃ u, value op v xs = .ok u ∧ value op u ((s, z) :: rest) = .ok r := by
  simp only [value_eq_ok]
  exact Level.foldAll_left Level.pairwise_all s.level.mem_all (fun l _ => l.1.level.mem_all) hrank

theorem value_right {r : Value} (hrank : ∀ l ∈ ys, l.1.level.rank < s.level.rank) :
    value op v (xs ++ (s, w) :: ys) = .ok r ↔ ∃ u, value op w ys = .ok u ∧ value op v (xs ++ [(s, u)]) = .ok r := by
  simp only [value_eq_ok]
  exact Level.foldAll_right Level.pairwise_all s.level.mem_all (fun l _ => l.1.level.mem_all) hrank

end Links

end Parts

/-! ### What stands around an operand -/

/-- One side of an operand: nothing, or a line that an operator joins to the operand. -/
inductive Side where
  | nil
  | line (s : Sign) (v : Value) (links : Links)

namespace Side

def before : Side → Stream
  | nil => []
  | line s v links => Stream.line v links ++ [s.token]

def behind : Side → Stream
  | nil => []
  | line s v links => s.token :: Stream.line v links

/-- The operator next to the operand. -/
def sign? : Side → Option Sign
  | nil => none
  | line s _ _ => some s

def inner : Side → Links
  | nil => []
  | line _ _ links => links

/-- The side with its line replaced by its value, as contractions give it. -/
def value : Side → Outcome Side
  | nil => .ok nil
  | line s v links => (Links.value Sign.contracted v links).map fun u => line s u []

/-- In front of the operand the line is computed before its operand is used: no operator in it is looser than the one
    next to the operand. -/
def BindsBefore : Side → Prop
  | nil => True
  | line s _ links => ∀ l ∈ links, l.1.level.rank ≤ s.level.rank

/-- Behind the operand the line is computed before the operand is used: all operators in it are tighter than the one
    next to the operand. -/
def BindsBehind : Side → Prop
  | nil => True
  | line s _ links => ∀ l ∈ links, l.1.level.rank < s.level.rank

end Side

namespace Side
variable {S S' : Side}

theorem inner_of_value (h : S.value = .ok S') : S'.inner = [] := by
  cases S with
  | nil =>
    rw [← Except.ok.inj h]
    rfl
  | line s v links =>
    obtain ⟨u, -, rfl⟩ := Outcome.map_eq_ok h
    rfl

theorem sign?_of_value (h : S.value = .ok S') : S'.sign? = S.sign? := by
  cases S with
  | nil =>
    rw [← Except.ok.inj h]
  | line s v links =>
    obtain ⟨u, -, rfl⟩ := Outcome.map_eq_ok h
    rfl

end Side

/-! ### Lines around an operand -/

theorem Links.tokens_append (xs ys : Links) : tokens (xs ++ ys) = tokens xs ++ tokens ys := by
  simp [tokens]

theorem Side.exists_line_before (F : Side) (z : Value) :
    ∃ v links, ∀ ts : Stream, F.before ++ .number z :: ts = Stream.line v links ++ ts := by
  cases F with
  | nil => exact ⟨z, [], fun ts => rfl⟩
  | line s v links => exact ⟨v, links ++ [(s, z)], fun ts => by simp [before, Stream.line, Links.tokens_append]⟩

theorem Side.exists_line_behind (B : Side) (z : Value) : ∃ links, .number z :: B.behind = Stream.line z links := by
  cases B with
  | nil => exact ⟨[], rfl⟩
  | line s w links => exact ⟨(s, w) :: links, rfl⟩

namespace Engine
variable {e : Engine} {depth : Int} (he : e.IsPlain) (hd : depth ≤ e.limit) {F B : Side} {t : Token}
include he hd

theorem reduce_line_iff {v : Value} {links : Links} : (e.reduce depth (Stream.line v links)).outcome = .ok t ↔
    ∃ r, Links.value Sign.contracted v links = .ok r ∧ t = .number r := by
  rw [reduce_line he.isStandard he.rounds hd]
  cases Links.value Sign.contracted v links with
  | error f =>
    constructor
    · intro h
      cases h
    · rintro ⟨_, h, _⟩
      cases h
  | ok r =>
    constructor
    · exact fun h => ⟨r, rfl, (Except.ok.inj h).symm⟩
    · rintro ⟨r', hr, rfl⟩
      rw [← Except.ok.inj hr]
      rfl

/-- What is in front of an operand can be reduced to its value first, if it is computed first. -/
theorem reduce_front (hF : F.BindsBefore) (z : Value) (rest : Links) :
    (e.reduce depth (F.before ++ Stream.line z rest)).outcome = .ok t ↔
      ∃ F', F.value = .ok F' ∧ (e.reduce depth (F'.before ++ Stream.line z rest)).outcome = .ok t := by
  cases F with
  | nil =>
    constructor
    · exact fun h => ⟨.nil, rfl, h⟩
    · rintro ⟨F', hF', h⟩
      rwa [← Except.ok.inj hF'] at h
  | line s v links =>
    have hline : ∀ {v : Value} {links : Links}, (Side.line s v links).before ++ Stream.line z rest =
        Stream.line v (links ++ (s, z) :: rest) := by
      intro v links
      simp [Side.before, Stream.line, Links.tokens_append]
    rw [hline, reduce_line_iff he hd]
    constructor
    · rintro ⟨r, hr, ht⟩
      obtain ⟨u, hu, hr⟩ := (Links.value_left hF).mp hr
      refine ⟨.line s u [], by rw [Side.value, hu]; rfl, ?_⟩
      rw [hline]
      exact (reduce_line_iff he hd).mpr ⟨r, hr, ht⟩
    · rintro ⟨F', hF', h⟩
      obtain ⟨u, hu, rfl⟩ := Outcome.map_eq_ok hF'
      rw [hline] at h
      obtain ⟨r, hr, ht⟩ := (reduce_line_iff he hd).mp h
      exact ⟨r, (Links.value_left hF).mpr ⟨u, hu, hr⟩, ht⟩

theorem reduce_back (hB : B.BindsBehind) (v : Value) (xs : Links) :
    (e.reduce depth (Stream.line v xs ++ B.behind)).outcome = .ok t ↔
      ∃ B', B.value = .ok B' ∧ (e.reduce depth (Stream.line v xs ++ B'.behind)).outcome = .ok t := by
  cases B with
  | nil =>
    constructor
    · exact fun h => ⟨.nil, rfl, h⟩
    · rintro ⟨B', hB', h⟩
      rwa [← Except.ok.inj hB'] at h
  | line s w links =>
    have hline : ∀ {w : Value} {links : Links}, Stream.line v xs ++ (Side.line s w links).behind =
        Stream.line v (xs ++ (s, w) :: links) := by
      intro w links
      simp [Side.behind, Stream.line, Links.tokens_append]
    rw [hline, reduce_line_iff he hd]
    constructor
    · rintro ⟨r, hr, ht⟩
      obtain ⟨u, hu, hr⟩ := (Links.value_right hB).mp hr
      refine ⟨.line s u [], by rw [Side.value, hu]; rfl, ?_⟩
      rw [hline]
      exact (reduce_line_iff he hd).mpr ⟨r, hr, ht⟩
    · rintro ⟨B', hB', h⟩
      obtain ⟨u, hu, rfl⟩ := Outcome.map_eq_ok hB'
      rw [hline] at h
      obtain ⟨r, hr, ht⟩ := (reduce_line_iff he hd).mp h
      exact ⟨r, (Links.value_right hB).mpr ⟨u, hu, hr⟩, ht⟩

/-- An operand can be put between the values of both sides, if both sides are computed before the operand is used. -/
theorem reduce_operand (hF : F.BindsBefore) (hB : B.BindsBehind) (z : Value) :
    (e.reduce depth (F.before ++ .number z :: B.behind)).outcome = .ok t ↔
      ∃ F' B', F.value = .ok F' ∧ B.value = .ok B' ∧
        (e.reduce depth (F'.before ++ .number z :: B'.behind)).outcome = .ok t := by
  obtain ⟨rest, hrest⟩ := B.exists_line_behind z
  rw [hrest, reduce_front he hd hF, ← hrest]
  constructor
  · rintro ⟨F', hF', h⟩
    obtain ⟨v, xs, hline⟩ := F'.exists_line_before z
    rw [hline, reduce_back he hd hB] at h
    obtain ⟨B', hB', h⟩ := h
    exact ⟨F', B', hF', hB', by rwa [hline]⟩
  · rintro ⟨F', B', hF', hB', h⟩
    obtain ⟨v, xs, hline⟩ := F'.exists_line_before z
    rw [hline] at h
    refine ⟨F', hF', ?_⟩
    rw [hline, reduce_back he hd hB]
    exact ⟨B', hB', h⟩

end Engine
end Reckoner
