import Reckoner.Proofs.LineEnds
import Reckoner.Proofs.Rewriting
import Reckoner.Proofs.Rows

/-!
# Arithmetic in the order of a table

The rules of the four levels can stand in a table of their own, some of them or all, in any order. The engine goes back
to the top of the table after each contraction, but this is the same as to fold the levels one after the other, each
from left to right (`Engine.reduce_tableOrder`): the operation that is carried out first is the leftmost one of the first
level that has any, and the folds begin with the same one (`Level.foldAll_first`).
-/

namespace Reckoner

/-! ### The first operation of the folds -/

namespace Level
variable {op op' : Sign → Value → Value → Outcome Value} {L : Level} {Ls Ms : List Level} {s : Sign} {v w : Value}
  {front back links : Links} {f : Failure}

theorem fold_first (hs : s.level = L) (hfront : ∀ l ∈ front, l.1.level ≠ L) :
    L.fold op v (front ++ (s, w) :: back) = (op s (Links.last v front) w).bind fun u =>
      L.fold op (Links.withLast u v front).1 ((Links.withLast u v front).2 ++ back) := by
  induction front generalizing v with
  | nil =>
    rw [List.nil_append, fold, if_pos hs]
    rfl
  | cons l front ih =>
    obtain ⟨s', w'⟩ := l
    obtain ⟨hs', hfront⟩ := List.forall_mem_cons.mp hfront
    rw [List.cons_append, fold, if_neg hs', ih hfront]
    show Except.map _ (Except.bind (op s (Links.last w' front) w) _) = Except.bind (op s (Links.last w' front) w) _
    cases op s (Links.last w' front) w with
    | error f => rfl
    | ok u => exact (if_neg hs').symm

/-- The folds begin with the leftmost operation of the first level that has any. -/
theorem foldAll_first (hs : s.level = L) (hfront : ∀ l ∈ front, l.1.level ≠ L)
    (habsent : ∀ l ∈ front ++ (s, w) :: back, l.1.level ∉ Ls) :
    foldAll op (Ls ++ L :: Ms) v (front ++ (s, w) :: back) = (op s (Links.last v front) w).bind fun u =>
      foldAll op (Ls ++ L :: Ms) (Links.withLast u v front).1 ((Links.withLast u v front).2 ++ back) := by
  -- The operation leaves the operators of the others in place, so that the first levels still have none.
  have hleft : ∀ u, ∀ l ∈ (Links.withLast u v front).2 ++ back, l.1.level ∉ Ls := fun u l hl => by
    rcases List.mem_append.mp hl with hl | hl
    · exact Links.sign_of_withLast (P := (·.level ∉ Ls)) (fun l hl => habsent l (List.mem_append_left _ hl)) l hl
    · exact habsent l (List.mem_append_right _ (List.mem_cons_of_mem _ hl))
  rw [foldAll_append, foldAll_of_absent habsent]
  show (L.fold op v _).bind _ = _
  rw [fold_first hs hfront, Outcome.bind_assoc]
  refine Outcome.bind_congr fun u _ => ?_
  rw [foldAll_append, foldAll_of_absent (hleft u)]
  rfl

/-! ### Operations that agree up to a failure -/

section Agree
variable (hop : ∀ s v w, op s v w = .error f ∨ op s v w = op' s v w)
include hop

theorem fold_agree : L.fold op v links = .error f ∨ L.fold op v links = L.fold op' v links := by
  induction links generalizing v with
  | nil => exact Or.inr rfl
  | cons l links ih =>
    obtain ⟨s, w⟩ := l
    rw [fold, fold]
    split
    · exact Outcome.bind_agree (hop s v w) fun u => ih
    · exact Outcome.map_agree ih

theorem foldAll_agree : foldAll op Ls v links = .error f ∨ foldAll op Ls v links = foldAll op' Ls v links := by
  induction Ls generalizing v links with
  | nil => exact Or.inr rfl
  | cons L Ls ih => exact Outcome.bind_agree (fold_agree hop) fun p => ih

end Agree
end Level

theorem Operation.contracted_agree (op : Operation) (v w : Value) :
    op.contracted v w = .error .longInteger ∨ op.contracted v w = op.apply v w := by
  rw [contracted]
  cases op.apply v w with
  | error f => exact Or.inr rfl
  | ok u =>
    show (if v.isWritable && w.isWritable && u.isWritable then Except.ok u else .error Failure.longInteger) = _ ∨
      _ = Except.ok u
    by_cases h : (v.isWritable && w.isWritable && u.isWritable) = true
    · exact Or.inr (if_pos h)
    · exact Or.inl (if_neg h)

/-! ### Tables of levels -/

theorem Links.length_withLast (u v : Value) (links : Links) : (withLast u v links).2.length = links.length := by
  induction links generalizing v with
  | nil => rfl
  | cons l links ih => exact congrArg (· + 1) (ih l.2)

/-- How a reduction ends with a line that no rule matches: it gives the number that is left, or fails with the line. -/
def Stream.conclusion (failure : Stream → Failure) (v : Value) : Links → Outcome Token
  | [] => .ok (.number v)
  | l :: links => .error (failure (line v (l :: links)))

theorem Stream.conclusion_agree (v : Value) (links : Links) : conclusion Engine.stuck v links = .error .longInteger ∨
    conclusion Engine.stuck v links = conclusion .noRuleMatched v links := by
  cases links with
  | nil => exact Or.inr rfl
  | cons l links =>
    rw [conclusion, conclusion, Engine.stuck]
    split
    · exact Or.inr rfl
    · exact Or.inl rfl

theorem Stream.not_has_line {L : Level} {v : Value} {links : Links} (h : ∀ l ∈ links, l.1.level ≠ L) :
    ∀ u ∈ line v links, ¬ L.Has u := by
  intro u hu hhas
  rcases List.mem_cons.mp hu with rfl | hu
  · cases hhas.category
  obtain ⟨l, hl, hu⟩ := List.mem_flatMap.mp hu
  simp only [List.mem_cons, List.not_mem_nil, or_false] at hu
  rcases hu with rfl | rfl
  · exact h l hl (Level.has_token.mp hhas)
  · cases hhas.category

theorem Level.find?_of_not_mem {Ls : List Level} {v : Value} {links : Links} (h : ∀ l ∈ links, l.1.level ∉ Ls) :
    ∀ r ∈ Ls.map Level.rule, r.pattern.find? (Stream.line v links) = none := by
  intro r hr
  obtain ⟨L, hL, rfl⟩ := List.mem_map.mp hr
  exact Level.find?_of_absent (Stream.not_has_line fun l hl heq => h l hl (heq ▸ hL))

/-- The first level of a list that has operators in a line, with the leftmost of them. -/
theorem Links.first_of_level {Ls : List Level} {links : Links} (h : ∃ l ∈ links, l.1.level ∈ Ls) :
    ∃ Ms L Ns front s w back, Ls = Ms ++ L :: Ns ∧ links = front ++ (s, w) :: back ∧ s.level = L ∧
      (∀ l ∈ front, l.1.level ≠ L) ∧ ∀ l ∈ links, l.1.level ∉ Ms := by
  obtain ⟨l, hl, hmem⟩ := h
  cases hL : Ls.find? fun L => links.any (·.1.level == L) with
  | none => exact absurd (List.any_eq_true.mpr ⟨l, hl, by simp⟩) (List.find?_eq_none.mp hL _ hmem)
  | some L =>
    obtain ⟨hany, Ms, Ns, rfl, hMs⟩ := List.find?_eq_some_iff_append.mp hL
    obtain ⟨⟨s₀, w₀⟩, hl₀, hs₀⟩ := List.any_eq_true.mp hany
    cases hfirst : links.find? (·.1.level == L) with
    | none => exact absurd hs₀ (List.find?_eq_none.mp hfirst _ hl₀)
    | some first =>
      obtain ⟨s, w⟩ := first
      obtain ⟨hs, front, back, rfl, hfront⟩ := List.find?_eq_some_iff_append.mp hfirst
      refine ⟨Ms, L, Ns, front, s, w, back, rfl, rfl, beq_iff_eq.mp hs, fun l hl heq => ?_, fun l hl hM => ?_⟩
      · simpa [heq] using hfront l hl
      · have := hMs _ hM
        simp only [Bool.not_eq_true', List.any_eq_false] at this
        exact this l hl (beq_self_eq_true _)

/-- A line is split in front of an operator. The operation leaves a line with what it gives as the last number in front. -/
theorem Stream.exists_line_split (v : Value) (front : Links) (s : Sign) (w : Value) (back : Links) : ∃ pre : Stream,
    line v (front ++ (s, w) :: back) =
        pre ++ ([.number (Links.last v front), s.token, .number w] ++ Links.tokens back) ∧
      (∀ t ∈ pre, t ∈ line v front) ∧
      ∀ u, pre ++ ([.number u] ++ Links.tokens back) =
        line (Links.withLast u v front).1 ((Links.withLast u v front).2 ++ back) := by
  obtain ⟨pre, hline, hwith⟩ := Links.exists_front v front
  have happend : ∀ (u : Value) (links : Links), line u (links ++ back) = line u links ++ Links.tokens back := fun u links => by
    simp [line, Links.tokens]
  refine ⟨pre, ?_, fun t ht => hline ▸ List.mem_append_left _ ht, fun u => ?_⟩
  · have : line v (front ++ (s, w) :: back) = line v front ++ Links.tokens ((s, w) :: back) := by
      simp [line, Links.tokens]
    rw [this, hline]
    simp
  · rw [happend, hwith]
    simp

/-- The rule that leads in a line is that of the first level of the table that has operators in it, and takes the leftmost
    of them. -/
theorem Level.firstMatch?_line {Ms Ns : List Level} {L : Level} {v w : Value} {front back : Links} {s : Sign} {pre : Stream}
    (hs : s.level = L) (hfront : ∀ l ∈ front, l.1.level ≠ L)
    (habsent : ∀ l ∈ front ++ (s, w) :: back, l.1.level ∉ Ms)
    (hline : Stream.line v (front ++ (s, w) :: back) =
      pre ++ ([.number (Links.last v front), s.token, .number w] ++ Links.tokens back))
    (hpre : ∀ t ∈ pre, t ∈ Stream.line v front) :
    Rule.firstMatch? ((Ms ++ L :: Ns).map Level.rule) (Stream.line v (front ++ (s, w) :: back)) =
      some (L.rule, pre.length, [.number (Links.last v front), s.token, .number w]) := by
  have hparse : L.rule.pattern.Parses [.number (Links.last v front), s.token, .number w] :=
    parses_rule.mpr ⟨_, _, _, rfl, rfl, has_token.mpr hs, rfl⟩
  have hsettled : L.Settled pre := settled_of_absent fun t ht => Stream.not_has_line hfront t (hpre t ht)
  have hfound : L.rule.pattern.FoundAt pre [.number (Links.last v front), s.token, .number w] (Links.tokens back) :=
    ⟨hparse, fun h => Bool.noConfusion h, Pattern.prefix?_of_parses L.determined_rule hparse _,
      fun a b hab hb => hsettled a b hab hb _ _⟩
  have habove := find?_of_not_mem (v := v) habsent
  rw [List.map_append, List.map_cons]
  rw [hline] at habove ⊢
  exact Rule.firstMatch?_of_foundAt habove (by simp [rule]) hfound

namespace Engine
variable {e : Engine} {nested : Stream → Traced Token} {depth : Int} {Ls : List Level}

/-- With as many rounds as the line has operators a level of the reduction folds the levels of the table. -/
theorem loop_tableOrder (hall : e.table.all = Ls.map Level.rule) : ∀ (rounds : Nat) (v : Value) (links : Links),
    links.length ≤ rounds → (e.loop nested depth rounds (Stream.line v links)).outcome =
      (Level.foldAll Sign.contracted Ls v links).bind fun p => Stream.conclusion stuck p.1 p.2 := by
  intro rounds
  induction rounds with
  | zero =>
    intro v links hlen
    obtain rfl : links = [] := List.length_eq_zero_iff.mp (Nat.le_zero.mp hlen)
    rw [Level.foldAll_of_absent (by simp)]
    exact congrArg Traced.outcome (loop_single _)
  | succ rounds ih =>
    intro v links hlen
    by_cases hany : ∃ l ∈ links, l.1.level ∈ Ls
    · obtain ⟨Ms, L, Ns, front, s, w, back, rfl, rfl, hs, hfront, habsent⟩ := Links.first_of_level hany
      obtain ⟨pre, hline, hpre, hjoin⟩ := Stream.exists_line_split v front s w back
      have hmatch := @Level.firstMatch?_line Ms Ns _ _ _ _ _ _ _ hs hfront habsent hline hpre
      rw [← hall] at hmatch
      have htwo : 2 ≤ (Stream.line v (front ++ (s, w) :: back)).length := by
        simp only [Stream.length_line, List.length_append, List.length_cons]
        omega
      rw [loop_outcome htwo hmatch hline rfl, Level.foldAll_first hs hfront habsent, Outcome.bind_assoc]
      show (e.fire nested (.step .apply) _).bind _ = _
      rw [fire_operation]
      cases s.contracted (Links.last v front) w with
      | error f => rfl
      | ok u =>
        -- One operation less is left, and one round.
        have hless : ((Links.withLast u v front).2 ++ back).length ≤ rounds := by
          simp only [List.length_append, List.length_cons, Links.length_withLast] at hlen ⊢
          omega
        show (e.loop nested depth rounds (pre ++ ([.number u] ++ Links.tokens back))).outcome = _
        rw [hjoin, ih _ _ hless]
        rfl
    · have habsent : ∀ l ∈ links, l.1.level ∉ Ls := fun l hl hmem => hany ⟨l, hl, hmem⟩
      rw [Level.foldAll_of_absent habsent]
      cases links with
      | nil => exact congrArg Traced.outcome (loop_single _)
      | cons l links =>
        have hnone : Rule.firstMatch? e.table.all (Stream.line v (l :: links)) = none :=
          Rule.firstMatch?_eq_none.mpr (hall ▸ Level.find?_of_not_mem habsent)
        exact congrArg Traced.outcome (loop_stuck (by simp [Stream.line, Links.tokens]) hnone)

/-- The order of the levels in a table, some of them or all, is the order in which the engine carries out the
    operations of a line, each level from left to right. The reduction gives the number that is left, or fails with the
    rest of the line, which has operators of other levels only, or with the first operation that fails. What is different
    from the folds of the operations themselves is that an integer may be too long to be written. -/
theorem reduce_tableOrder (hall : e.table.all = Ls.map Level.rule) (hrounds : e.rounds = none) (hd : depth ≤ e.limit)
    (v : Value) (links : Links) :
    (e.reduce depth (Stream.line v links)).outcome =
        (Level.foldAll Sign.contracted Ls v links).bind (fun p => Stream.conclusion stuck p.1 p.2) ∧
      ((e.reduce depth (Stream.line v links)).outcome = .error .longInteger ∨
        (e.reduce depth (Stream.line v links)).outcome =
          (Level.foldAll (fun s => s.operation.apply) Ls v links).bind fun p =>
            Stream.conclusion .noRuleMatched p.1 p.2) := by
  have hentry : e.entry (Stream.line v links) = Stream.line v links := by simp [entry, Stream.line]
  have henough : links.length ≤ e.roundsFor (Stream.line v links) := by
    rw [roundsFor, hrounds, Option.getD_none, patience, Stream.length_line]
    refine le_trans ?_ (le_max_left _ _)
    exact le_trans (by omega) (Nat.le_mul_of_pos_right _ (by omega))
  have hfold : (e.reduce depth (Stream.line v links)).outcome =
      (Level.foldAll Sign.contracted Ls v links).bind fun p => Stream.conclusion stuck p.1 p.2 := by
    rw [reduce_eq_inner hd, hentry]
    exact loop_tableOrder hall _ v links henough
  refine ⟨hfold, ?_⟩
  rw [hfold]
  have hconclusion := fun p : Value × Links => Stream.conclusion_agree p.1 p.2
  rcases Outcome.bind_agree (Level.foldAll_agree fun s => s.operation.contracted_agree) hconclusion with h | h
  · exact Or.inl h
  · exact Or.inr h

example : Level.all.map Level.rule =
    [⟨.power, .step .apply⟩, ⟨.remainder, .step .apply⟩, ⟨.product, .step .apply⟩, ⟨.sum, .step .apply⟩] := rfl

/-- With sums above products and no powers `2 * 3 + 4 ^ 2` is taken to `14 ^ 2`. -/
theorem reduce_tableOrder_sum_product : ∃ e : Engine, e.table.all = [Level.sum, .product].map Level.rule ∧
    e.rounds = none ∧ 0 ≤ e.limit ∧
      (e.reduce 0 (Stream.line (.int 2) [(.multiply, .int 3), (.add, .int 4), (.pow, .int 2)])).outcome =
        .error (.noRuleMatched (Stream.line (.int 14) [(.pow, .int 2)])) := by
  let e : Engine := { table := { rules := [Level.sum, .product].map Level.rule } }
  have hsum : Sign.contracted .add (.int 3) (.int 4) = .ok (.int 7) :=
    Operation.contracted_of_apply rfl (by decide +kernel) (by decide +kernel) (by decide +kernel)
  have hproduct : Sign.contracted .multiply (.int 2) (.int 7) = .ok (.int 14) :=
    Operation.contracted_of_apply rfl (by decide +kernel) (by decide +kernel) (by decide +kernel)
  have hfold : Level.foldAll Sign.contracted [.sum, .product] (.int 2)
      [(.multiply, .int 3), (.add, .int 4), (.pow, .int 2)] = .ok (.int 14, [(.pow, .int 2)]) := by
    simp [Level.foldAll, Level.fold, Sign.level, hsum, hproduct, Except.bind, Except.map]
  have hwritable : (Stream.line (.int 14) [(.pow, .int 2)]).isWritable = true := by decide +kernel
  refine ⟨e, rfl, rfl, by decide, ((@reduce_tableOrder e 0 [.sum, .product] rfl rfl (by decide) _ _).1.trans ?_)⟩
  rw [hfold]
  exact congrArg Except.error (if_pos hwritable)

end Engine
end Reckoner
