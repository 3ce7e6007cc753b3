import Reckoner.Proofs.Binding

/-!
# The end of a line

The last operation of a line is carried out when its level is folded: behind all operations of tighter levels, and
behind those of its own level, which stand in front of it (`Links.value_snoc`).
-/

namespace Reckoner

/-! ### The last number -/

namespace Links

/-- The number at the end of a line. -/
def last : Value → Links → Value
  | v, [] => v
  | _, (_, w) :: links => last w links

/-- A line with another number at its end. -/
def withLast (u : Value) : Value → Links → Value × Links
  | _, [] => (u, [])
  | v, (s, w) :: links => (v, (s, (withLast u w links).1) :: (withLast u w links).2)

variable {v : Value} {links : Links}

theorem sign_of_withLast {P : Sign → Prop} {u : Value} (h : ∀ l ∈ links, P l.1) : ∀ l ∈ (withLast u v links).2, P l.1 := by
  induction links generalizing v with
  | nil => simp [withLast]
  | cons l links ih =>
    obtain ⟨hl, hrest⟩ := List.forall_mem_cons.mp h
    exact List.forall_mem_cons.mpr ⟨hl, ih hrest⟩

/-- Only the last token of a line depends on its last number. -/
theorem exists_front (v : Value) (links : Links) : ∃ front : Stream,
    Stream.line v links = front ++ [.number (last v links)] ∧
      ∀ u, Stream.line (withLast u v links).1 (withLast u v links).2 = front ++ [.number u] := by
  induction links generalizing v with
  | nil => exact ⟨[], rfl, fun _ => rfl⟩
  | cons l links ih =>
    obtain ⟨s, w⟩ := l
    obtain ⟨front, hline, hwith⟩ := ih w
    refine ⟨.number v :: s.token :: front, ?_, fun u => ?_⟩
    · exact congrArg (.number v :: s.token :: ·) hline
    · exact congrArg (.number v :: s.token :: ·) (hwith u)

end Links

/-! ### The levels of the last operation -/

namespace Level
variable {op : Sign → Value → Value → Outcome Value} {L : Level} {Ls Ms : List Level} {s : Sign} {v w : Value}
  {links : Links} {p : Value × Links}

/-- The levels down to one, with it. -/
def upTo (L : Level) : List Level := all.take (L.rank + 1)

/-- The levels that are looser than one. -/
def beyond (L : Level) : List Level := all.drop (L.rank + 1)

theorem upTo_append_beyond (L : Level) : L.upTo ++ L.beyond = all := List.take_append_drop ..

theorem rank_le_of_mem_upTo {M : Level} (h : M ∈ L.upTo) : M.rank ≤ L.rank := by
  cases L <;> cases M <;> simp_all [upTo, all, rank]

theorem rank_lt_of_mem_beyond {M : Level} (h : M ∈ L.beyond) : L.rank < M.rank := by
  cases L <;> cases M <;> simp_all [beyond, all, rank]

theorem foldAll_append (Ls Ms : List Level) (v : Value) (links : Links) :
    foldAll op (Ls ++ Ms) v links = (foldAll op Ls v links).bind fun p => foldAll op Ms p.1 p.2 := by
  induction Ls generalizing v links with
  | nil => rfl
  | cons L Ls ih =>
    rw [List.cons_append, foldAll, foldAll, Outcome.bind_assoc]
    exact Outcome.bind_congr fun p _ => ih p.1 p.2

theorem level_mem_of_foldAll (hlinks : ∀ l ∈ links, l.1.level ∈ Ls ++ Ms) (h : foldAll op Ls v links = .ok p) :
    ∀ l ∈ p.2, l.1.level ∈ Ms := by
  induction Ls generalizing v links with
  | nil =>
    rw [← Except.ok.inj h]
    exact hlinks
  | cons L Ls ih =>
    obtain ⟨q, hq, h⟩ := Outcome.bind_eq_ok h
    exact ih (level_mem_of_fold op hlinks hq) h

theorem fold_of_absent (h : ∀ l ∈ links, l.1.level ≠ L) : L.fold op v links = .ok (v, links) := by
  induction links generalizing v with
  | nil => rfl
  | cons l links ih =>
    obtain ⟨hl, hrest⟩ := List.forall_mem_cons.mp h
    rw [fold, if_neg hl, ih hrest]
    rfl

theorem foldAll_of_absent (h : ∀ l ∈ links, l.1.level ∉ Ls) : foldAll op Ls v links = .ok (v, links) := by
  induction Ls with
  | nil => rfl
  | cons L Ls ih =>
    rw [foldAll, fold_of_absent fun l hl heq => h l hl (heq ▸ List.mem_cons_self ..)]
    exact ih fun l hl hmem => h l hl (List.mem_cons_of_mem _ hmem)

/-- The last operation of a line is the last one of its level. -/
theorem fold_snoc (hs : s.level = L) : L.fold op v (links ++ [(s, w)]) =
    (L.fold op v links).bind fun p => (op s (Links.last p.1 p.2) w).map fun u => Links.withLast u p.1 p.2 := by
  induction links generalizing v with
  | nil =>
    have hfold : L.fold op v [(s, w)] = (op s v w).bind fun u => .ok (u, []) := if_pos hs
    rw [List.nil_append, hfold]
    show (op s v w).bind _ = (op s v w).map _
    cases op s v w <;> rfl
  | cons l links ih =>
    obtain ⟨s', w'⟩ := l
    rw [List.cons_append, fold, fold]
    -- An operation of the level changes the number in front of the rest, any other leaves it behind.
    split
    · rw [Outcome.bind_assoc]
      exact Outcome.bind_congr fun u _ => ih
    · rw [ih]
      cases L.fold op w' links with
      | error f => rfl
      | ok p =>
        show ((op s (Links.last p.1 p.2) w).map _).map _ = (op s (Links.last p.1 p.2) w).map _
        cases op s (Links.last p.1 p.2) w <;> rfl

theorem foldAll_snoc (hs : s.level ∉ Ls) : foldAll op Ls v (links ++ [(s, w)]) =
    (foldAll op Ls v links).map fun p => (p.1, p.2 ++ [(s, w)]) := by
  induction Ls generalizing v links with
  | nil => rfl
  | cons L Ls ih =>
    obtain ⟨hL, hrest⟩ := List.ne_and_not_mem_of_not_mem_cons hs
    rw [foldAll, foldAll, fold_append hL]
    cases L.fold op v links with
    | error f => rfl
    | ok p => exact ih hrest

end Level

variable {op : Sign → Value → Value → Outcome Value} {L : Level} {s : Sign} {v w : Value} {links : Links}
  {p : Value × Links}

/-- Behind some levels the value of a line is that of what they leave. -/
theorem Links.value_of_foldAll (h : Level.foldAll op L.upTo v links = .ok p) (u : Value) :
    Links.value op (withLast u p.1 p.2).1 (withLast u p.1 p.2).2 =
      (Level.foldAll op L.beyond (withLast u p.1 p.2).1 (withLast u p.1 p.2).2).map (·.1) := by
  have hbeyond : ∀ l ∈ p.2, l.1.level ∈ L.beyond :=
    Level.level_mem_of_foldAll (fun l _ => L.upTo_append_beyond ▸ l.1.level.mem_all) h
  have habsent : ∀ l ∈ (withLast u p.1 p.2).2, l.1.level ∉ L.upTo := sign_of_withLast (P := (·.level ∉ L.upTo)) fun l hl hmem =>
    absurd (Level.rank_le_of_mem_upTo hmem) (Nat.not_le.mpr (Level.rank_lt_of_mem_beyond (hbeyond l hl)))
  rw [value, ← L.upTo_append_beyond, Level.foldAll_append, Level.foldAll_of_absent habsent]
  rfl

/-- The last operation of a line is carried out when its level is folded. -/
theorem Links.value_snoc : value op v (links ++ [(s, w)]) = (Level.foldAll op s.level.upTo v links).bind fun p =>
    (op s (last p.1 p.2) w).bind fun u => value op (withLast u p.1 p.2).1 (withLast u p.1 p.2).2 := by
  -- Only the last of the levels down to that of the operation reaches it.
  have hsplit : s.level.upTo = Level.all.take s.level.rank ++ [s.level] := by cases s <;> rfl
  have hnot : s.level ∉ Level.all.take s.level.rank := by cases s <;> decide
  have hupTo : Level.foldAll op s.level.upTo v (links ++ [(s, w)]) = (Level.foldAll op s.level.upTo v links).bind fun p =>
      (op s (last p.1 p.2) w).map fun u => withLast u p.1 p.2 := by
    rw [hsplit, Level.foldAll_append, Level.foldAll_append, Level.foldAll_snoc hnot]
    cases Level.foldAll op (Level.all.take s.level.rank) v links with
    | error f => rfl
    | ok q =>
      show (s.level.fold op q.1 (q.2 ++ [(s, w)])).bind .ok = ((s.level.fold op q.1 q.2).bind .ok).bind _
      rw [Outcome.bind_ok, Outcome.bind_ok, Level.fold_snoc rfl]
  rw [value, ← s.level.upTo_append_beyond, Level.foldAll_append, hupTo]
  cases hp : Level.foldAll op s.level.upTo v links with
  | error f => rfl
  | ok p =>
    show (((op s (last p.1 p.2) w).map _).bind _).map _ = (op s (last p.1 p.2) w).bind _
    cases op s (last p.1 p.2) w with
    | error f => rfl
    | ok u => exact (value_of_foldAll hp u).symm

theorem Links.value_single : value op v [(s, w)] = op s v w := by
  refine (@value_snoc op s v w []).trans ?_
  rw [Level.foldAll_of_absent (by simp)]
  show (op s v w).bind .ok = op s v w
  exact Outcome.bind_ok _

end Reckoner
