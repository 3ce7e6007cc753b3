import Reckoner.Proofs.Unfolding

/-!
# Lines of numbers and operators

A line is a number followed by operators and numbers in turn. Its value is defined by levels: all powers from
left to right, then all remainders, then products and quotients, then sums and differences. Each operation is
given as a parameter, so that the same value is defined with and without a check of the integers on the way.
-/

namespace Reckoner

/-- The six operators of arithmetic. -/
inductive Sign where
  | add
  | subtract
  | multiply
  | divide
  | mod
  | pow
  deriving DecidableEq, Repr

/-- The levels of arithmetic, from the tightest to the loosest. -/
inductive Level where
  | power
  | remainder
  | product
  | sum
  deriving DecidableEq, Repr

namespace Level

def all : List Level := [.power, .remainder, .product, .sum]

/-- The position of a level, from the tightest. -/
def rank : Level → Nat
  | .power => 0
  | .remainder => 1
  | .product => 2
  | .sum => 3

theorem mem_all (L : Level) : L ∈ all := by
  cases L <;> simp [all]

theorem rank_injective {L M : Level} (h : L.rank = M.rank) : L = M := by
  cases L <;> cases M <;> first | rfl | cases h

theorem pairwise_all : all.Pairwise fun L M => L.rank < M.rank := by decide

/-- The head of a list of levels in order is the tightest of them. -/
theorem rank_le {L M : Level} {Ls : List Level} (hLs : ∀ M ∈ Ls, L.rank < M.rank) (hM : M ∈ L :: Ls) :
    L.rank ≤ M.rank := by
  rcases List.mem_cons.mp hM with rfl | hM
  · exact Nat.le_refl _
  · exact Nat.le_of_lt (hLs M hM)

end Level

namespace Sign

def operation : Sign → Operation
  | .add => .add
  | .subtract => .subtract
  | .multiply => .multiply
  | .divide => .divide
  | .mod => .mod
  | .pow => .pow

def token (s : Sign) : Token := ⟨.operator, .text s.operation.name⟩

def level : Sign → Level
  | .add | .subtract => .sum
  | .multiply | .divide => .product
  | .mod => .remainder
  | .pow => .power

theorem name_inj {s s' : Sign} : s.operation.name = s'.operation.name ↔ s = s' := by
  cases s <;> cases s' <;> simp [operation, Operation.name]

theorem token_injective {s s' : Sign} (h : s.token = s'.token) : s = s' := by
  simpa [token, name_inj] using h

theorem category_operation (s : Sign) : s.operation.category = .numeric := by
  cases s <;> rfl

end Sign

/-- The token of a number. -/
def Token.number (v : Value) : Token := ⟨.numeric, v⟩

/-- The outcome is the number token of an integer. -/
def Outcome.isInt (k : Int) : Outcome Token → Bool
  | .ok ⟨.numeric, .int n⟩ => n == k
  | _ => false

theorem Outcome.eq_ok_int {o : Outcome Token} {k : Int} (h : o.isInt k = true) : o = .ok (.number (.int k)) := by
  unfold isInt at h
  split at h
  · rw [← eq_of_beq h]
    rfl
  · cases h

/-- Operators and the values behind them. -/
abbrev Links := List (Sign × Value)

namespace Links

def tokens (links : Links) : Stream := links.flatMap fun l => [l.1.token, .number l.2]

@[simp] theorem tokens_nil : tokens [] = [] := rfl

@[simp] theorem tokens_cons (s : Sign) (w : Value) (links : Links) :
    tokens ((s, w) :: links) = s.token :: .number w :: tokens links := rfl

end Links

/-- The tokens of a line. -/
def Stream.line (v : Value) (links : Links) : Stream := .number v :: links.tokens

theorem Stream.length_line (v : Value) (links : Links) : (line v links).length = 2 * links.length + 1 := by
  induction links generalizing v with
  | nil => rfl
  | cons l links ih =>
    obtain ⟨s, w⟩ := l
    have := ih w
    simp only [line, Links.tokens_cons, List.length_cons] at this ⊢
    omega

/-! ### Values -/

section Values
variable (op : Sign → Value → Value → Outcome Value)

namespace Level

/-- The line after the operations of a level, from left to right. -/
def fold (L : Level) : Value → Links → Outcome (Value × Links)
  | v, [] => .ok (v, [])
  | v, (s, w) :: links =>
    if s.level = L then (op s v w).bind fun u => L.fold u links
    else (L.fold w links).map fun p => (v, (s, p.1) :: p.2)

/-- Only operators of other levels are left over, and no others come in. -/
theorem mem_of_fold {L : Level} {v u : Value} {links rest : Links} (h : L.fold op v links = .ok (u, rest)) :
    ∀ l ∈ rest, l.1.level ≠ L ∧ ∃ w, (l.1, w) ∈ links := by
  induction links generalizing v u rest with
  | nil =>
    obtain ⟨-, rfl⟩ := Prod.mk.inj (Except.ok.inj h)
    simp
  | cons l links ih =>
    obtain ⟨s, w⟩ := l
    rw [fold] at h
    split at h
    · obtain ⟨u', -, h⟩ := Outcome.bind_eq_ok h
      intro l hl
      obtain ⟨hne, w', hw'⟩ := ih h l hl
      exact ⟨hne, w', List.mem_cons_of_mem _ hw'⟩
    · rename_i hs
      obtain ⟨⟨w', links'⟩, hfold, hp⟩ := Outcome.map_eq_ok h
      obtain ⟨rfl, rfl⟩ := Prod.mk.inj hp
      intro l hl
      rcases List.mem_cons.mp hl with rfl | hl
      · exact ⟨hs, w, List.mem_cons_self ..⟩
      · obtain ⟨hne, w', hw'⟩ := ih hfold l hl
        exact ⟨hne, w', List.mem_cons_of_mem _ hw'⟩

/-- What holds of the operators of a line holds of those that are left. -/
theorem forall_of_fold {L : Level} {P : Sign → Prop} {v : Value} {links : Links} {p : Value × Links}
    (hlinks : ∀ l ∈ links, P l.1) (h : L.fold op v links = .ok p) : ∀ l ∈ p.2, P l.1 := by
  intro l hl
  obtain ⟨-, w, hw⟩ := mem_of_fold op h l hl
  exact hlinks (l.1, w) hw

/-- Behind the operations of a level the operators of the others are left. -/
theorem level_mem_of_fold {L : Level} {Ls : List Level} {v : Value} {links : Links} {p : Value × Links}
    (hlinks : ∀ l ∈ links, l.1.level ∈ L :: Ls) (h : L.fold op v links = .ok p) : ∀ l ∈ p.2, l.1.level ∈ Ls := by
  intro l hl
  obtain ⟨hne, w, hw⟩ := mem_of_fold op h l hl
  exact (List.mem_cons.mp (hlinks (l.1, w) hw)).resolve_left hne

end Level

/-- The line after the operations of some levels, one after the other. -/
def Level.foldAll : List Level → Value → Links → Outcome (Value × Links)
  | [], v, links => .ok (v, links)
  | L :: rest, v, links => (L.fold op v links).bind fun p => foldAll rest p.1 p.2

/-- Behind all levels of its operators a line is a single number. -/
theorem Level.links_of_foldAll {Ls : List Level} {v : Value} {links : Links} {p : Value × Links}
    (hlinks : ∀ l ∈ links, l.1.level ∈ Ls) (h : foldAll op Ls v links = .ok p) : p.2 = [] := by
  induction Ls generalizing v links with
  | nil =>
    rw [← Except.ok.inj h]
    exact List.eq_nil_iff_forall_not_mem.mpr fun l hl => List.not_mem_nil (hlinks l hl)
  | cons L Ls ih =>
    obtain ⟨q, hq, h⟩ := Outcome.bind_eq_ok h
    exact ih (fun l hl => Level.level_mem_of_fold op hlinks hq l hl) h

/-- The value of a line, level by level. -/
def Links.value (v : Value) (links : Links) : Outcome Value := (Level.foldAll op Level.all v links).map (·.1)

end Values

section Monotone
variable {op op' : Sign → Value → Value → Outcome Value} {P : Value → Prop}
  (hop : ∀ s v w u, P v → P w → op s v w = .ok u → op' s v w = .ok u ∧ P u)
include hop

/-- Operations that agree on the values of a class give the same lines of such values. -/
theorem Level.fold_mono {L : Level} {v : Value} {links : Links} {p : Value × Links} (hv : P v)
    (hlinks : ∀ l ∈ links, P l.2) (h : L.fold op v links = .ok p) :
    L.fold op' v links = .ok p ∧ P p.1 ∧ ∀ l ∈ p.2, P l.2 := by
  induction links generalizing v p with
  | nil =>
    rw [← Except.ok.inj h]
    exact ⟨rfl, hv, by simp⟩
  | cons l links ih =>
    obtain ⟨s, w⟩ := l
    obtain ⟨hw, hrest⟩ := List.forall_mem_cons.mp hlinks
    rw [fold] at h ⊢
    split at h
    · rename_i hs
      obtain ⟨u, hu, h⟩ := Outcome.bind_eq_ok h
      obtain ⟨hu', hPu⟩ := hop s v w u hv hw hu
      rw [if_pos hs, hu']
      exact ih hPu hrest h
    · rename_i hs
      obtain ⟨q, hq, hp⟩ := Outcome.map_eq_ok h
      obtain ⟨hfold, hPq, hPrest⟩ := ih hw hrest hq
      rw [if_neg hs, hfold, ← hp]
      exact ⟨rfl, hv, List.forall_mem_cons.mpr ⟨hPq, hPrest⟩⟩

theorem Level.foldAll_mono {Ls : List Level} {v : Value} {links : Links} {p : Value × Links} (hv : P v)
    (hlinks : ∀ l ∈ links, P l.2) (h : Level.foldAll op Ls v links = .ok p) :
    Level.foldAll op' Ls v links = .ok p ∧ P p.1 := by
  induction Ls generalizing v links with
  | nil =>
    rw [← Except.ok.inj h]
    exact ⟨rfl, hv⟩
  | cons L Ls ih =>
    obtain ⟨q, hq, h⟩ := Outcome.bind_eq_ok h
    obtain ⟨hfold, hPq, hPrest⟩ := Level.fold_mono hop hv hlinks hq
    rw [foldAll, hfold]
    exact ih hPq hPrest h

theorem Links.value_mono {v u : Value} {links : Links} (hv : P v) (hlinks : ∀ l ∈ links, P l.2)
    (h : Links.value op v links = .ok u) : Links.value op' v links = .ok u ∧ P u := by
  obtain ⟨p, hp, rfl⟩ := Outcome.map_eq_ok h
  obtain ⟨hfold, hP⟩ := Level.foldAll_mono hop hv hlinks hp
  rw [value, hfold]
  exact ⟨rfl, hP⟩

end Monotone
end Reckoner
