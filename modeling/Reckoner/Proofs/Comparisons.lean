import Mathlib.Data.List.Lex
import Mathlib.Data.String.Basic
import Reckoner.Proofs.Levels
import Reckoner.Proofs.NumberLine

/-!
# Comparisons

What a comparison of two values means. Numbers are compared by their places on the line of numbers, texts by the code
points in them, and lists at the first place where they differ; other values are equal or not, but have no order. The
operations carry this out (`Comparator.apply_eq_truth`).
-/

namespace Reckoner

inductive Comparator where
  | lt
  | le
  | gt
  | ge
  | eq
  | ne
  deriving DecidableEq, Repr

namespace Comparator

def operation : Comparator → Operation
  | .lt => .lt
  | .le => .le
  | .gt => .gt
  | .ge => .ge
  | .eq => .eq
  | .ne => .ne

def token (c : Comparator) : Token := ⟨.comparator, .text c.operation.name⟩

theorem category_operation (c : Comparator) : c.operation.category = .logical := by
  cases c <;> rfl

/-! ### Relations -/

section Order
variable {α : Type} [LinearOrder α]

/-- The relation that a comparator stands for. -/
def Relates : Comparator → α → α → Prop
  | .lt, a, b => a < b
  | .le, a, b => a ≤ b
  | .gt, a, b => b < a
  | .ge, a, b => b ≤ a
  | .eq, a, b => a = b
  | .ne, a, b => a ≠ b

instance : ∀ (c : Comparator) (a b : α), Decidable (c.Relates a b)
  | .lt, a, b => inferInstanceAs (Decidable (a < b))
  | .le, a, b => inferInstanceAs (Decidable (a ≤ b))
  | .gt, a, b => inferInstanceAs (Decidable (b < a))
  | .ge, a, b => inferInstanceAs (Decidable (b ≤ a))
  | .eq, a, b => inferInstanceAs (Decidable (a = b))
  | .ne, a, b => inferInstanceAs (Decidable (a ≠ b))

/-- The comparator admits an outcome of the comparison. -/
def admits : Comparator → Ordering → Bool
  | .lt, o => o == .lt
  | .le, o => o != .gt
  | .gt, o => o == .gt
  | .ge, o => o != .lt
  | .eq, o => o == .eq
  | .ne, o => o != .eq

theorem decide_relates (c : Comparator) {a b : α} {o : Ordering} (h : o.Compares a b) :
    decide (c.Relates a b) = c.admits o := by
  cases o with
  | lt =>
    have h : a < b := h
    cases c <;> simp [Relates, admits, h, h.le, h.ne, h.not_gt, h.not_ge]
  | eq =>
    obtain rfl : a = b := h
    cases c <;> simp [Relates, admits]
  | gt =>
    have h : b < a := h
    cases c <;> simp [Relates, admits, h, h.le, h.ne', h.not_gt, h.not_ge]

end Order

/-! ### The meaning of a comparison -/

/-- Places are related, and what has none is only different from everything. -/
def onPlaces (c : Comparator) : Option Line → Option Line → Bool
  | some p, some q => decide (c.Relates p q)
  | _, _ => c == .ne

/-- Things without an order are equal or not. -/
def unordered (c : Comparator) (equal : Bool) : Outcome Bool :=
  match c with
  | .eq => .ok equal
  | .ne => .ok !equal
  | _ => .error .typeMismatch

/-- Complex numbers are compared part by part. -/
def onNumbers (c : Comparator) (a b : Number) : Outcome Bool :=
  if a.isComplex || b.isComplex then
    c.unordered (Comparator.eq.onPlaces a.re.place? b.re.place? && Comparator.eq.onPlaces a.im.place? b.im.place?)
  else .ok (c.onPlaces a.place? b.place?)

mutual

/-- The truth of a comparison of two values. -/
def truth : Comparator → Value → Value → Outcome Bool
  | c, .text s, .text t => .ok (decide (c.Relates s.toList t.toList))
  | c, .list vs, .list ws => truths c vs ws
  | c, .null, .null => c.unordered true
  | c, v, w =>
    match v.number?, w.number? with
    | some a, some b => c.onNumbers a b
    | _, _ => c.unordered false

/-- The truth of a comparison of two lists. -/
def truths : Comparator → List Value → List Value → Outcome Bool
  | c, v :: vs, w :: ws => (truth .eq v w).bind fun equal => if equal then truths c vs ws else truth c v w
  | c, vs, ws => .ok (decide (c.Relates vs.length ws.length))

end

/-! ### What the operations carry out -/

variable {c : Comparator}

theorem onPlaces_eq (c : Comparator) (p q : Option Line) :
    c.onPlaces p q = ((Line.compare? p q).map c.admits).getD (c == .ne) := by
  rcases p with _ | p <;> rcases q with _ | q
  case some.some => exact c.decide_relates (cmp_compares p q)
  all_goals rfl

/-- What a comparison gives for values that are equal or not, and ordered or not. -/
def carriedOut (c : Comparator) (equal : Bool) (order : Outcome (Option Ordering)) : Outcome Bool :=
  match c with
  | .eq => .ok equal
  | .ne => .ok !equal
  | c => order.map fun o => (o.map c.admits).getD false

theorem apply_carriedOut (c : Comparator) (v w : Value) :
    c.operation.apply v w = (c.carriedOut (v.same w) (v.order w)).map .bool := by
  cases c with
  | eq | ne => rfl
  | _ =>
    show (v.order w).map _ = ((v.order w).map _).map _
    cases v.order w <;> rfl

theorem onNumbers_eq (c : Comparator) (a b : Number) : c.onNumbers a b = c.carriedOut (a.same b) (a.order b) := by
  have hequal : ∀ a b : Number, Comparator.eq.onPlaces a.place? b.place? = a.coincide b := fun a b => by
    rw [onPlaces_eq, Number.coincide]
    rcases Line.compare? a.place? b.place? with _ | _ | _ | _ <;> rfl
  cases hcomplex : a.isComplex || b.isComplex with
  | true =>
    rw [onNumbers, hcomplex, if_pos rfl, hequal, hequal, ← Number.same_eq, Number.order_of_complex hcomplex]
    cases c <;> rfl
  | false =>
    obtain ⟨ha, hb⟩ := Bool.or_eq_false_iff.mp hcomplex
    rw [onNumbers, hcomplex, if_neg Bool.false_ne_true, Number.order_eq ha hb, Number.same_of_real ha hb, Number.coincide,
      onPlaces_eq]
    rcases Line.compare? a.place? b.place? with _ | _ | _ | _ <;> cases c <;> rfl

theorem unordered_eq (c : Comparator) (equal : Bool) : c.unordered equal = c.carriedOut equal (.error .typeMismatch) := rfl

theorem compares_orderTexts (s t : String) : (Value.orderTexts s t).Compares s.toList t.toList := by
  unfold Value.orderTexts
  split
  · rename_i h
    exact String.lt_iff_toList_lt.mp h
  · rename_i h
    have hle : t.toList ≤ s.toList := not_lt.mp fun hlt => h (String.lt_iff_toList_lt.mpr hlt)
    split
    · rename_i heq
      exact congrArg String.toList (eq_of_beq heq)
    · rename_i hne
      exact lt_of_le_of_ne hle fun heq => hne (beq_iff_eq.mpr (String.toList_inj.mp heq.symm))

/-- Texts are compared as the lists of their characters are. -/
theorem relates_texts (c : Comparator) (s t : String) :
    .ok (decide (c.Relates s.toList t.toList)) = c.carriedOut (s == t) (.ok (some (Value.orderTexts s t))) := by
  have hcompares := compares_orderTexts s t
  have hsame : (s == t) = (Value.orderTexts s t == .eq) := by
    rw [Bool.eq_iff_iff, beq_iff_eq, beq_iff_eq, hcompares.eq_eq, String.toList_inj]
  rw [hsame, c.decide_relates hcompares]
  cases c <;> rfl

mutual

theorem truth_eq : ∀ (c : Comparator) (v w : Value), c.truth v w = c.carriedOut (v.same w) (v.order w)
  | c, v, w => by
    cases v with
    | null => cases w <;> exact c.unordered_eq _
    | text s =>
      cases w with
      | text t => exact c.relates_texts s t
      | _ => exact c.unordered_eq false
    | list vs =>
      cases w with
      | list ws => exact truths_eq c vs ws
      | _ => exact c.unordered_eq false
    | _ =>
      cases w with
      | null | text t | list ws => exact c.unordered_eq false
      | _ => exact c.onNumbers_eq _ _

theorem truths_eq : ∀ (c : Comparator) (vs ws : List Value),
    c.truths vs ws = c.carriedOut (Value.allSame vs ws) (Value.orderLists vs ws)
  | c, [], [] => by cases c <;> rfl
  | c, [], w :: ws => by cases c <;> rfl
  | c, v :: vs, [] => by cases c <;> rfl
  | c, v :: vs, w :: ws => by
    rw [truths, truth_eq .eq v w, Value.allSame, Value.orderLists]
    show (if v.same w = true then _ else _) = _
    cases hsame : v.same w with
    | true => exact truths_eq c vs ws
    | false => exact (truth_eq c v w).trans (by rw [hsame]; rfl)

end

/-- The operations of the comparators give the truth of the comparison. -/
theorem apply_eq_truth (c : Comparator) (v w : Value) : c.operation.apply v w = (c.truth v w).map .bool := by
  rw [apply_carriedOut, truth_eq]

/-- The truth of a comparison in a contraction: no operand may be too long to be written. -/
def checked (c : Comparator) (v w : Value) : Outcome Bool :=
  (c.truth v w).bind fun x => if v.isWritable && w.isWritable then .ok x else .error .longInteger

/-- A comparison as a contraction carries it out. -/
def contracted (c : Comparator) (v w : Value) : Outcome Value := (c.checked v w).map .bool

theorem contracted_eq (c : Comparator) (v w : Value) : c.operation.contracted v w = c.contracted v w := by
  have hbool : ∀ x, (Value.bool x).isWritable = true := fun _ => rfl
  rw [Operation.contracted, apply_eq_truth, contracted, checked]
  cases c.truth v w with
  | error f => rfl
  | ok x =>
    show (if _ then _ else _) = Except.map _ (if _ then _ else _)
    rw [hbool, Bool.and_true]
    split <;> rfl

theorem checked_of_truth {x : Bool} {v w : Value} (h : c.truth v w = .ok x) (hv : v.isWritable = true)
    (hw : w.isWritable = true) : c.checked v w = .ok x := by
  rw [checked, h, hv, hw]
  rfl

theorem contracted_of_truth {x : Bool} {v w : Value} (h : c.truth v w = .ok x) (hv : v.isWritable = true)
    (hw : w.isWritable = true) : c.contracted v w = .ok (.bool x) := by
  rw [contracted, checked_of_truth h hv hw]
  rfl

theorem isWritable_of_contracted {u v w : Value} (h : c.contracted v w = .ok u) : u.isWritable = true := by
  obtain ⟨x, -, rfl⟩ := Outcome.map_eq_ok h
  rfl

/-- Integers are compared as such. -/
theorem truth_ints (c : Comparator) (m n : Int) : c.truth (.int m) (.int n) = .ok (decide (c.Relates m n)) := by
  have hcompares : (cmp m n).Compares m n := cmp_compares m n
  have hplaces : Line.compare? (Number.int m).place? (Number.int n).place? = some (cmp m n) :=
    (Line.compare?_points ..).trans (congrArg some (Int.cast_strictMono.cmp_map_eq m n))
  rw [c.decide_relates hcompares]
  show Except.ok (c.onPlaces (Number.int m).place? (Number.int n).place?) = _
  rw [onPlaces_eq, hplaces]
  rfl

/-- A check can only add the failure on a long integer. -/
theorem checked_agree (c : Comparator) (v w : Value) :
    c.checked v w = .error .longInteger ∨ c.checked v w = c.truth v w := by
  rw [checked]
  cases c.truth v w with
  | error f => exact Or.inr rfl
  | ok x => exact (ite_eq_or_eq ..).symm

end Comparator
end Reckoner
