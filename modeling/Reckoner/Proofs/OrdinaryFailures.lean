import Reckoner.Operation
import Reckoner.Rounding

/-!
# Failures of operations on values

Operations on values, rounding and the filling of templates fail by the kinds and ranges of their operands
only (`Operation.isOfValue_apply`). They report no failure of the expression around them nor of lists, tables, settings
and files, they are never stopped, and they are given as many operands as they take.
-/

namespace Reckoner

/-- A failure that is neither one of the expression nor a stop of its reduction, nor one of the surroundings. -/
structure Failure.IsOrdinary (f : Failure) : Prop where
  not_expression : f.kind ≠ .expression
  not_endless : f.kind ≠ .endless
  not_outer : f.kind ∉ [.key, .index, .assertion, .missingFile]

instance (f : Failure) : Decidable f.IsOrdinary :=
  decidable_of_iff (f.kind ≠ .expression ∧ f.kind ≠ .endless ∧ f.kind ∉ [.key, .index, .assertion, .missingFile])
    ⟨fun ⟨hexpression, hendless, houter⟩ => ⟨hexpression, hendless, houter⟩,
      fun ⟨hexpression, hendless, houter⟩ => ⟨hexpression, hendless, houter⟩⟩

/-- A failure by the kind or the range of an operand. -/
def Failure.isOfValue : Failure → Bool
  | .typeMismatch | .invalidArgument | .longInteger | .divisionByZero | .overflow => true
  | _ => false

theorem Failure.isOrdinary_of_isOfValue {f : Failure} (h : f.isOfValue = true) : f.IsOrdinary := by
  cases f <;> first | decide | cases h

namespace Outcome
variable {α β : Type} {o : Outcome α}

/-- The outcome is no failure but an ordinary one. -/
def IsOrdinary (o : Outcome α) : Prop := ∀ f, o = .error f → f.IsOrdinary

/-- The outcome is no failure but one by the kind or the range of an operand. -/
def IsOfValue (o : Outcome α) : Prop := ∀ f, o = .error f → f.isOfValue = true

theorem IsOfValue.isOrdinary (h : o.IsOfValue) : o.IsOrdinary := fun f hf => Failure.isOrdinary_of_isOfValue (h f hf)

@[simp] theorem isOfValue_ok (a : α) : IsOfValue (.ok a) := fun _ h => by cases h

theorem isOfValue_error {f : Failure} (h : f.isOfValue = true) : IsOfValue (.error f : Outcome α) := fun _ hf => by
  rw [← Except.error.inj hf]
  exact h

@[simp] theorem isOfValue_typeMismatch : IsOfValue (.error .typeMismatch : Outcome α) := isOfValue_error rfl

@[simp] theorem isOfValue_invalidArgument : IsOfValue (.error .invalidArgument : Outcome α) := isOfValue_error rfl

@[simp] theorem isOfValue_longInteger : IsOfValue (.error .longInteger : Outcome α) := isOfValue_error rfl

@[simp] theorem isOfValue_divisionByZero : IsOfValue (.error .divisionByZero : Outcome α) := isOfValue_error rfl

@[simp] theorem isOfValue_overflow : IsOfValue (.error .overflow : Outcome α) := isOfValue_error rfl

theorem IsOfValue.bind {g : α → Outcome β} (h : o.IsOfValue) (hg : ∀ a, (g a).IsOfValue) : IsOfValue (o >>= g) := by
  cases o with
  | error f => exact isOfValue_error (h f rfl)
  | ok a => exact hg a

theorem IsOfValue.map {g : α → β} (h : o.IsOfValue) : IsOfValue (o.map g) := by
  cases o with
  | error f => exact isOfValue_error (h f rfl)
  | ok a => exact isOfValue_ok _

end Outcome

open Outcome

/-! ### Numbers -/

namespace Number
variable (a b : Number)

theorem isOfValue_realOfInt (n : Int) : (realOfInt n).IsOfValue := by
  unfold realOfInt
  split <;> simp

theorem isOfValue_toComplex : a.toComplex.IsOfValue := by
  cases a with
  | int n => exact (isOfValue_realOfInt n).map
  | real x => exact isOfValue_ok _
  | complex z => exact isOfValue_ok _

theorem isOfValue_combine {α : Type} {onInts : Int → Int → Outcome α} {onReals : Float → Float → Outcome α}
    {onComplexes : ComplexFloat → ComplexFloat → Outcome α} (hi : ∀ m n, (onInts m n).IsOfValue)
    (hr : ∀ x y, (onReals x y).IsOfValue) (hc : ∀ z w, (onComplexes z w).IsOfValue) :
    (combine onInts onReals onComplexes a b).IsOfValue := by
  have complexes : ∀ a b : Number, Outcome.IsOfValue (do onComplexes (← a.toComplex) (← b.toComplex)) := fun a b =>
    (isOfValue_toComplex a).bind fun z => (isOfValue_toComplex b).bind fun w => hc z w
  unfold combine
  split
  · exact hi _ _
  · exact (isOfValue_realOfInt _).bind fun x => hr x _
  · exact (isOfValue_realOfInt _).bind fun y => hr _ y
  · exact hr _ _
  · exact complexes _ _

theorem isOfValue_add : (a.add b).IsOfValue :=
  isOfValue_combine a b (by simp) (by simp) (by simp)

theorem isOfValue_sub : (a.sub b).IsOfValue :=
  isOfValue_combine a b (by simp) (by simp) (by simp)

theorem isOfValue_mul : (a.mul b).IsOfValue :=
  isOfValue_combine a b (by simp) (by simp) (by simp)

theorem isOfValue_quotient (m n : Int) : (quotient m n).IsOfValue := by
  unfold quotient
  split
  · simp
  · split <;> simp

theorem isOfValue_div : (a.div b).IsOfValue := by
  refine isOfValue_combine a b (fun m n => (isOfValue_quotient m n).map) (fun x y => ?_) fun z w => ?_
  · split <;> simp
  · split <;> simp

theorem isOfValue_mod : (a.mod b).IsOfValue := by
  unfold mod
  split
  · simp
  · simp
  · refine isOfValue_combine _ _ (fun m n => ?_) (fun x y => ?_) fun _ _ => by simp
    · split <;> simp
    · split <;> simp

theorem isOfValue_complexPow (z w : ComplexFloat) : (complexPow z w).IsOfValue := by
  unfold complexPow
  split
  · simp
  · split <;> simp

theorem isOfValue_positivePow (negative : Bool) (x y : Float) : (positivePow negative x y).IsOfValue := by
  unfold positivePow
  dsimp only
  split <;> simp

theorem isOfValue_finitePow (x y : Float) : (finitePow x y).IsOfValue := by
  unfold finitePow
  split
  · split
    · exact isOfValue_complexPow _ _
    · dsimp only
      split
      · simp
      · exact isOfValue_positivePow _ _ _
  · split
    · simp
    · exact isOfValue_positivePow _ _ _

theorem isOfValue_realPow (x y : Float) : (realPow x y).IsOfValue := by
  unfold realPow
  repeat' split
  all_goals first | exact isOfValue_finitePow _ _ | simp

theorem isOfValue_intPow (m n : Int) : (intPow m n).IsOfValue := by
  unfold intPow
  split
  · simp
  · exact (isOfValue_realOfInt m).bind fun x => (isOfValue_realOfInt n).bind fun y => isOfValue_realPow x y

theorem isOfValue_pow : (a.pow b).IsOfValue :=
  isOfValue_combine a b isOfValue_intPow isOfValue_realPow isOfValue_complexPow

theorem isOfValue_order : (a.order b).IsOfValue := by
  unfold order
  split <;> simp

end Number

/-! ### Templates -/

namespace Value
variable (v w : Value)

theorem isOfValue_wholePart : v.wholePart.IsOfValue := by
  unfold wholePart
  repeat' split
  all_goals simp

theorem isOfValue_realPart : v.realPart.IsOfValue := by
  unfold realPart
  repeat' split
  all_goals first | exact Number.isOfValue_realOfInt _ | simp

theorem isOfValue_written (text : String) : (v.written text).IsOfValue := by
  unfold written
  split <;> simp

theorem isOfValue_integral (precision : Option Nat) (negative : Bool) (base digits : List Char) :
    (integral precision negative base digits).IsOfValue := by
  unfold integral
  dsimp only
  split <;> simp

theorem isOfValue_decimal (precision : Option Nat) : (v.decimal precision).IsOfValue :=
  v.isOfValue_wholePart.bind fun _ => (isOfValue_written _ _).bind fun _ => isOfValue_integral _ _ _ _

theorem isOfValue_toBase (base : Nat) (mark : List Char) (precision : Option Nat) :
    (v.toBase base mark precision).IsOfValue := by
  unfold toBase
  split
  · exact isOfValue_integral _ _ _ _
  · simp

theorem isOfValue_floating (write : Float → List Char) : (v.floating write).IsOfValue :=
  v.isOfValue_realPart.bind fun _ => isOfValue_ok _

theorem isOfValue_character : v.character.IsOfValue := by
  unfold character
  repeat' split
  all_goals simp

theorem isOfValue_byLetter (alternate : Bool) (precision : Option Nat) (letter : Char) :
    (v.byLetter alternate precision letter).IsOfValue := by
  unfold byLetter
  dsimp only
  split
  all_goals first
    | exact (isOfValue_written _ _).map
    | exact isOfValue_decimal _ _
    | exact (isOfValue_toBase _ _ _ _).map
    | exact isOfValue_toBase _ _ _ _
    | exact (isOfValue_floating _ _).map
    | exact isOfValue_floating _ _
    | exact isOfValue_character _
    | simp

theorem isOfValue_resolve (limit : Nat) (used : Bool) (amount : Option Amount) :
    (v.resolve limit used amount).IsOfValue := by
  unfold resolve
  repeat' split
  all_goals simp

theorem isOfValue_lookUp (key : DirectiveKey) : (v.lookUp key).IsOfValue := by
  unfold lookUp
  repeat' split
  all_goals simp

theorem isOfValue_fillDirective (used : Bool) (d : Directive) : (v.fillDirective used d).IsOfValue := by
  refine (v.isOfValue_lookUp _).bind fun _ => (v.isOfValue_resolve _ _ _).bind fun _ =>
    (v.isOfValue_resolve _ _ _).bind fun _ => ?_
  dsimp only
  cases d.letter with
  | none => simp
  | some letter =>
    dsimp only
    split
    · simp
    · exact (v.isOfValue_byLetter _ _ _).bind fun _ => isOfValue_ok _

theorem isOfValue_fillParts : ∀ (used : Bool) (parts : List TemplatePart), (v.fillParts used parts).IsOfValue
  | _, [] => isOfValue_ok _
  | used, .text _ :: rest => (isOfValue_fillParts used rest).bind fun _ => isOfValue_ok _
  | used, .directive d :: rest => (v.isOfValue_fillDirective used d).bind fun p =>
    (isOfValue_fillParts p.2 rest).bind fun _ => isOfValue_ok _

theorem isOfValue_fill (template : List Char) : (fill template v).IsOfValue := by
  refine (v.isOfValue_fillParts _ _).bind fun _ => ?_
  dsimp only
  split <;> simp

/-! ### Values -/

theorem isOfValue_onNumbers {op : Number → Number → Outcome Number} (h : ∀ a b, (op a b).IsOfValue) :
    (onNumbers op v w).IsOfValue := by
  unfold onNumbers
  split
  · exact (h _ _).map
  · simp

theorem isOfValue_add : (v.add w).IsOfValue := by
  unfold add
  split
  · simp
  · simp
  · exact isOfValue_onNumbers _ _ Number.isOfValue_add

theorem isOfValue_sub : (v.sub w).IsOfValue := isOfValue_onNumbers v w Number.isOfValue_sub

theorem isOfValue_repetitions (length : Nat) (n : Int) : (repetitions length n).IsOfValue := by
  unfold repetitions
  split <;> simp

theorem isOfValue_repeated? {n : Int} {o : Outcome Value} (h : v.repeated? n = some o) : o.IsOfValue := by
  unfold repeated? at h
  split at h
  · rw [← Option.some.inj h]
    exact (isOfValue_repetitions _ _).map
  · rw [← Option.some.inj h]
    exact (isOfValue_repetitions _ _).map
  · cases h

theorem isOfValue_mul : (v.mul w).IsOfValue := by
  have total := isOfValue_onNumbers v w Number.isOfValue_mul
  have either : ∀ {u : Value} {n : Int}, ((u.repeated? n).getD (onNumbers Number.mul v w)).IsOfValue := by
    intro u n
    cases h : u.repeated? n with
    | none => exact total
    | some o => exact u.isOfValue_repeated? h
  unfold mul
  dsimp only
  split
  · exact either
  · exact either
  · exact total

theorem isOrdinary_mul : (v.mul w).IsOrdinary := (v.isOfValue_mul w).isOrdinary

theorem isOfValue_div : (v.div w).IsOfValue := isOfValue_onNumbers v w Number.isOfValue_div

theorem isOfValue_pow : (v.pow w).IsOfValue := isOfValue_onNumbers v w Number.isOfValue_pow

theorem isOfValue_mod : (v.mod w).IsOfValue := by
  unfold mod
  split
  · exact isOfValue_fill _ _
  · exact isOfValue_onNumbers _ _ Number.isOfValue_mod

mutual

theorem isOfValue_order (v w : Value) : (v.order w).IsOfValue := by
  unfold order
  split
  · simp
  · exact isOfValue_orderLists _ _
  · split
    · exact Number.isOfValue_order _ _
    · simp

theorem isOfValue_orderLists (xs ys : List Value) : (orderLists xs ys).IsOfValue := by
  unfold orderLists
  split
  · simp
  · simp
  · simp
  · split
    · exact isOfValue_orderLists _ _
    · exact isOfValue_order _ _

end

end Value

/-! ### Operations and rounding -/

namespace Operation

theorem isOfValue_apply (op : Operation) (v w : Value) : (op.apply v w).IsOfValue := by
  have comparison : ∀ holds : Ordering → Bool, (comparison holds v w).IsOfValue := fun _ =>
    (v.isOfValue_order w).map
  cases op with
  | add => exact v.isOfValue_add w
  | subtract => exact v.isOfValue_sub w
  | multiply => exact v.isOfValue_mul w
  | divide =>
    show (quotient v w).IsOfValue
    unfold quotient
    split
    · split
      · simp
      · exact v.isOfValue_div w
    · exact v.isOfValue_div w
  | mod => exact v.isOfValue_mod w
  | pow => exact v.isOfValue_pow w
  | eq | ne | and | or => exact isOfValue_ok _
  | lt | le | gt | ge => exact comparison _

end Operation

namespace Rounding
variable (v w : Value)

theorem isOfValue_places : (places v).IsOfValue := by
  unfold places
  split
  · split <;> simp
  · exact Value.isOfValue_wholePart _

theorem isOfValue_scaleTo (p : Int) : (scaleTo p).IsOfValue := by
  refine (Number.isOfValue_realOfInt p).bind fun y => (Number.isOfValue_realPow 10 y).bind fun x => ?_
  split <;> simp

theorem isOfValue_reaches : (reaches v w).IsOfValue := (v.isOfValue_order w).map

theorem isOfValue_rescale (x y : Float) : (rescale x y v).IsOfValue := (isOfValue_reaches _ _).map

theorem isOfValue_rescaleInt (n : Int) (x : Float) : (rescaleInt n x v).IsOfValue :=
  (isOfValue_reaches _ _).bind fun _ => (Number.isOfValue_realOfInt n).bind fun _ => isOfValue_ok _

theorem isOfValue_toPlaces (u : Value) : (toPlaces u v w).IsOfValue := by
  refine (isOfValue_places v).bind fun p => (isOfValue_scaleTo p).bind fun scale => ?_
  dsimp only
  split
  · split
    · simp
    · split
      · simp
      · refine isOfValue_error ?_
        unfold ofList
        dsimp only
        repeat' split
        all_goals decide
  · refine (Value.isOfValue_mul _ _).bind fun scaled => ?_
    split
    · exact isOfValue_rescaleInt _ _ _
    · exact isOfValue_rescale _ _ _
    · simp

theorem isOfValue_up : (up v).IsOfValue := by
  unfold up
  repeat' split
  all_goals simp

theorem isOfValue_down : (down v).IsOfValue := by
  unfold down
  repeat' split
  all_goals simp

end Rounding
end Reckoner
