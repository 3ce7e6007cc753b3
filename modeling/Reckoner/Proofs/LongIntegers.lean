import Reckoner.Stream

/-!
# Integers that are too long

An integer with more digits than the limit has no text, and neither has a list that holds one (`Value.HoldsLong`). All
other values have a text, and a stream has one exactly if no token of it holds an integer that is too long.
-/

namespace Reckoner

namespace Value

/-- The value is an integer of more digits than may be written, or a list that holds one at any depth. -/
inductive HoldsLong : Value → Prop where
  | int {n : Int} : Reading.digitLimit < (Nat.toDigits 10 n.natAbs).length → HoldsLong (.int n)
  | list {items : List Value} {v : Value} : v ∈ items → HoldsLong v → HoldsLong (.list items)

theorem isShortInt_iff {n : Int} : isShortInt n = true ↔ (Nat.toDigits 10 n.natAbs).length ≤ Reading.digitLimit := by
  have hlimit : 0 < Reading.digitLimit := by decide
  rw [isShortInt, decide_eq_true_iff]
  -- The power of ten stays as it is if the limit is any number.
  generalize Reading.digitLimit = limit at hlimit ⊢
  exact (Nat.length_toDigits_le_iff (by decide) hlimit).symm

theorem allWritable_iff : ∀ {vs : List Value}, allWritable vs = true ↔ ∀ v ∈ vs, v.isWritable = true
  | [] => by simp [allWritable]
  | v :: vs => by rw [allWritable, Bool.and_eq_true, allWritable_iff, List.forall_mem_cons]

theorem isWritable_iff : ∀ v : Value, v.isWritable = true ↔ ¬ v.HoldsLong
  | .int n => by
    rw [isWritable, isShortInt_iff, ← Nat.not_lt]
    exact not_congr ⟨.int, fun h => by cases h; assumption⟩
  | .list items => by
    rw [isWritable, allWritable_iff]
    constructor
    · rintro h (_ | ⟨hv, hlong⟩)
      exact (isWritable_iff _).mp (h _ hv) hlong
    · exact fun h v hv => (isWritable_iff v).mpr fun hlong => h (.list hv hlong)
  | .null | .bool _ | .real _ | .complex _ | .text _ => iff_of_true rfl nofun

end Value

theorem Stream.isWritable_iff {ts : Stream} : ts.isWritable = true ↔ ∀ t ∈ ts, ¬ t.value.HoldsLong := by
  simp only [Stream.isWritable, List.all_eq_true, Value.isWritable_iff]

end Reckoner
