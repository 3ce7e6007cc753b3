/-!
# Steps in any order

A machine takes one of the steps that a state offers and goes on. If every step makes the state smaller, two steps lead
on to a common state and no step repairs a broken state, then it does not matter to the result which steps are taken
(`Joining.step_iff`).
-/

namespace Reckoner

variable {α : Type}

/-- Which of the steps of a state is taken first makes no difference to whether the state is `done`. -/
structure Joining (size : α → Nat) (good : α → Prop) (step : α → α → Prop) (broken done : α → Prop) : Prop where
  shrinks : ∀ {s a}, good s → step s a → good a ∧ size a < size s
  diamond : ∀ {s a b}, good s → step s a → step s b → a = b ∨ ∃ c, step a c ∧ step b c
  stays : ∀ {s a}, good s → broken s → step s a → broken a
  /-- The machine takes a step of its own choice, or it fails at what is broken. -/
  first : ∀ {s}, good s → broken s ∨ (∃ a, step s a) → broken s ∧ ¬ done s ∨ ∃ a, step s a ∧ (done s ↔ done a)

namespace Joining
variable {size : α → Nat} {good : α → Prop} {step : α → α → Prop} {broken done : α → Prop} {s a : α}

theorem not_done (h : Joining size good step broken done) (hs : good s) (hbroken : broken s) : ¬ done s := by
  induction hn : size s using Nat.strongRecOn generalizing s with
  | ind n ih =>
    rcases h.first hs (Or.inl hbroken) with ⟨-, hne⟩ | ⟨a, ha, hiff⟩
    · exact hne
    · -- If another step is taken first, the state is smaller and still broken.
      obtain ⟨hgood, hlt⟩ := h.shrinks hs ha
      rw [hiff]
      exact ih _ (hn ▸ hlt) hgood (h.stays hs hbroken ha) rfl

/-- Taking a step does not change the result. -/
theorem step_iff (h : Joining size good step broken done) (hs : good s) (ha : step s a) : done s ↔ done a := by
  induction hn : size s using Nat.strongRecOn generalizing s a with
  | ind n ih =>
    obtain ⟨hgood, hlt⟩ := h.shrinks hs ha
    rcases h.first hs (Or.inr ⟨a, ha⟩) with ⟨hbroken, hne⟩ | ⟨b, hb, hiff⟩
    · exact iff_of_false hne (h.not_done hgood (h.stays hs hbroken ha))
    · rw [hiff]
      -- The machine takes this very step, or both lead on to a common state.
      rcases h.diamond hs ha hb with rfl | ⟨c, hac, hbc⟩
      · rfl
      · obtain ⟨hgoodb, hltb⟩ := h.shrinks hs hb
        rw [ih _ (hn ▸ hltb) hgoodb hbc rfl, ih _ (hn ▸ hlt) hgood hac rfl]

end Joining
end Reckoner
