import Reckoner.Proofs.ClauseReduction

/-!
# Chains of comparisons

A chain of two or more comparisons has a truth value if it goes in one direction, and this is the conjunction of its
comparisons (`Engine.reduce_chained`). As an operand of a connective a chain is no unit: its first comparison alone is
combined with what stands in front, and the others are joined to the result (`Engine.reduce_connected`).
-/

namespace Reckoner
namespace Clause

/-! ### A chain by itself -/

def linkParts (links : List (Comparator × Figure)) : List Part := links.flatMap fun l => [.comparator l.1, .number l.2]

/-- A number and those it is compared with, one after the other. -/
def chain (a : Figure) (links : List (Comparator × Figure)) : List Part := .number a :: linkParts links

/-- All comparisons of a chain hold. -/
def allHold (a : Figure) : List (Comparator × Figure) → Bool
  | [] => true
  | (c, b) :: links => c.holds a b && allHold b links

/-- All comparators of a chain ascend, or all descend. -/
def IsDirected (cs : List Comparator) : Prop := (∀ c ∈ cs, c.isAscending = true) ∨ ∀ c ∈ cs, c.isDescending = true

instance (cs : List Comparator) : Decidable (IsDirected cs) := inferInstanceAs (Decidable (_ ∨ _))

section Directed
variable {p : Comparator → Bool}

theorem isChain_of_forall (hp : ∀ c d, p c = true → p d = true → c.continues d = true) : ∀ {cs : List Comparator},
    (∀ c ∈ cs, p c = true) → cs.IsChain fun c d => c.continues d = true
  | [], _ => .nil
  | [c], _ => .singleton c
  | c :: d :: cs, h => by
    obtain ⟨hc, htail⟩ := List.forall_mem_cons.mp h
    exact List.isChain_cons_cons.mpr ⟨hp c d hc (htail d (List.mem_cons_self ..)), isChain_of_forall hp htail⟩

theorem forall_of_isChain (hp : ∀ c d, c.continues d = true → p c = true → p d = true) : ∀ {cs : List Comparator}
    {c : Comparator}, ((c :: cs).IsChain fun c d => c.continues d = true) → p c = true → ∀ d ∈ c :: cs, p d = true
  | [], c, _, hc => fun d hd => List.mem_singleton.mp hd ▸ hc
  | d :: cs, c, h, hc => by
    obtain ⟨hgoes, htail⟩ := List.isChain_cons_cons.mp h
    exact List.forall_mem_cons.mpr ⟨hc, forall_of_isChain hp htail (hp c d hgoes hc)⟩

end Directed

/-- A chain goes on from comparator to comparator exactly if it goes in one direction. -/
theorem isChain_iff {c d : Comparator} {cs : List Comparator} :
    ((c :: d :: cs).IsChain fun c d => c.continues d = true) ↔ IsDirected (c :: d :: cs) := by
  constructor
  · intro h
    have hgoes := (List.isChain_cons_cons.mp h).1
    rcases Bool.or_eq_true_iff.mp hgoes with hboth | hboth
    · exact Or.inl (forall_of_isChain (fun _ _ => Comparator.isAscending_of_continues) h (Bool.and_eq_true_iff.mp hboth).1)
    · exact Or.inr (forall_of_isChain (fun _ _ => Comparator.isDescending_of_continues) h (Bool.and_eq_true_iff.mp hboth).1)
  · rintro (h | h)
    · exact isChain_of_forall (fun c d hc hd => by simp [Comparator.continues, hc, hd]) h
    · exact isChain_of_forall (fun c d hc hd => by simp [Comparator.continues, hc, hd]) h

theorem result_links : ∀ {links : List (Comparator × Figure)} {x : Bool} {a : Figure} {c : Comparator},
    ((Reading.compared x a c).run (linkParts links)).bind Reading.result =
      if (c :: links.map (·.1)).IsChain fun c d => c.continues d = true then some (x && allHold a links) else none
  | [], x, a, c => by simp [linkParts, allHold, Reading.run_nil, Reading.result]
  | (d, b) :: links, x, a, c => by
    have hparts : linkParts ((d, b) :: links) = .comparator d :: .number b :: linkParts links := rfl
    rw [hparts, Reading.run_cons, Reading.next]
    by_cases hgoes : c.continues d = true
    · rw [if_pos hgoes, Option.bind_some, Reading.run_cons, Reading.next, Option.bind_some, result_links]
      simp only [List.map_cons, List.isChain_cons_cons, hgoes, true_and, allHold, Connective.holds, Bool.and_assoc]
    · rw [if_neg hgoes]
      simp [hgoes]

section Chain
variable {links : List (Comparator × Figure)} (a : Figure) (hlen : 2 ≤ links.length)
include hlen

/-- A chain is read if it goes in one direction. -/
theorem value?_chain (h : IsDirected (links.map (·.1))) : value? (chain a links) = some (allHold a links) := by
  match links, hlen, h with
  | (c, b) :: (c', b') :: links, _, h => exact result_links.trans (if_pos (isChain_iff.mpr h))

theorem value?_chain_eq_none (h : ¬ IsDirected (links.map (·.1))) : value? (chain a links) = none := by
  match links, hlen, h with
  | (c, b) :: (c', b') :: links, _, h => exact result_links.trans (if_neg fun hchain => h (isChain_iff.mp hchain))

theorem length_chain : 2 ≤ (chain a links).length := by
  match links, hlen with
  | (c, b) :: (c', b') :: links, _ => simp [chain, linkParts]

end Chain

/-! ### Chains as operands -/

/-- What a connective joins: a truth value, a comparison, or a range. -/
inductive Operand where
  | truth (x : Bool)
  | comparison (a : Figure) (c : Comparator) (b : Figure)
  | range (a : Figure) (c : Comparator) (v : Figure) (d : Comparator) (b : Figure) (directed : c.continues d = true)

namespace Operand

def parts : Operand → List Part
  | .truth x => [.truth x]
  | .comparison a c b => [.number a, .comparator c, .number b]
  | .range a c v d b _ => [.number a, .comparator c, .number v, .comparator d, .number b]

theorem length_parts (o : Operand) : 0 < o.parts.length := by
  cases o <;> exact Nat.succ_pos _

def value : Operand → Bool
  | .truth x => x
  | .comparison a c b => c.holds a b
  | .range a c v d b _ => c.holds a v && d.holds v b

def isRange : Operand → Bool
  | .range .. => true
  | _ => false

/-- What becomes of the operand when the connective in front takes no more than its first comparison. -/
def takenUp (take : Bool → Bool) : Operand → Bool
  | .truth x => take x
  | .comparison a c b => take (c.holds a b)
  | .range a c v d b _ => take (c.holds a v) && d.holds v b

end Operand

/-- Operands with the connectives between them. -/
def connected (o : Operand) (rest : List (Connective × Operand)) : List Part :=
  o.parts ++ rest.flatMap fun l => .connective l.1 :: l.2.parts

/-- The operands combined from left to right. -/
def combined (x : Bool) (rest : List (Connective × Operand)) : Bool := rest.foldl (fun x l => l.1.holds x l.2.value) x

/-- The operands combined from left to right, the later comparison of a range behind everything in front of it. -/
def flattened (x : Bool) (rest : List (Connective × Operand)) : Bool := rest.foldl (fun x l => l.2.takenUp (l.1.holds x)) x

theorem connected_cons (o o' : Operand) (k : Connective) (rest : List (Connective × Operand)) :
    connected o ((k, o') :: rest) = o.parts ++ .connective k :: connected o' rest := by
  simp [connected]

/-- An operand is read like the truth value that it leaves, since no comparator follows it. -/
theorem result_parts (take : Bool → Bool) (o : Operand) {ps : List Part} (h : ∀ d qs, ps ≠ .comparator d :: qs) :
    ((Reading.operand take).run (o.parts ++ ps)).bind Reading.result =
      ((Reading.truth (o.takenUp take)).run ps).bind Reading.result := by
  cases o with
  | truth x => rfl
  | comparison a c b => exact Reading.result_compared fun d e qs hqs => absurd hqs (h d _)
  | range a c v d b hgoes =>
    rw [Reading.run_append]
    simp only [Operand.parts, Reading.run_cons, Reading.next, Option.bind_some, hgoes, if_true, Reading.run_nil]
    exact Reading.result_compared fun d e qs hqs => absurd hqs (h d _)

/-- Operands are read from left to right, and what a connective takes up of a range is its first comparison. -/
theorem result_connected : ∀ (rest : List (Connective × Operand)) (take : Bool → Bool) (o : Operand),
    ((Reading.operand take).run (connected o rest)).bind Reading.result = some (flattened (o.takenUp take) rest)
  | [], take, o => result_parts take o (by simp)
  | (k, o') :: rest, take, o => by
    rw [connected_cons, result_parts take o (by simp), Reading.run_cons, Reading.next, Option.bind_some, result_connected rest]
    rfl

theorem Operand.takenUp_id (o : Operand) : o.takenUp id = o.value := by
  cases o <;> rfl

theorem value?_connected (o : Operand) (rest : List (Connective × Operand)) :
    value? (connected o rest) = some (flattened o.value rest) := by
  rw [value?, result_connected, o.takenUp_id]

/-- Where no range stands directly behind an or, every operand counts as a whole. -/
theorem flattened_eq_combined : ∀ {rest : List (Connective × Operand)}, (∀ l ∈ rest, l.1 = .or → l.2.isRange = false) →
    ∀ x, flattened x rest = combined x rest
  | [], _, _ => rfl
  | (k, o) :: rest, h, x => by
    obtain ⟨hfirst, hrest⟩ := List.forall_mem_cons.mp h
    have htaken : o.takenUp (k.holds x) = k.holds x o.value := by
      cases o with
      | truth y => rfl
      | comparison a c b => rfl
      | range a c v d b hgoes =>
        cases k with
        | and => exact Bool.and_assoc ..
        | or => cases hfirst rfl
    calc flattened x ((k, o) :: rest) = flattened (o.takenUp (k.holds x)) rest := rfl
      _ = flattened (k.holds x o.value) rest := by rw [htaken]
      _ = combined (k.holds x o.value) rest := flattened_eq_combined hrest _
      _ = combined x ((k, o) :: rest) := rfl

end Clause

namespace Engine
open Clause
variable {e : Engine} {depth : Int}

/-- A chain of two or more comparisons reduces to their conjunction if it goes in one direction, and it gets stuck
    otherwise. -/
theorem reduce_chained (he : e.IsPlain) (hd : depth ≤ e.limit) (a : Figure) (links : List (Comparator × Figure))
    (hlen : 2 ≤ links.length) :
    let out := (e.reduce depth (stream (chain a links))).outcome
    (IsDirected (links.map (·.1)) → out = .ok ⟨.logical, .bool (allHold a links)⟩) ∧
      (¬ IsDirected (links.map (·.1)) → ∃ residue, out = .error (.noRuleMatched residue)) := by
  intro out
  have hconcludes : Concludes (chain a links) out := reduce_clauses he hd (length_chain a hlen)
  constructor
  · intro hdirected
    rwa [Concludes, value?_chain a hlen hdirected] at hconcludes
  · intro hdirected
    rwa [Concludes, value?_chain_eq_none a hlen hdirected] at hconcludes

/-- The chain `1 < 2 <= 3`, the chain `3 > 2 > 5`, of which one comparison is false, and `1 < 2 > 0`, which turns
    round. -/
theorem reduce_chained_digits :
    (Engine.reduce {} 0 (stream (chain (.digit 1) [(.lt, .digit 2), (.le, .digit 3)]))).outcome =
        .ok ⟨.logical, .bool true⟩ ∧
      (Engine.reduce {} 0 (stream (chain (.digit 3) [(.gt, .digit 2), (.gt, .digit 5)]))).outcome =
        .ok ⟨.logical, .bool false⟩ ∧
      ∃ residue, (Engine.reduce {} 0 (stream (chain (.digit 1) [(.lt, .digit 2), (.gt, .digit 0)]))).outcome =
        .error (.noRuleMatched residue) := by
  have hup : allHold (.digit 1) [(.lt, .digit 2), (.le, .digit 3)] = true := by
    simp only [allHold, Comparator.holds_digits]
    decide
  have hdown : allHold (.digit 3) [(.gt, .digit 2), (.gt, .digit 5)] = false := by
    simp only [allHold, Comparator.holds_digits]
    decide
  refine ⟨?_, ?_, ?_⟩
  · exact hup ▸ (@reduce_chained {} 0 ⟨rfl, rfl⟩ (by decide) (.digit 1) [(.lt, .digit 2), (.le, .digit 3)] (by decide)).1
      (by decide)
  · exact hdown ▸ (@reduce_chained {} 0 ⟨rfl, rfl⟩ (by decide) (.digit 3) [(.gt, .digit 2), (.gt, .digit 5)] (by decide)).1
      (by decide)
  · exact (@reduce_chained {} 0 ⟨rfl, rfl⟩ (by decide) (.digit 1) [(.lt, .digit 2), (.gt, .digit 0)] (by decide)).2
      (by decide)

/-- Operands that connectives join reduce to the truth value in which a connective takes up the first comparison of a
    range alone. So they are combined from left to right if no range stands directly behind an or. -/
theorem reduce_connected (he : e.IsPlain) (hd : depth ≤ e.limit) (o : Operand) (rest : List (Connective × Operand))
    (hrest : rest ≠ []) :
    let out := (e.reduce depth (stream (connected o rest))).outcome
    out = .ok ⟨.logical, .bool (flattened o.value rest)⟩ ∧
      ((∀ l ∈ rest, l.1 = .or → l.2.isRange = false) → out = .ok ⟨.logical, .bool (combined o.value rest)⟩) := by
  intro out
  have hlen : 2 ≤ (connected o rest).length := by
    obtain ⟨⟨k, o'⟩, rest, rfl⟩ := List.exists_cons_of_ne_nil hrest
    rw [connected_cons, List.length_append, List.length_cons]
    have ho := o.length_parts
    have ho' : 0 < (connected o' rest).length := by
      rw [connected, List.length_append]
      exact Nat.add_pos_left o'.length_parts _
    omega
  have hconcludes : Concludes (connected o rest) out := reduce_clauses he hd hlen
  rw [Concludes, value?_connected] at hconcludes
  refine ⟨hconcludes, fun h => ?_⟩
  rw [← flattened_eq_combined h]
  exact hconcludes

/-- In `1 < 2 < 3 or false and 3 > 2 > 1` both ranges count as a whole. -/
theorem reduce_connected_digits :
    (Engine.reduce {} 0 (stream (connected (.range (.digit 1) .lt (.digit 2) .lt (.digit 3) rfl)
      [(.or, .truth false), (.and, .range (.digit 3) .gt (.digit 2) .gt (.digit 1) rfl)]))).outcome =
      .ok ⟨.logical, .bool true⟩ :=
  (@reduce_connected {} 0 ⟨rfl, rfl⟩ (by decide) (.range (.digit 1) .lt (.digit 2) .lt (.digit 3) rfl)
    [(.or, .truth false), (.and, .range (.digit 3) .gt (.digit 2) .gt (.digit 1) rfl)] (by simp)).2 (by simp [Operand.isRange])

/-- In `true or 1 < 2 < 0` the comparison with zero is joined to `true or 1 < 2`, and not to `1 < 2`. -/
theorem reduce_connected_ne_combined :
    let range : Operand := .range (.digit 1) .lt (.digit 2) .lt (.digit 0) rfl
    combined true [(.or, range)] = true ∧
      (Engine.reduce {} 0 (stream (connected (.truth true) [(.or, range)]))).outcome = .ok ⟨.logical, .bool false⟩ := by
  intro range
  have hlen : 2 ≤ (connected (.truth true) [(.or, range)]).length := by decide
  have hconcludes := @reduce_clauses {} 0 ⟨rfl, rfl⟩ (by decide) _ hlen
  rw [Concludes, value?_connected] at hconcludes
  exact ⟨rfl, hconcludes⟩

end Engine
end Reckoner
