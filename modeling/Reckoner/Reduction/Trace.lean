import Reckoner.Rule

/-!
# Traces

A reduction reports what it does: that a contraction begins, and the contraction itself when it is completed. The
contractions of a nested reduction are completed before the one that issued it. The outcome of a traced
computation does not depend on the report, and the report of a sequence is that of its parts one after the
other.
-/

namespace Reckoner

/-- A completed contraction: what was done, at which depth, to which span, and the stream afterwards. -/
structure Contraction where
  action : Action
  depth : Int
  start : Nat
  length : Nat
  stream : Stream

/-- An entry of a report. -/
inductive Event where
  | begun
  | done (r : Contraction)

/-- A result together with the report of how it came about. -/
structure Traced (α : Type) where
  events : List Event
  outcome : Outcome α

namespace Traced

/-- A result without a report. -/
def ofOutcome {α : Type} (o : Outcome α) : Traced α := ⟨[], o⟩

/-- A failure. -/
def fail {α : Type} (f : Failure) : Traced α := ⟨[], .error f⟩

/-- The report of one event. -/
def report (e : Event) : Traced Unit := ⟨[e], .ok ()⟩

/-- A computation that goes on with the result of another. -/
def andThen {α β : Type} (x : Traced α) (f : α → Traced β) : Traced β :=
  match x.outcome with
  | .ok a => ⟨x.events ++ (f a).events, (f a).outcome⟩
  | .error e => ⟨x.events, .error e⟩

instance : Monad Traced where
  pure a := ⟨[], .ok a⟩
  bind := andThen

@[simp] theorem outcome_pure {α : Type} (a : α) : (pure a : Traced α).outcome = .ok a := rfl

@[simp] theorem outcome_ofOutcome {α : Type} (o : Outcome α) : (ofOutcome o).outcome = o := rfl

@[simp] theorem outcome_fail {α : Type} (f : Failure) : (fail f : Traced α).outcome = .error f := rfl

@[simp] theorem outcome_report (e : Event) : (report e).outcome = .ok () := rfl

@[simp] theorem outcome_bind {α β : Type} (x : Traced α) (f : α → Traced β) :
    (x >>= f).outcome = x.outcome.bind fun a => (f a).outcome := by
  show (andThen x f).outcome = _
  unfold andThen
  cases x.outcome <;> rfl

/-- The completed contractions among events. -/
def contractionsOf : List Event → List Contraction
  | [] => []
  | .begun :: rest => contractionsOf rest
  | .done r :: rest => r :: contractionsOf rest

/-- The completed contractions, in the order of their completion. -/
def contractions {α : Type} (x : Traced α) : List Contraction := contractionsOf x.events

/-- The events up to where a contraction begins after the allowed number of them was completed, if one does. -/
def upTo? (allowed : Nat) : List Event → Option (List Event)
  | [] => none
  | .begun :: rest => if allowed = 0 then some [] else (upTo? allowed rest).map (.begun :: ·)
  | .done r :: rest => (upTo? (allowed - 1) rest).map (.done r :: ·)

/-- The computation stopped where a contraction begins after the allowed number of them was completed. -/
def stopAfter {α : Type} (allowed : Nat) (x : Traced α) : Traced α :=
  match upTo? allowed x.events with
  | some events => ⟨events, .error .endless⟩
  | none => x

end Traced
end Reckoner
