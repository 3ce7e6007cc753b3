import Reckoner.Message

/-!
# The log

What a run reports besides its result. An entry has a severity and a text, and the entry for a failure names
the failure as its cause. A logged computation may fail; its log up to there is kept. The log starts at the
steps of the work: what the calculator notes for debugging is not part of it.
-/

namespace Reckoner

/-! ### Severities -/

/-- How grave an entry is. -/
inductive Severity where
  | info
  | warning
  | error
  | critical
  deriving DecidableEq, Repr

namespace Severity

/-- The place of a severity in their order. -/
def rank : Severity → Nat
  | .info => 0
  | .warning => 1
  | .error => 2
  | .critical => 3

/-- The severity with a name. Two have a second name. -/
def ofName? : String → Option Severity
  | "INFO" => some .info
  | "WARN" | "WARNING" => some .warning
  | "ERROR" => some .error
  | "FATAL" | "CRITICAL" => some .critical
  | _ => none

/-- The name of a severity. -/
def name : Severity → String
  | .info => "INFO"
  | .warning => "WARNING"
  | .error => "ERROR"
  | .critical => "CRITICAL"

end Severity

/-! ### Entries -/

/-- An entry of the log. -/
structure LogEntry where
  severity : Severity
  /-- The text in front of the message of the cause. -/
  text : String
  /-- The failure that the entry is about. -/
  cause : Option Failure := none

/-- The whole text of an entry. -/
def LogEntry.message (e : LogEntry) : String := e.text ++ (e.cause.map Failure.message).getD ""

/-! ### Logged computations -/

/-- A result together with the log of how it came about. -/
structure Logged (α : Type) where
  log : List LogEntry
  outcome : Outcome α

namespace Logged

/-- A result without a log. -/
def ofOutcome {α : Type} (o : Outcome α) : Logged α := ⟨[], o⟩

/-- A failure. -/
def fail {α : Type} (f : Failure) : Logged α := ⟨[], .error f⟩

/-- An entry of the log. -/
def note (e : LogEntry) : Logged Unit := ⟨[e], .ok ()⟩

/-- A step of the work. -/
def info (text : String) : Logged Unit := note ⟨.info, text, none⟩

/-- A failure that does not end the work. -/
def error (text : String) (cause : Failure) : Logged Unit := note ⟨.error, text, some cause⟩

/-- A computation that goes on with the result of another. -/
def andThen {α β : Type} (x : Logged α) (f : α → Logged β) : Logged β :=
  match x.outcome with
  | .ok a => ⟨x.log ++ (f a).log, (f a).outcome⟩
  | .error e => ⟨x.log, .error e⟩

instance : Monad Logged where
  pure a := ⟨[], .ok a⟩
  bind := andThen

@[simp] theorem outcome_pure {α : Type} (a : α) : (pure a : Logged α).outcome = .ok a := rfl

@[simp] theorem outcome_ofOutcome {α : Type} (o : Outcome α) : (ofOutcome o).outcome = o := rfl

@[simp] theorem outcome_fail {α : Type} (f : Failure) : (fail f : Logged α).outcome = .error f := rfl

@[simp] theorem outcome_note (e : LogEntry) : (note e).outcome = .ok () := rfl

@[simp] theorem outcome_info (text : String) : (info text).outcome = .ok () := rfl

@[simp] theorem outcome_error (text : String) (f : Failure) : (error text f).outcome = .ok () := rfl

@[simp] theorem outcome_bind {α β : Type} (x : Logged α) (f : α → Logged β) :
    (x >>= f).outcome = x.outcome.bind fun a => (f a).outcome := by
  show (andThen x f).outcome = _
  unfold andThen
  cases x.outcome <;> rfl

/-- The entries of a log that are at least as grave as a threshold. -/
def above {α : Type} (threshold : Severity) (x : Logged α) : Logged α :=
  { x with log := x.log.filter fun e => decide (threshold.rank ≤ e.severity.rank) }

@[simp] theorem outcome_above {α : Type} (threshold : Severity) (x : Logged α) :
    (x.above threshold).outcome = x.outcome := rfl

end Logged
end Reckoner
