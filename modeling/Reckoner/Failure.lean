import Reckoner.Token

/-!
# Failures

Why an operation has no result. The first group are failures of an expression, which carry what they are
about; the second group are failures of the operations on values, of bindings and of the surroundings.
-/

namespace Reckoner

/-- A setting that a check of the settings refuses. -/
inductive RefusedSetting where
  | nestingLimit
  | halfThreshold
  | defaultPlaces
  | logLevel
  deriving DecidableEq, Repr

/-- The cause of a failure. -/
inductive Failure where
  /-- More than one token is left and no rule matches them. -/
  | noRuleMatched (residue : List Token)
  /-- The value names no operation on two operands. -/
  | unknownOperator (name : Value)
  /-- No function is registered under the name. -/
  | unknownFunction (name : String)
  /-- The depth of a nested reduction exceeds its limit. -/
  | tooDeeplyNested (depth limit : Int)
  /-- No token starts at the position of the text. -/
  | unreadable (text : String) (position : Nat)
  /-- The variables have no value. -/
  | unboundVariables (names : List String)
  /-- An operand or argument is of a kind that the operation does not take. -/
  | typeMismatch
  /-- A step, function or operation was given another number of arguments than it takes. -/
  | argumentCount
  /-- A value of this kind cannot be bound to a variable. -/
  | unsupportedBinding (kind : String)
  /-- An argument is of the right kind but has no result. -/
  | invalidArgument
  /-- A call was given a number of tokens that does not fit its form. -/
  | callForm
  /-- An integer has more digits than are read or written. -/
  | longInteger
  /-- A signature names no matcher. -/
  | unknownShape (name : String)
  /-- A binding is not of the form `name=value`. -/
  | malformedBinding (text : String)
  /-- A table of data has no columns. -/
  | emptyData
  /-- The text of a table of data is not well formed. -/
  | malformedTable
  | divisionByZero
  /-- A float, or a number of repetitions, is out of range. -/
  | overflow
  /-- A table has no entry under the name. -/
  | missingEntry (name : String)
  /-- An index lies outside its list. -/
  | indexOutOfRange
  /-- A setting is out of its range. -/
  | refusedSetting (setting : RefusedSetting)
  /-- A file does not exist. -/
  | missingFile (path : String)
  /-- A reduction was stopped because it made more contractions than it was allowed. -/
  | endless

/-- The families of failures that callers tell apart. -/
inductive FailureKind where
  | expression
  | type
  | value
  | zeroDivision
  | overflow
  | key
  | index
  | assertion
  | missingFile
  | endless
  deriving DecidableEq, Repr

namespace Failure

/-- The family of a failure. -/
def kind : Failure → FailureKind
  | .noRuleMatched _ | .unknownOperator _ | .unknownFunction _ | .tooDeeplyNested _ _ | .unreadable _ _
  | .unboundVariables _ => .expression
  | .typeMismatch | .argumentCount | .unsupportedBinding _ => .type
  | .invalidArgument | .callForm | .longInteger | .unknownShape _ | .malformedBinding _ | .emptyData
  | .malformedTable => .value
  | .divisionByZero => .zeroDivision
  | .overflow => .overflow
  | .missingEntry _ => .key
  | .indexOutOfRange => .index
  | .refusedSetting _ => .assertion
  | .missingFile _ => .missingFile
  | .endless => .endless

/-- A failure of the expression itself. -/
def isExpression (f : Failure) : Bool := f.kind == .expression

/-- A division by zero or an overflow. -/
def isArithmetic (f : Failure) : Bool := f.kind == .zeroDivision || f.kind == .overflow

end Failure

/-- The result of an operation that can fail. -/
abbrev Outcome (α : Type) := Except Failure α

end Reckoner
