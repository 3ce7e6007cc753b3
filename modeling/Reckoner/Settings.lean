import Reckoner.Value.Order

/-!
# Settings

The parameters of the calculator that are not given with an expression: limits of the reduction, rounding,
letter case, and the defaults of the command line.
-/

namespace Reckoner

/-- The settings. -/
structure Settings where
  /-- The greatest depth of nested reductions. -/
  nestingLimit : Int := 64
  /-- The value of an expression without tokens. -/
  emptyValue : Value := .int 0
  /-- The decimal places of `round` if it is not given any. -/
  defaultPlaces : Value := .int 0
  /-- The least part behind the point that `round` rounds up. -/
  halfThreshold : Value := .real 0.5
  /-- Whether keywords, functions and variables are told apart by letter case. -/
  caseSensitive : Bool := false
  /-- The column that takes the results of a table of data. -/
  resultColumn : String := "result"
  logLevel : String := "INFO"

namespace Settings

/-- The names of log levels that a setting may have. -/
def logLevels : List String := ["DEBUG", "INFO", "WARNING", "ERROR"]

/-- A condition on a setting. -/
def require (setting : RefusedSetting) (holds : Bool) : Outcome Unit :=
  if holds then .ok () else .error (.refusedSetting setting)

/-- The settings are in their ranges: a positive limit, a threshold between zero and one, no negative number
    of places, and a log level with a name. -/
def check (s : Settings) : Outcome Unit := do
  require .nestingLimit (decide (0 < s.nestingLimit))
  let aboveZero ← Value.order (.int 0) s.halfThreshold
  require .halfThreshold (aboveZero == some .lt)
  let belowOne ← s.halfThreshold.order (.int 1)
  require .halfThreshold (belowOne == some .lt)
  let places ← s.defaultPlaces.order (.int 0)
  require .defaultPlaces (places == some .gt || places == some .eq)
  require .logLevel (logLevels.contains s.logLevel)

/-- What the check reports if nothing is refused. -/
def approval : String := "Configuration validated successfully!"

end Settings
end Reckoner
