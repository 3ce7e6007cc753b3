import Reckoner.Stream
import Reckoner.Failure

/-!
# Messages of failures

Every failure has a message for people. Those of expressions, bindings, signatures and settings have a fixed
wording.
-/

namespace Reckoner.Failure

/-- The message of a refused setting. -/
def refusal : RefusedSetting → String
  | .nestingLimit => "max_nesting_depth 必须为正数"
  | .halfThreshold => "half_threshold 必须在 (0, 1) 之间"
  | .defaultPlaces => "default_places 不能为负"
  | .logLevel => "未知日志级别"

/-- The ten characters of a text from a position on, in quotes. -/
def excerpt (text : String) (position : Nat) : String :=
  String.ofList (Text.quoted ((text.toList.drop position).take 10))

/-- The message of a failure. -/
def message : Failure → String
  | .noRuleMatched residue => "no rule matched \x7b\x7b" ++ Stream.describe residue ++ "\x7d\x7d"
  | .unknownOperator name => "unknown operation " ++ name.display
  | .unknownFunction name => "unknown function '" ++ name ++ "'"
  | .tooDeeplyNested depth limit =>
    "expression too deeply nested (depth " ++ Notation.integer depth ++ " exceeds limit " ++
      Notation.integer limit ++ ")"
  | .unreadable text position =>
    "cannot tokenize at " ++ Notation.integer position ++ ": " ++ excerpt text position
  | .unboundVariables names => "no value provided for variables: " ++ String.intercalate ", " names
  | .typeMismatch => "unsupported kind of operand"
  | .argumentCount => "wrong number of arguments"
  | .unsupportedBinding kind => "Unsupported value type for binding: " ++ kind
  | .invalidArgument => "invalid argument"
  | .callForm => "malformed call"
  | .longInteger => "integer too long for text"
  | .unknownShape name => "unknown signature shape: " ++ String.ofList (Text.quoted name.toList)
  | .malformedBinding text => "Invalid binding '" ++ text ++ "', expected name=value"
  | .emptyData => "no columns in the data"
  | .malformedTable => "malformed table of data"
  | .divisionByZero => "division by zero"
  | .overflow => "result out of range"
  | .missingEntry name => "no entry " ++ String.ofList (Text.quoted name.toList)
  | .indexOutOfRange => "index out of range"
  | .refusedSetting s => refusal s
  | .missingFile path => "no such file: " ++ path
  | .endless => "reduction stopped"

/-- The wording of the message is part of what the calculator promises. -/
def hasFixedWording : Failure → Bool
  | .unsupportedBinding _ | .unknownShape _ | .malformedBinding _ | .refusedSetting _ => true
  | f => f.isExpression

end Reckoner.Failure
