import Reckoner.Function

/-!
# Rules

A rule replaces what its pattern matches, by a built-in step or by a call of a user function. A table of
rules is searched from its top. The rules of user functions stand above all others, the latest on top; a
function that is registered again moves there.
-/

namespace Reckoner

/-- A built-in way to replace tokens. -/
inductive Step where
  /-- An operation on two operands. -/
  | apply
  | negate
  | powNegate
  | mulNegate
  | percentage
  /-- A range becomes two comparisons. -/
  | expandRange
  /-- A choice between two tokens. -/
  | choose
  | round
  /-- Rounding up or down to an integer. -/
  | roundInt
  | not
  | evaluateGroup
  deriving DecidableEq, Repr

namespace Step

/-- All steps. -/
def all : List Step :=
  [.apply, .negate, .powNegate, .mulNegate, .percentage, .expandRange, .choose, .round, .roundInt, .not,
   .evaluateGroup]

/-- The name of a step. -/
def name : Step → String
  | .apply => "apply"
  | .negate => "negate"
  | .powNegate => "pow_negate"
  | .mulNegate => "mul_negate"
  | .percentage => "percentage"
  | .expandRange => "expand_range"
  | .choose => "if"
  | .round => "round"
  | .roundInt => "round_int"
  | .not => "not"
  | .evaluateGroup => "evaluate_group"

/-- The step of a name. -/
def ofName? (s : String) : Option Step := all.find? (·.name == s)

end Step

/-- What a rule does with the tokens it matched. -/
inductive Action where
  | step (s : Step)
  | call (function : String)
  deriving DecidableEq, Repr

/-- A pattern and what is done with its matches. -/
structure Rule where
  pattern : Pattern
  action : Action

namespace Rule

/-- The standard rules, from the tightest to the loosest. -/
def standard : List Rule :=
  [⟨.choice, .step .choose⟩,
   ⟨.roundCall, .step .round⟩,
   ⟨.roundCallWithPlaces, .step .round⟩,
   ⟨.roundUpCall, .step .roundInt⟩,
   ⟨.roundDownCall, .step .roundInt⟩,
   ⟨.notCall, .step .not⟩,
   ⟨.group, .step .evaluateGroup⟩,
   ⟨.leadingNegation, .step .negate⟩,
   ⟨.power, .step .apply⟩,
   ⟨.powerNegated, .step .powNegate⟩,
   ⟨.remainder, .step .apply⟩,
   ⟨.product, .step .apply⟩,
   ⟨.productNegated, .step .mulNegate⟩,
   ⟨.sum, .step .apply⟩,
   ⟨.percentage, .step .percentage⟩,
   ⟨.negation, .step .negate⟩,
   ⟨.ascendingRange, .step .expandRange⟩,
   ⟨.descendingRange, .step .expandRange⟩,
   ⟨.numberComparison, .step .apply⟩,
   ⟨.textComparison, .step .apply⟩,
   ⟨.combination, .step .apply⟩]

/-- The first rule of a list that matches anywhere in a stream, with the position and the tokens it takes. -/
def firstMatch? : List Rule → Stream → Option (Rule × Nat × Stream)
  | [], _ => none
  | r :: rest, ts =>
    match r.pattern.find? ts with
    | some (position, taken) => some (r, position, taken)
    | none => firstMatch? rest ts

end Rule

/-- The functions, their rules from the latest on, and the other rules. -/
structure RuleTable where
  functions : Registry := {}
  functionRules : List Rule := []
  rules : List Rule := Rule.standard

namespace RuleTable

/-- All rules from the top. -/
def all (t : RuleTable) : List Rule := t.functionRules ++ t.rules

/-- The table with a function registered and its rule on top. Nothing changes if a shape of its signature is
    unknown. -/
def add (t : RuleTable) (f : UserFunction) : Outcome RuleTable := do
  let pattern ← f.pattern
  .ok { t with
    functions := t.functions.register f
    functionRules := ⟨pattern, .call f.name⟩ :: t.functionRules.filter fun r => r.action != .call f.name }

/-- A registration as the changes that are made one after the other: the function is put into the registry, the rule
    that it supersedes goes, and its own rule is put on top. The pattern is formed in front of them all. -/
def register (f : UserFunction) : ExceptT Failure (StateM RuleTable) UserFunction := do
  let pattern ← ExceptT.mk (pure f.pattern)
  modify fun t => { t with functions := t.functions.register f }
  modify fun t => { t with functionRules := t.functionRules.filter fun r => r.action != .call f.name }
  modify fun t => { t with functionRules := ⟨pattern, .call f.name⟩ :: t.functionRules }
  return f

/-- The function of a name in any letter case. -/
def lookup? (t : RuleTable) (name : String) : Option UserFunction := t.functions.lookup? name

/-- The names of the functions in the order of their first registration. -/
def functionNames (t : RuleTable) : List String := t.functions.names

/-- The number of rules. -/
def size (t : RuleTable) : Nat := t.functionRules.length + t.rules.length

/-- The rule at an index; a negative one counts from the end. -/
def ruleAt (t : RuleTable) (index : Int) : Outcome Rule :=
  let i := if index < 0 then t.size + index else index
  if i < 0 then .error .indexOutOfRange
  else match t.all[i.toNat]? with
    | some r => .ok r
    | none => .error .indexOutOfRange

end RuleTable
end Reckoner
