import Reckoner.Calculator.Bindings
import Reckoner.Reduction.Engine
import Reckoner.Tokenizer.Tokenize

/-!
# The calculator

A calculator holds a table of rules and a memory of variables. It evaluates a text by reading its tokens,
replacing variables by their values and reducing the stream. Values given with an expression take precedence
over the memory, and unless letter case counts, names are compared in lower case.

The reader of texts knows the names of the functions. It is made when it is first needed and kept from then on,
until a function is registered.
-/

namespace Reckoner

/-- A table of rules, a memory, and the parameters of reading and reducing. -/
structure Calculator where
  table : RuleTable := {}
  settings : Settings := {}
  limit : Int := 64
  /-- The greatest number of contractions of a level, if it is not left to the length of the stream. -/
  rounds : Option Nat := none
  caseSensitive : Bool := false
  memory : Bindings := []
  /-- The reader of texts, if one has been made since the last function was registered. -/
  reader : Option Lexicon := none

/-- The token that stands for a value. Absent values and lists have none. -/
def Token.ofValue (v : Value) : Outcome Token :=
  match v with
  | .bool _ => .ok ⟨.logical, v⟩
  | .text _ => .ok ⟨.string, v⟩
  | v => if v.isNumber then .ok ⟨.numeric, v⟩ else .error (.unsupportedBinding v.kindName)

namespace Calculator

/-! ### Settings and functions -/

/-- A calculator with the given rules; limits that are not given are those of the settings. -/
def make (settings : Settings) (table : RuleTable) (limit : Option Int) (caseSensitive : Option Bool) :
    Calculator :=
  { table, settings, limit := limit.getD settings.nestingLimit,
    caseSensitive := caseSensitive.getD settings.caseSensitive }

/-- The reduction that the calculator uses. -/
def engine (c : Calculator) : Engine := ⟨c.table, c.settings, c.limit, c.rounds⟩

/-- The reader that the calculator has kept, or else a new one. -/
def lexicon (c : Calculator) : Lexicon := c.reader.getD (.make c.table.functionNames c.caseSensitive)

/-- The calculator once it has needed its reader. -/
def ready (c : Calculator) : Calculator := { c with reader := some c.lexicon }

/-- The calculator with a function registered, and without a reader that does not know it. -/
def addFunction (c : Calculator) (f : UserFunction) : Outcome Calculator :=
  (c.table.add f).map fun table => { c with table, reader := none }

/-! ### Memory -/

/-- The name under which a variable is kept. -/
def key (c : Calculator) (name : Value) : Outcome Value :=
  if c.lexicon.caseSensitive then
    if name.isKey then .ok name else .error .typeMismatch
  else if name.isWritable then .ok (.text (Text.lower name.display))
  else .error .longInteger

/-- The calculator with a value under a key, which its reader was needed for. -/
def put (c : Calculator) (key value : Value) : Calculator := { c.ready with memory := c.memory.put key value }

/-- The calculator with values stored one after the other. Each is stored before its text is formed for the
    log, so that a failure leaves behind what was stored up to then. -/
def storeAll (c : Calculator) : List (Value × Value) → Calculator × Outcome Unit
  | [] => (c, .ok ())
  | (name, value) :: rest =>
    match c.key name with
    | .error f => (c.ready, .error f)
    | .ok key =>
      if name.isWritable && value.isWritable then (c.put key value).storeAll rest
      else (c.put key value, .error .longInteger)

/-- The calculator with an empty memory. -/
def clear (c : Calculator) : Calculator := { c with memory := [] }

/-! ### Variables -/

/-- The memory together with the values given with an expression. -/
def bindings (c : Calculator) (data : List (Value × Value)) : Outcome Bindings :=
  data.foldlM (fun b e => (c.key e.1).map fun key => b.put key e.2) c.memory

/-- The tokens of a text. -/
def tokenize (c : Calculator) (text : String) : Outcome Stream := c.lexicon.tokenize text

/-- The different values of a list, each at its first place. -/
def distinct (vs : List Value) : List Value :=
  vs.foldl (fun seen v => if v.isIn seen then seen else seen ++ [v]) []

/-- The values of the variables in a stream that have no binding. -/
def unbound (b : Bindings) (ts : Stream) : List Value :=
  ((ts.filter (·.category == .identifier)).map (·.value)).filter fun v => !b.has v

/-- The variables of a text that have no value, in the order in which they first come. -/
def dependencies (c : Calculator) (text : String) (data : List (Value × Value)) : Outcome (List Value) := do
  let b ← c.bindings data
  let ts ← c.tokenize text
  .ok (distinct (unbound b ts))

/-- The texts among values, if there is nothing else. -/
def texts? : List Value → Option (List String)
  | [] => some []
  | .text s :: rest => (texts? rest).map (s :: ·)
  | _ => none

/-- The token itself, or that of the variable's value. -/
def bindToken (b : Bindings) (t : Token) : Outcome Token :=
  if t.category == .identifier then Token.ofValue ((b.get? t.value).getD .null) else .ok t

/-- The stream with every variable replaced by its value. -/
def bind (c : Calculator) (ts : Stream) (data : List (Value × Value)) : Outcome Stream := do
  let b ← c.bindings data
  if !(ts.filter (·.category == .identifier)).all (·.value.isKey) then .error .typeMismatch
  else
    match distinct (unbound b ts) with
    | [] => ts.mapM (bindToken b)
    | missing =>
      match texts? missing with
      | some names => .error (.unboundVariables names)
      | none => .error .typeMismatch

/-- The value of a text. -/
def evaluate (c : Calculator) (text : String) (data : List (Value × Value)) : Traced Value := do
  let ts ← Traced.ofOutcome (c.tokenize text)
  let bound ← Traced.ofOutcome (c.bind ts data)
  c.engine.evaluate bound

end Calculator
end Reckoner
