import Reckoner.Reduction.Trace
import Reckoner.Operation
import Reckoner.Rounding
import Reckoner.Settings

/-!
# What a rule puts in place of its match

Each step turns the tokens of a span into the tokens that replace them. Most steps take a fixed number of
tokens. The steps on brackets and on calls reduce the tokens inside, for which they are given a reduction of
nested streams.
-/

namespace Reckoner.Replacement

/-! ### Steps without a nested reduction -/

/-- The operation named by the middle token on the values beside it. -/
def apply : Stream → Outcome Stream
  | [l, op, r] => do
    let o ← Operation.named op.value
    let t ← o.token l.value r.value
    .ok [t]
  | _ => .error .argumentCount

/-- The second token times minus one. -/
def negate : Stream → Outcome Stream
  | [_, t] => (t.value.mul (.int (-1))).map fun v => [⟨t.category, v⟩]
  | _ => .error .argumentCount

/-- The first token to the power of the negated last one. -/
def powNegate : Stream → Outcome Stream
  | [base, _, _, exponent] => do
    let e ← exponent.value.mul (.int (-1))
    let v ← base.value.pow e
    .ok [⟨base.category, v⟩]
  | _ => .error .argumentCount

/-- The product of the first and the last token times minus one. -/
def mulNegate : Stream → Outcome Stream
  | [l, _, _, r] => do
    let p ← l.value.mul r.value
    let v ← p.mul (.int (-1))
    .ok [⟨l.category, v⟩]
  | _ => .error .argumentCount

/-- The first token over a hundred. -/
def percentage : Stream → Outcome Stream
  | [t, _] => (t.value.div (.real 100)).map fun v => [⟨t.category, v⟩]
  | _ => .error .argumentCount

/-- The range `a < b < c` as `a < b and b < c`. -/
def expandRange : Stream → Outcome Stream
  | [l, o₁, m, o₂, r] => .ok [l, o₁, m, .conjunction, m, o₂, r]
  | _ => .error .argumentCount

/-- The fifth or the seventh of eight tokens, by the truth of the third. -/
def choose : Stream → Outcome Stream
  | [_, _, condition, _, yes, _, no, _] => .ok [if condition.value.isTrue then yes else no]
  | _ => .error .callForm

/-! ### Steps with nested reductions -/

/-- The tokens between the first two and the last one of a call. -/
def inside? : Stream → Option Stream
  | _ :: _ :: rest => if rest.isEmpty then none else some rest.dropLast
  | _ => none

/-- The runs of tokens between delimiters, empty ones left out, in front of which `open'` is still open. -/
def chunksAfter (open' : Stream) : Stream → List Stream
  | [] => if open'.isEmpty then [] else [open']
  | t :: rest =>
    if t.isDelimiter then
      if open'.isEmpty then chunksAfter [] rest else open' :: chunksAfter [] rest
    else chunksAfter (open' ++ [t]) rest

/-- The runs of tokens between delimiters, empty ones left out. -/
def chunks (ts : Stream) : List Stream := chunksAfter [] ts

variable (settings : Settings) (nested : Stream → Traced Token)

/-- The first run of tokens inside a call, rounded to the places that the second one gives. -/
def round (span : Stream) : Traced Stream :=
  match inside? span with
  | none => .fail .callForm
  | some tokens => do
    let parts := chunks tokens
    let v ← nested (parts.head?.getD [])
    let p ← match parts[1]? with
      | some part => do
        let t ← nested part
        pure t.value
      | none => pure settings.defaultPlaces
    let x ← Traced.ofOutcome (Rounding.toPlaces v.value p settings.halfThreshold)
    pure [⟨.numeric, .real x⟩]

/-- The tokens inside a call, rounded up if the call is of `roundup` and down if not. -/
def roundInt (span : Stream) : Traced Stream :=
  match inside? span with
  | none => .fail .callForm
  | some tokens => do
    let v ← nested tokens
    let upward := (span.head?.map fun t => t.value.same (.text "roundup")).getD false
    let n ← Traced.ofOutcome (if upward then Rounding.up v.value else Rounding.down v.value)
    pure [⟨.numeric, .int n⟩]

/-- Whether the tokens inside a call are false. -/
def not (span : Stream) : Traced Stream := do
  let v ← nested (span.dropLast.drop 2)
  pure [⟨.logical, .bool (!v.value.isTrue)⟩]

/-- The token that the tokens inside brackets reduce to. -/
def evaluateGroup (span : Stream) : Traced Stream := do
  let t ← nested (span.dropLast.drop 1)
  pure [t]

/-! ### All actions -/

/-- What a built-in step puts in place of a span. -/
def ofStep (s : Step) (span : Stream) : Traced Stream :=
  match s with
  | .apply => .ofOutcome (apply span)
  | .negate => .ofOutcome (negate span)
  | .powNegate => .ofOutcome (powNegate span)
  | .mulNegate => .ofOutcome (mulNegate span)
  | .percentage => .ofOutcome (percentage span)
  | .expandRange => .ofOutcome (expandRange span)
  | .choose => .ofOutcome (choose span)
  | .round => round settings nested span
  | .roundInt => roundInt nested span
  | .not => not nested span
  | .evaluateGroup => evaluateGroup nested span

/-- The token that a call of a user function gives. -/
def ofCall (table : RuleTable) (name : String) (call : Stream) : Outcome Token :=
  match table.lookup? name with
  | none => .error (.unknownFunction name)
  | some f => (f.body.run ((UserFunction.argumentsOf call).map (·.value))).map (⟨f.returns, ·⟩)

/-- What an action puts in place of a span. -/
def ofAction (table : RuleTable) (action : Action) (span : Stream) : Traced Stream :=
  match action with
  | .step s => ofStep settings nested s span
  | .call name => .ofOutcome ((ofCall table name span).map ([·]))

end Reckoner.Replacement
