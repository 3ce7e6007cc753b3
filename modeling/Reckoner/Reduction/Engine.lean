import Reckoner.Reduction.Replacement

/-!
# Reduction

A stream is reduced by contractions: the topmost rule of the table that matches anywhere contracts its first
match, and the table is searched again from its top, until one token is left. Brackets and calls reduce what
is inside them as a stream of its own, one level deeper, and the depth of the levels has a limit.

A custom table can go on for ever, so that every level is given a number of rounds, which is the greatest
number of its contractions.
-/

namespace Reckoner

/-- A reduction's table, settings and limits. -/
structure Engine where
  table : RuleTable := {}
  settings : Settings := {}
  /-- The greatest depth of nested reductions. -/
  limit : Int := 64
  /-- The greatest number of contractions of a level, if it is not left to the length of the stream. -/
  rounds : Option Nat := none

namespace Engine

/-- The span of a stream replaced by the result of an action. The result is what becomes of the stream, and
    whether the action succeeded. The span is gone if the action fails, and the replacement is in place if
    only an integer in the span or in the replacement is too long to be written. -/
def contract (e : Engine) (nested : Stream → Traced Token) (stream : Stream) (start length : Int)
    (action : Action) : Stream × Traced Unit :=
  let lo := Stream.place stream.length start
  let hi := Stream.place stream.length (start + length)
  let span := stream.between lo hi
  let rest := stream.without lo hi
  let result := Replacement.ofAction e.settings nested e.table action span
  match result.outcome with
  | .error f => (rest, ⟨result.events, .error f⟩)
  | .ok new =>
    let outcome := if span.isWritable && new.isWritable then .ok () else .error .longInteger
    (rest.insertAt (Stream.place rest.length start) new, ⟨result.events, outcome⟩)

/-- The failure of a stream that no rule matches. -/
def stuck (stream : Stream) : Failure :=
  if stream.isWritable then .noRuleMatched stream else .longInteger

/-- The contractions of one level. -/
def loop (e : Engine) (nested : Stream → Traced Token) (depth : Int) : (rounds : Nat) → Stream → Traced Token
  | _, [] => .fail .indexOutOfRange
  | _, [t] => pure t
  | rounds, stream =>
    match Rule.firstMatch? e.table.all stream with
    | none => .fail (stuck stream)
    | some (rule, position, taken) =>
      match rounds with
      | 0 => .fail .endless
      | rounds + 1 => do
        Traced.report .begun
        let (after, done) := e.contract nested stream position taken.length rule.action
        done
        Traced.report (.done ⟨rule.action, depth, position, taken.length, after⟩)
        e.loop nested depth rounds after

/-- The stream that a level starts with: an empty one stands for the value of the empty expression. -/
def entry (e : Engine) (stream : Stream) : Stream :=
  if stream.isEmpty then [⟨.numeric, e.settings.emptyValue⟩] else stream

/-- The reduction of a stream at a depth below which there are so many levels left. -/
def reduceWithin (e : Engine) (rounds : Nat) : (levels : Nat) → (depth : Int) → Stream → Traced Token
  | 0, depth, _ => .fail (.tooDeeplyNested depth e.limit)
  | levels + 1, depth, stream =>
    e.loop (e.reduceWithin rounds levels (depth + 1)) depth rounds (e.entry stream)

/-- The number of levels from a depth down to the limit. -/
def levels (e : Engine) (depth : Int) : Nat := (e.limit + 1 - depth).toNat

/-- The rounds after which the standard rules have reduced every stream of a length; a custom table is
    given at least a hundred thousand. -/
def patience (length : Nat) : Nat := max ((2 * length + 1) * (length + 1)) 100000

/-- The reduction of a stream at a depth to a single token. -/
def reduce (e : Engine) (depth : Int) (stream : Stream) : Traced Token :=
  e.reduceWithin (e.rounds.getD (patience stream.length)) (e.levels depth) depth stream

/-- A single contraction at a depth, with its nested reductions one level deeper. -/
def contractAt (e : Engine) (depth : Int) (stream : Stream) (start length : Int) (action : Action) :
    Stream × Traced Unit :=
  e.contract (e.reduce (depth + 1)) stream start length action

/-- The value that a stream reduces to. -/
def evaluate (e : Engine) (stream : Stream) : Traced Value := do
  let t ← e.reduce 0 stream
  pure t.value

end Engine
end Reckoner
