import Reckoner.Matcher

/-!
# Patterns

A pattern is a row of matchers, each of which starts where the one before it ended. No matcher gives back
what it took. A pattern is searched from the start of the stream; an anchored one matches at the start or
not at all, and the empty pattern never matches.
-/

namespace Reckoner

/-- A row of matchers. -/
abbrev Pattern := List Matcher

namespace Pattern

/-- The tokens that the pattern takes at the front of a stream, if all its matchers match. -/
def prefix? : Pattern → Stream → Option Stream
  | [], _ => some []
  | m :: ms, ts =>
    let taken := m.run ts
    if m.admits taken.length then (prefix? ms (ts.drop taken.length)).map (taken ++ ·) else none

/-- The first match at or behind a position, where the stream goes on with the given tokens. -/
def findFrom? (p : Pattern) (position : Nat) : Stream → Option (Nat × Stream)
  | [] => (p.prefix? []).map (position, ·)
  | t :: rest =>
    match p.prefix? (t :: rest) with
    | some taken => some (position, taken)
    | none => p.findFrom? (position + 1) rest

/-- The position and the tokens of the first match in a stream. -/
def find? : Pattern → Stream → Option (Nat × Stream)
  | [], _ => none
  | m :: ms, stream =>
    if m.anchored then (prefix? (m :: ms) stream).map (0, ·) else findFrom? (m :: ms) 0 stream

/-- A call of a function: its name, an opening bracket, the arguments and a closing bracket. -/
def call (name : String) (arguments : Pattern) : Pattern :=
  Matcher.function name :: Matcher.opening :: (arguments ++ [Matcher.closing])

/-! ### The patterns of the standard rules -/

open Matcher

/-- Brackets around tokens that are no brackets or commas. -/
def group : Pattern := [opening, nonGroup.star, closing]

/-- A sum or difference of two numbers. -/
def sum : Pattern := [numeric, sumSign, numeric]

/-- A product or quotient of two numbers. -/
def product : Pattern := [numeric, productSign, numeric]

/-- A product with a negated right side. -/
def productNegated : Pattern := [numeric, times, minus, numeric]

/-- A power of two numbers. -/
def power : Pattern := [numeric, powerSign, numeric]

/-- A power with a negated exponent. -/
def powerNegated : Pattern := [numeric, powerSign, minus, numeric]

/-- A remainder of two numbers. -/
def remainder : Pattern := [numeric, percentSign, numeric]

/-- A minus in front of a number. -/
def negation : Pattern := [minus, numeric]

/-- A minus in front of the first number of the stream. -/
def leadingNegation : Pattern := [leadingMinus, numeric]

/-- A number with a percent sign behind it. -/
def percentage : Pattern := [numeric, percentSign]

/-- Two comparisons that ascend through a middle number. -/
def ascendingRange : Pattern := [numeric, ascending, numeric, ascending, numeric]

/-- Two comparisons that descend through a middle number. -/
def descendingRange : Pattern := [numeric, descending, numeric, descending, numeric]

/-- A comparison of two numbers. -/
def numberComparison : Pattern := [numeric, comparator, numeric]

/-- A comparison of two strings. -/
def textComparison : Pattern := [string, comparator, string]

/-- Two truth values with a combining word between them. -/
def combination : Pattern := [logical, combinator, logical]

/-- A choice between two tokens by a third. -/
def choice : Pattern := call "if" [nonGroup, comma, nonGroup, comma, nonGroup]

/-- Rounding to the default number of places. -/
def roundCall : Pattern := call "round" [nonGroup.star]

/-- Rounding to a number of places. -/
def roundCallWithPlaces : Pattern := call "round" [nonGroup.star, comma, nonGroup.star]

/-- Rounding up to an integer. -/
def roundUpCall : Pattern := call "roundup" [nonGroup.star]

/-- Rounding down to an integer. -/
def roundDownCall : Pattern := call "rounddown" [nonGroup.star]

/-- The negation of a truth value. -/
def notCall : Pattern := call "not" [nonGroup.star]

/-- The patterns and the names by which custom rules call them. -/
def byName : List (String × Pattern) :=
  [("group", group), ("math_add", sum), ("math_mul", product), ("math_neg_mul", productNegated),
   ("math_pow", power), ("math_neg_pow", powerNegated), ("math_mod", remainder), ("negation", negation),
   ("start_neg", leadingNegation), ("percentage", percentage), ("range_asc", ascendingRange),
   ("range_desc", descendingRange), ("num_comp", numberComparison), ("str_comp", textComparison),
   ("combine", combination), ("if", choice), ("round_one", roundCall), ("round_two", roundCallWithPlaces),
   ("roundup", roundUpCall), ("rounddown", roundDownCall), ("not", notCall)]

/-- The pattern of a name. -/
def named (name : String) : Outcome Pattern :=
  match byName.lookup name with
  | some p => .ok p
  | none => .error (.missingEntry name)

end Pattern
end Reckoner
