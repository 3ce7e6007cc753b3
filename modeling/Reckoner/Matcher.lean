import Reckoner.Stream
import Reckoner.Value.Order

/-!
# Matchers

A matcher accepts tokens by category and value and asks for a number of them in a row. It takes as many as
it can get, up to its greatest number, and matches if they are no fewer than its least number. Inverting a
matcher swaps the tokens it accepts and refuses; beyond the end of the stream nothing is accepted.
-/

namespace Reckoner

/-- A part of a pattern. -/
structure Matcher where
  /-- The accepted categories; every category if there are none. -/
  categories : List Category := []
  /-- The accepted values; every value if there are none. -/
  values : List Value := []
  inverted : Bool := false
  /-- The least number of tokens. -/
  least : Nat := 1
  /-- The greatest number of tokens, if there is one. -/
  greatest : Option Nat := some 1
  /-- In front of a pattern: the pattern matches at the start of the stream only. -/
  anchored : Bool := false

namespace Matcher

/-! ### Making matchers -/

/-- One token of a category, with one of the values if there are any. -/
def of (c : Category) (names : List String) : Matcher :=
  { categories := [c], values := names.map .text }

/-- The name of a function. -/
def function (name : String) : Matcher := of .function [name]

/-- What was accepted is refused and the other way round. -/
def invert (m : Matcher) : Matcher := { m with inverted := !m.inverted }

/-- Any number of tokens. -/
def star (m : Matcher) : Matcher := { m with least := 0, greatest := none }

/-- At least one token. -/
def plus (m : Matcher) : Matcher := { m with least := 1, greatest := none }

/-- Only at the start of the stream. -/
def anchor (m : Matcher) : Matcher := { m with anchored := true }

/-! ### Matching -/

/-- The token has an accepted category and an accepted value. -/
def hits (m : Matcher) (t : Token) : Bool :=
  (m.categories.isEmpty || m.categories.contains t.category) && (m.values.isEmpty || t.value.isIn m.values)

/-- The token is accepted. -/
def accepts (m : Matcher) (t : Token) : Bool := m.hits t != m.inverted

/-- The accepted tokens at the front, but no more than a limit. -/
def takeUpTo (m : Matcher) : (limit : Nat) → Stream → Stream
  | 0, _ => []
  | _, [] => []
  | limit + 1, t :: rest => if m.accepts t then t :: m.takeUpTo limit rest else []

/-- The longest run of accepted tokens at the front that is within the greatest number. -/
def run (m : Matcher) (ts : Stream) : Stream :=
  match m.greatest with
  | some n => m.takeUpTo n ts
  | none => ts.takeWhile m.accepts

/-- The number of tokens lies between the least and the greatest. -/
def admits (m : Matcher) (n : Nat) : Bool :=
  decide (m.least ≤ n) && (match m.greatest with
    | some g => decide (n ≤ g)
    | none => true)

/-- What the matcher takes at a position, and whether that is a match. No token is at a negative position. -/
def tryAt (m : Matcher) (ts : Stream) (position : Int) : Bool × Stream :=
  let taken := m.run (if position < 0 then [] else ts.drop position.toNat)
  (m.admits taken.length, taken)

/-! ### The matchers that patterns and signatures are made of -/

/-- A number. -/
def numeric : Matcher := of .numeric []

/-- A string. -/
def string : Matcher := of .string []

/-- A truth value. -/
def logical : Matcher := of .logical []

/-- A plus or a minus. -/
def sumSign : Matcher := of .operator ["add", "subtract"]

/-- A minus. -/
def minus : Matcher := of .operator ["subtract"]

/-- A minus at the start of the stream. -/
def leadingMinus : Matcher := minus.anchor

/-- A multiplication or division sign. -/
def productSign : Matcher := of .operator ["multiply", "divide"]

/-- A multiplication sign. -/
def times : Matcher := of .operator ["multiply"]

/-- A power sign. -/
def powerSign : Matcher := of .operator ["pow"]

/-- The percent sign, for remainders and for percentages. -/
def percentSign : Matcher := of .operator ["mod"]

/-- Any comparator. -/
def comparator : Matcher := of .comparator []

/-- A comparator of an ascending range. -/
def ascending : Matcher := of .comparator ["lt", "le"]

/-- A comparator of a descending range. -/
def descending : Matcher := of .comparator ["gt", "ge"]

/-- A word that combines truth values. -/
def combinator : Matcher := of .combinator []

/-- An opening bracket. -/
def opening : Matcher := of .grouping ["open"]

/-- A closing bracket. -/
def closing : Matcher := of .grouping ["close"]

/-- A comma. -/
def comma : Matcher := of .comma []

/-- Neither a bracket nor a comma. -/
def nonGroup : Matcher := invert { categories := [.grouping, .comma] }

/-- Everything up to a closing bracket, but at least one token. -/
def untilClosing : Matcher := closing.invert.plus

/-- The matchers and the names by which signatures and custom patterns call them. -/
def byName : List (String × Matcher) :=
  [("numeric", numeric), ("string", string), ("logical", logical), ("addsub", sumSign), ("subtract", minus),
   ("anchored_minus", leadingMinus), ("muldiv", productSign), ("multiply", times), ("pow", powerSign),
   ("mod", percentSign), ("comparator", comparator), ("comp_lt", ascending), ("comp_gt", descending),
   ("combinator", combinator), ("open", opening), ("close", closing), ("comma", comma),
   ("non_group", nonGroup), ("non_group_star", nonGroup.star), ("non_close_plus", untilClosing)]

/-- The matcher of a name. -/
def named? (name : String) : Option Matcher := byName.lookup name

end Matcher
end Reckoner
