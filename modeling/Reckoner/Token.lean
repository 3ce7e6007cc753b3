import Reckoner.Value.Basic

/-!
# Tokens

An expression is reduced as a stream of tokens. A token has a category, on which the rules match, and a
value.
-/

namespace Reckoner

/-- The syntactic category of a token. -/
inductive Category where
  | numeric
  | string
  | logical
  /-- A variable, replaced by its value before the reduction. -/
  | identifier
  /-- One of the six arithmetic operators. -/
  | operator
  | comparator
  /-- A connective of truth values. -/
  | combinator
  /-- An opening or a closing bracket. -/
  | grouping
  | comma
  /-- The name of a function. -/
  | function
  deriving DecidableEq, Repr

/-- A token. -/
structure Token where
  category : Category
  value : Value

namespace Token

/-- The closing and opening brackets and the comma delimit arguments. -/
def isDelimiter (t : Token) : Bool := t.category == .grouping || t.category == .comma

/-- The token of an opening bracket. -/
def opening : Token := ⟨.grouping, .text "open"⟩

/-- The token of a closing bracket. -/
def closing : Token := ⟨.grouping, .text "close"⟩

/-- The token of a comma. -/
def comma : Token := ⟨.comma, .text "comma"⟩

/-- The token that connects the two halves of a range. -/
def conjunction : Token := ⟨.combinator, .text "and"⟩

end Token
end Reckoner
