import Reckoner.Failure
import Reckoner.Number.Reading
import Reckoner.Text.Case

/-!
# Scanners

A scanner recognises one kind of lexeme at the front of a text. Recognition says how long the lexeme is;
what token it stands for is a matter of the recognised piece alone. A keyword, a number and the name of a
function end where a word ends, and the name of a function has an opening bracket behind it.
-/

namespace Reckoner

/-- The names of the functions that the standard rules know. -/
def builtinFunctions : List String := ["if", "round", "roundup", "rounddown", "not"]

/-- The names that are read as functions, and how letter case counts. -/
structure Lexicon where
  functionNames : List String := builtinFunctions
  caseSensitive : Bool := false

/-- The built-in functions together with those of the given names. -/
def Lexicon.make (names : List String) (caseSensitive : Bool) : Lexicon :=
  ⟨builtinFunctions ++ (names.map Text.lower).filter fun n => !builtinFunctions.contains n, caseSensitive⟩

/-- A kind of lexeme. -/
inductive Scanner where
  | blank
  | number
  | doubleQuoted
  | singleQuoted
  | operator
  | grouping
  | comma
  | comparator
  | combinator
  | logical
  | function
  | identifier
  deriving DecidableEq, Repr

namespace Scanner
open Text

/-- All scanners, the first to be tried first. -/
def all : List Scanner :=
  [.blank, .number, .doubleQuoted, .singleQuoted, .operator, .grouping, .comma, .comparator, .combinator,
   .logical, .function, .identifier]

/-! ### The symbols and keywords -/

/-- The operators and the names of their tokens. -/
def operatorSymbols : List (String × String) :=
  [("^", "pow"), ("+", "add"), ("-", "subtract"), ("*", "multiply"), ("/", "divide"), ("%", "mod")]

/-- The brackets and the names of their tokens. -/
def groupingSymbols : List (String × String) := [("(", "open"), (")", "close")]

/-- The comparators; of two that fit the one that stands first is read. -/
def comparatorSymbols : List (String × String) :=
  [("<=", "le"), (">=", "ge"), ("!=", "ne"), ("<>", "ne"), ("==", "eq"), ("<", "lt"), (">", "gt"),
   ("=", "eq")]

/-- The words that combine truth values. -/
def combinatorWords : List String := ["and", "or"]

/-- The words for the truth values. -/
def logicalWords : List String := ["true", "false"]

/-! ### Recognition -/

/-- The text starts with the word, letter by letter. -/
def startsWith (sameLetter : Char → Char → Bool) : (word text : List Char) → Bool
  | [], _ => true
  | _, [] => false
  | w :: word, c :: text => sameLetter w c && startsWith sameLetter word text

/-- How the letters of keywords and function names are compared. -/
def letters (lexicon : Lexicon) : Char → Char → Bool :=
  if lexicon.caseSensitive then (· == ·) else sameLetter

/-- The first `n` characters of a text, if there are any, end a word. -/
def wordEndsAt (n : Nat) (text : List Char) : Bool :=
  match (text.take n).getLast? with
  | some c => endsWord c (text.drop n)
  | none => false

/-- The length of the first symbol in a table that the text starts with, or zero. -/
def symbolLength (table : List (String × String)) (text : List Char) : Nat :=
  ((table.find? fun s => s.1.toList.isPrefixOf text).map (·.1.length)).getD 0

/-- The length of a number: digits, digits with a fraction, or a fraction alone. -/
def numberLength (text : List Char) : Nat :=
  let whole := (text.takeWhile isDigit).length
  match text.drop whole with
  | '.' :: rest =>
    let fraction := (rest.takeWhile isDigit).length
    if fraction ≠ 0 ∧ wordEndsAt (whole + 1 + fraction) text then whole + 1 + fraction else whole
  | _ => if wordEndsAt whole text then whole else 0

/-- The length of a text in quotes, quotes included, or zero. -/
def quotedLength (quote : Char) : List Char → Nat
  | [] => 0
  | c :: rest =>
    let content := (rest.takeWhile (· != quote)).length
    if c == quote && content < rest.length then content + 2 else 0

/-- The length of the first word of a list that the text starts with as a whole word, or zero. -/
def wordLength (lexicon : Lexicon) (words : List String) (text : List Char) : Nat :=
  let fits (w : String) : Bool := startsWith (letters lexicon) w.toList text && wordEndsAt w.length text
  ((words.find? fits).map (·.length)).getD 0

/-- The next character but blanks is an opening bracket. -/
def opensCall (text : List Char) : Bool := (text.dropWhile isBlank).head? == some '('

/-- The length of the longest function name that the text starts with and that opens a call, or zero. -/
def functionLength (lexicon : Lexicon) (text : List Char) : Nat :=
  lexicon.functionNames.foldl (fun best name =>
    let n := name.length
    if best < n && startsWith (letters lexicon) name.toList text && wordEndsAt n text &&
        opensCall (text.drop n) then n
    else best) 0

/-- The length of a name, or zero. -/
def identifierLength : List Char → Nat
  | [] => 0
  | c :: rest => if isNameStart c then (rest.takeWhile isWord).length + 1 else 0

/-- The length of the lexeme at the front of a text; zero if there is none of the kind. -/
def length (lexicon : Lexicon) (text : List Char) : Scanner → Nat
  | .blank => (text.takeWhile isBlank).length
  | .number => numberLength text
  | .doubleQuoted => quotedLength '"' text
  | .singleQuoted => quotedLength '\'' text
  | .operator => symbolLength operatorSymbols text
  | .grouping => symbolLength groupingSymbols text
  | .comma => symbolLength [(",", "comma")] text
  | .comparator => symbolLength comparatorSymbols text
  | .combinator => wordLength lexicon combinatorWords text
  | .logical => wordLength lexicon logicalWords text
  | .function => functionLength lexicon text
  | .identifier => identifierLength text

/-! ### The tokens of lexemes -/

/-- The number that a lexeme stands for; one with a point is a float. -/
def numberValue (piece : List Char) : Outcome Value :=
  if piece.contains '.' then
    match Reading.real? piece with
    | some x => .ok (.real x)
    | none => .error .invalidArgument
  else match Reading.integer? piece with
    | some n => .ok (.int n)
    | none => .error .longInteger

/-- The token of a symbol. -/
def symbolToken (category : Category) (table : List (String × String)) (piece : String) : Token :=
  ⟨category, ((table.lookup piece).map Value.text).getD .null⟩

/-- The token of a lexeme; blanks have none. -/
def token (lexicon : Lexicon) (piece : List Char) (s : Scanner) : Outcome (Option Token) :=
  let text := String.ofList piece
  match s with
  | .blank => .ok none
  | .number => (numberValue piece).map fun v => some ⟨.numeric, v⟩
  | .doubleQuoted | .singleQuoted => .ok (some ⟨.string, .text (String.ofList (piece.drop 1).dropLast)⟩)
  | .operator => .ok (some (symbolToken .operator operatorSymbols text))
  | .grouping => .ok (some (symbolToken .grouping groupingSymbols text))
  | .comma => .ok (some .comma)
  | .comparator => .ok (some (symbolToken .comparator comparatorSymbols text))
  | .combinator => .ok (some ⟨.combinator, .text (lower text)⟩)
  | .logical => .ok (some ⟨.logical, .bool (lower text == "true")⟩)
  | .function => .ok (some ⟨.function, .text (lower text)⟩)
  | .identifier => .ok (some ⟨.identifier, .text (if lexicon.caseSensitive then text else lower text)⟩)

/-- The scanner at an index; a negative one counts from the end. -/
def atIndex (index : Int) : Outcome Scanner :=
  let i := if index < 0 then all.length + index else index
  if i < 0 then .error .indexOutOfRange
  else match all[i.toNat]? with
    | some s => .ok s
    | none => .error .indexOutOfRange

/-- What the scanner reads at a position of a text: the token, if the lexeme has one, and the end. -/
def scanAt (lexicon : Lexicon) (text : String) (position : Nat) (s : Scanner) :
    Outcome (Option (Option Token × Nat)) :=
  let rest := text.toList.drop position
  match length lexicon rest s with
  | 0 => .ok none
  | n => (token lexicon (rest.take n) s).map fun t => some (t, position + n)

end Scanner
end Reckoner
