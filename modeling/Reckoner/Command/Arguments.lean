import Reckoner.Log
import Reckoner.Settings

/-!
# The arguments of the command line

A command line has one expression and any number of options. An option stands before its value or is joined
to it by an equals sign, and a long name may be cut short as long as it fits one option only. A word that
starts with a dash is an option unless it is a negative number or holds a blank; behind a lone `--` every
word is an argument.
-/

namespace Reckoner

/-! ### Options -/

/-- An option that takes a value, or the one that asks for help. -/
inductive Flag where
  | help
  | binding
  | dataPath
  | outputPath
  | resultColumn
  | limit
  | logLevel
  deriving DecidableEq, Repr

/-- The names of the options. -/
def Flag.names : List (String × Flag) :=
  [("-h", .help), ("--help", .help), ("--var", .binding), ("--data_path", .dataPath),
   ("--output_path", .outputPath), ("--result_column", .resultColumn), ("--max_depth", .limit),
   ("--log_level", .logLevel)]

/-- A word of the command line by its form. -/
inductive Piece where
  /-- The expression, or the value of an option. -/
  | word (s : String)
  /-- An option, with its value if that is joined to it. -/
  | flag (f : Flag) (value : Option String)
  /-- The lone `--`. -/
  | separator
  /-- What looks like an option but is none. -/
  | unknown
  deriving DecidableEq, Repr

namespace Piece

/-- The text is a dash with a decimal number, which may lack digits before the point. -/
def isNegativeNumber (s : List Char) : Bool :=
  let body := if s.getLast? == some '\n' then s.dropLast else s
  match body with
  | '-' :: rest =>
    match rest.dropWhile Text.isDigit with
    | [] => !rest.isEmpty
    | '.' :: places => !places.isEmpty && places.all Text.isDigit
    | _ => false
  | _ => false

/-- A word that starts with a dash and names no option. -/
def nameless (s : String) : Piece :=
  if isNegativeNumber s.toList || s.toList.contains ' ' then .word s else .unknown

/-- The part before the first equals sign and the part behind it, if there is one. -/
def splitValue (s : String) : String × Option String :=
  let cs := s.toList
  (String.ofList (cs.takeWhile (· != '=')),
    match cs.dropWhile (· != '=') with
    | [] => none
    | _ :: value => some (String.ofList value))

/-- The short name of help with more behind it, be it joined by an equals sign or not. Its own letter repeats it;
    anything else is a value, which it does not take. -/
def helpFlag (behind : List Char) : Piece :=
  .flag .help (if !behind.isEmpty && behind.all (· == 'h') then none else some (String.ofList behind))

/-- The form of a word with a dash and more. A name that fits several options has none. -/
def ofDashed (s : String) : Option Piece :=
  let (name, value) := splitValue s
  match Flag.names.lookup s, Flag.names.lookup name with
  | some f, _ => some (.flag f none)
  | none, some f =>
    some (if name == "-h" then helpFlag ((value.map String.toList).getD []) else .flag f value)
  | none, none =>
    match s.toList with
    | '-' :: '-' :: _ =>
      match Flag.names.filter fun e => name.toList.isPrefixOf e.1.toList with
      | [] => some (nameless s)
      | [e] => some (.flag e.2 value)
      | _ => none
    | '-' :: 'h' :: behind => some (helpFlag behind)
    | _ => some (nameless s)

/-- The form of a word. -/
def ofText (s : String) : Option Piece :=
  match s.toList with
  | '-' :: _ :: _ => ofDashed s
  | _ => some (.word s)

/-- The forms of the words of a command line. -/
def ofTexts : List String → Option (List Piece)
  | [] => some []
  | "--" :: rest => some (.separator :: rest.map .word)
  | s :: rest =>
    match ofText s, ofTexts rest with
    | some p, some ps => some (p :: ps)
    | _, _ => none

end Piece

/-! ### Arguments -/

/-- What a command line asks for. -/
structure Arguments where
  expression : String
  /-- Bindings, each as `name=value`. -/
  bindings : List String := []
  /-- The file of the table whose rows are evaluated; none if empty. -/
  dataPath : String := ""
  /-- The file that the table with the results goes to; none if empty. -/
  outputPath : String := ""
  resultColumn : String
  limit : Int
  logLevel : String

/-- What a command line amounts to. -/
inductive Invocation where
  | help
  /-- The command line is not understood. -/
  | misuse
  | run (a : Arguments)

namespace Arguments

/-- The value of an option. A lone `--` is dropped, and what is left of it is given. -/
def valueOr (rest value : String) : String := if value == "--" then rest else value

/-- The arguments with the value of an option, if that is understood. A value that is dropped names no file and no
    column, and is an empty list as a binding. -/
def set? (a : Arguments) (value : String) : Flag → Option Arguments
  | .help => none
  | .binding => some { a with bindings := a.bindings ++ [valueOr "[]" value] }
  | .dataPath => some { a with dataPath := valueOr "" value }
  | .outputPath => some { a with outputPath := valueOr "" value }
  | .resultColumn => some { a with resultColumn := valueOr "" value }
  | .limit => (Reading.integer? value.toList).map fun n => { a with limit := n }
  | .logLevel => some { a with logLevel := value }

end Arguments

/-- What has been read of a command line. -/
structure ArgumentReader where
  arguments : Arguments
  /-- The expression has been read. -/
  hasExpression : Bool := false
  /-- There is a word that has no place. -/
  hasExtra : Bool := false

namespace ArgumentReader

/-- The reader behind a word in the place of the expression. -/
def word (r : ArgumentReader) (s : String) : ArgumentReader :=
  if r.hasExpression then { r with hasExtra := true }
  else { r with arguments := { r.arguments with expression := s }, hasExpression := true }

/-- What the rest of a command line amounts to. Words without a place are noticed only at its end. -/
def read (r : ArgumentReader) : List Piece → Invocation
  | [] => if r.hasExpression && !r.hasExtra then .run r.arguments else .misuse
  | .flag .help value :: _ => if value.isNone then .help else .misuse
  | .flag f (some value) :: rest | .flag f none :: .word value :: rest =>
    match r.arguments.set? value f with
    | some arguments => read { r with arguments } rest
    | none => .misuse
  | .flag _ none :: _ => .misuse
  | .unknown :: rest => read { r with hasExtra := true } rest
  | .word s :: .separator :: rest | .word s :: rest => read (r.word s) rest
  | .separator :: .word s :: rest => read (r.word s) rest
  | .separator :: rest => read { r with hasExtra := true } rest

end ArgumentReader

/-- What a command line amounts to, with the settings for options that are not given. -/
def Invocation.ofTexts (settings : Settings) (words : List String) : Invocation :=
  match Piece.ofTexts words with
  | none => .misuse
  | some pieces =>
    ArgumentReader.read
      { arguments :=
          { expression := "", resultColumn := settings.resultColumn, limit := settings.nestingLimit,
            logLevel := settings.logLevel } }
      pieces

end Reckoner
