/-!
# Templates

A template is a text with directives, each of which stands for a value. A directive starts with a percent
sign and ends with the letter that tells how the value is written; between them stand, in this order, a name
in brackets, marks, a width and a precision. Two percent signs stand for one. Reading a template never fails:
a directive that is cut short has no letter.
-/

namespace Reckoner

/-- A width or a precision. -/
inductive Amount where
  | given (n : Nat)
  /-- An asterisk: the amount is a value, too. -/
  | asked
  deriving DecidableEq, Repr

/-- The name in brackets of a directive. -/
inductive DirectiveKey where
  | absent
  | closed
  /-- The template ends before the bracket is closed. -/
  | unclosed
  deriving DecidableEq, Repr

/-- What stands for a value in a template. -/
structure Directive where
  key : DirectiveKey := .absent
  /-- The characters among `-+ #0` that stand in front of the width. -/
  marks : List Char := []
  width : Option Amount := none
  precision : Option Amount := none
  /-- The letter at the end. -/
  letter : Option Char := none
  deriving DecidableEq, Repr

/-- A part of a template. -/
inductive TemplatePart where
  | text (c : Char)
  | directive (d : Directive)
  deriving DecidableEq, Repr

namespace Directive

/-! ### Reading -/

/-- The text behind the bracket that closes the given number of open ones. -/
def behindBracket : (depth : Nat) → List Char → Option (List Char)
  | _, [] => none
  | depth, ')' :: rest => if depth ≤ 1 then some rest else behindBracket (depth - 1) rest
  | depth, '(' :: rest => behindBracket (depth + 1) rest
  | depth, _ :: rest => behindBracket depth rest

/-- A name in brackets and what follows it. -/
def readKey : List Char → DirectiveKey × List Char
  | '(' :: rest =>
    match behindBracket 1 rest with
    | some rest => (.closed, rest)
    | none => (.unclosed, [])
  | s => (.absent, s)

/-- The character is a mark. -/
def isMark (c : Char) : Bool := "-+ #0".toList.contains c

/-- An amount and what follows it. -/
def readAmount (s : List Char) : Option Amount × List Char :=
  match s with
  | '*' :: rest => (some .asked, rest)
  | s =>
    let digits := s.takeWhile Char.isDigit
    (if digits.isEmpty then none else some (.given (digits.foldl (fun n c => 10 * n + (c.toNat - 48)) 0)),
      s.dropWhile Char.isDigit)

/-- A precision and what follows it; without digits it is zero. -/
def readPrecision : List Char → Option Amount × List Char
  | '.' :: rest => (some ((readAmount rest).1.getD (.given 0)), (readAmount rest).2)
  | s => (none, s)

/-- The text behind a letter for the size of a number, which means nothing. -/
def behindSize : List Char → List Char
  | 'h' :: rest | 'l' :: rest | 'L' :: rest => rest
  | s => s

/-- The directive behind a percent sign and what follows it. -/
def read (s : List Char) : Directive × List Char :=
  let (key, s) := readKey s
  let (width, rest) := readAmount (s.dropWhile isMark)
  let (precision, rest) := readPrecision rest
  let rest := behindSize rest
  ({ key, marks := s.takeWhile isMark, width, precision, letter := rest.head? }, rest.drop 1)

theorem length_behindBracket {depth : Nat} {s rest : List Char} (h : behindBracket depth s = some rest) :
    rest.length ≤ s.length := by
  fun_induction behindBracket depth s with
  | case1 => cases h
  | case2 => simp_all
  | case3 depth s hd ih => exact Nat.le_succ_of_le (ih h)
  | case4 depth s ih => exact Nat.le_succ_of_le (ih h)
  | case5 depth c s hc ho ih => exact Nat.le_succ_of_le (ih h)

theorem length_readKey (s : List Char) : (readKey s).2.length ≤ s.length := by
  unfold readKey
  split
  · split
    · next h => exact Nat.le_succ_of_le (length_behindBracket h)
    · simp
  · exact Nat.le_refl _

theorem length_readAmount (s : List Char) : (readAmount s).2.length ≤ s.length := by
  unfold readAmount
  split
  · simp
  · exact (List.dropWhile_suffix _).length_le

theorem length_readPrecision (s : List Char) : (readPrecision s).2.length ≤ s.length := by
  unfold readPrecision
  split
  · exact Nat.le_succ_of_le (length_readAmount _)
  · exact Nat.le_refl _

theorem length_behindSize (s : List Char) : (behindSize s).length ≤ s.length := by
  unfold behindSize
  split <;> simp

/-- Reading a directive does not lengthen the text. -/
theorem length_read (s : List Char) : (read s).2.length ≤ s.length := by
  have hk := length_readKey s
  have hm := (List.dropWhile_suffix isMark (l := (readKey s).2)).length_le
  have ha := length_readAmount ((readKey s).2.dropWhile isMark)
  have hp := length_readPrecision (readAmount ((readKey s).2.dropWhile isMark)).2
  have hs := length_behindSize (readPrecision (readAmount ((readKey s).2.dropWhile isMark)).2).2
  simp only [read, List.length_drop]
  omega

end Directive

namespace TemplatePart

/-- The parts of a template. -/
def ofText : List Char → List TemplatePart
  | [] => []
  | '%' :: '%' :: rest => .text '%' :: ofText rest
  | '%' :: rest => .directive (Directive.read rest).1 :: ofText (Directive.read rest).2
  | c :: rest => .text c :: ofText rest
  termination_by s => s.length
  decreasing_by
    · simp only [List.length_cons]; omega
    · exact Nat.lt_succ_of_le (Directive.length_read rest)
    · simp

end TemplatePart
end Reckoner
