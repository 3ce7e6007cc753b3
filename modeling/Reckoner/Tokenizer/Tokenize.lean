import Reckoner.Tokenizer.Scanner

/-!
# From text to tokens

A text is read from its start. At each place the first scanner that recognises a lexeme takes it, and the
reading goes on behind it. Blanks give no token, and a place that no scanner recognises ends the reading.
-/

namespace Reckoner.Lexicon

/-- The scanner that takes the front of a text, with the length of its lexeme less one. -/
def first? (lexicon : Lexicon) (text : List Char) : Option (Scanner × Nat) :=
  Scanner.all.findSome? fun s =>
    match s.length lexicon text with
    | 0 => none
    | n + 1 => some (s, n)

/-- The tokens of the rest of a text from a position on. -/
def tokenizeFrom (lexicon : Lexicon) (text : String) (position : Nat) : List Char → Outcome (List Token)
  | [] => .ok []
  | c :: rest =>
    match lexicon.first? (c :: rest) with
    | none => .error (.unreadable text position)
    | some (s, n) => do
      let t ← s.token lexicon (c :: rest.take n)
      let ts ← tokenizeFrom lexicon text (position + n + 1) (rest.drop n)
      .ok (t.toList ++ ts)
  termination_by rest => rest.length
  decreasing_by simp only [List.length_drop, List.length_cons]; omega

/-- The tokens of a text. -/
def tokenize (lexicon : Lexicon) (text : String) : Outcome (List Token) :=
  tokenizeFrom lexicon text 0 text.toList

end Reckoner.Lexicon
