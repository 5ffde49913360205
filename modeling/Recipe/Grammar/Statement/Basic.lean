import Recipe.Grammar.Piece
import Recipe.Grammar.Scan

/-!
# Statements

A statement is read from the text of one logical line. It is one piece, a group or an error token,
and the blanks that follow it on the line.
-/

namespace Recipe

/-- Pieces for a text that may be empty: a token, or nothing. -/
def Piece.tokens (kind : Kind) (cs : List Char) : List Piece :=
  if cs.isEmpty then [] else [.token kind cs]

/-- A punctuation token of one character. -/
def Piece.mark (c : Char) : Piece :=
  .token .punctuation [c]

namespace Grammar

/-- Pieces, and the text after them. -/
structure Parts where
  pieces : List Piece
  rest : List Char

/-- A statement, and the blanks after it on its logical line. -/
structure Statement where
  piece : Piece
  after : List Char

namespace Statement

/-- A logical line that fits no rule. -/
def refused (cs : List Char) : Statement :=
  ⟨.token .error cs, []⟩

/-- A statement whose text goes up to `last.rest`. Text that is left after the blanks of `last`
ends the statement as an error. -/
def close (kind : Kind) (parts : List Piece) (last : Cut) : Statement :=
  if last.rest.isEmpty then ⟨.group kind parts, last.front⟩
  else ⟨.group kind (parts ++ [.gap last.front, .token .error last.rest]), []⟩

end Statement

end Grammar

end Recipe
