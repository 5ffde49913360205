import Recipe.Grammar.Statement.Basic

/-!
# Quoted values

A value stands between two quotes of the same kind. Inside it a backslash takes the next character
with it, and a brace group after a dollar sign is an expansion, unless the quote comes before its
closing brace. All else is plain text.
-/

namespace Recipe.Grammar

/-- A part of a quoted value. -/
inductive Segment where
  | plain (text : List Char)
  | expansion (inside : List Char)
deriving DecidableEq, Repr

/-- The segments of a quoted value, and the text after its closing quote. -/
structure Value where
  segments : List Segment
  rest : List Char
deriving DecidableEq, Repr

namespace Value

/-- Adds plain text in front, joined with the plain text that follows it. -/
def addPlain (cs : List Char) (v : Value) : Value :=
  match v.segments with
  | .plain t :: ss => { v with segments := .plain (cs ++ t) :: ss }
  | ss => { v with segments := .plain cs :: ss }

/-- Adds an expansion in front. -/
def addExpansion (inside : List Char) (v : Value) : Value :=
  { v with segments := .expansion inside :: v.segments }

/-- Reads a value from the text after its opening quote, unless the closing quote is missing. -/
def read? (quote : Char) (cs : List Char) : Option Value :=
  match cs with
  | [] => none
  | c :: rest =>
    if c = quote then some ⟨[], rest⟩
    else if c = '\\' then
      match rest with
      | [] => none
      | d :: rest => (read? quote rest).map (addPlain [c, d])
    else if c = '$' then
      match h : braceGroup (· == quote) rest with
      | some g =>
        have := length_braceGroup_rest h
        (read? quote g.rest).map (addExpansion g.front)
      | none => (read? quote rest).map (addPlain [c])
    else (read? quote rest).map (addPlain [c])
termination_by cs.length

end Value

/-- The piece of an expansion: python code when its inside begins with an at sign, otherwise the
name of a variable. -/
def expansionPiece (inside : List Char) : Piece :=
  match inside with
  | '@' :: code =>
    .group .inlinePython
      (.token .punctuation ['$', '{', '@'] :: Piece.tokens .pythonContent code ++ [Piece.mark '}'])
  | _ =>
    .group .variableExpansion
      (.token .punctuation ['$', '{'] :: Piece.tokens .identifier inside ++ [Piece.mark '}'])

/-- The piece of a segment. -/
def Segment.piece : Segment → Piece
  | plain cs => .token .stringContent cs
  | expansion inside => expansionPiece inside

/-- The piece of a value between its quotes. -/
def Value.piece (quote : Char) (v : Value) : Piece :=
  .group .string (Piece.mark quote :: v.segments.map Segment.piece ++ [Piece.mark quote])

end Recipe.Grammar
