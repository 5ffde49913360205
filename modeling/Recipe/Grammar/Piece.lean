import Recipe.Node.Basic
import Recipe.Text.Width

/-!
# Pieces

Reading a recipe cuts its text into pieces: tokens, the gaps between them, and groups of pieces.
Pieces know no offsets, so equal texts have equal pieces wherever they stand, and a piece's text is
the concatenation of its tokens and gaps. `Piece.locate` lays pieces out from a place in the text:
tokens become leaves, groups become branches, and gaps leave room.
-/

namespace Recipe

/-- A part of a recipe's text. -/
inductive Piece where
  /-- Text that becomes a leaf. -/
  | token (kind : Kind) (text : List Char)
  /-- Text between tokens. -/
  | gap (text : List Char)
  /-- Pieces that belong together. -/
  | group (kind : Kind) (parts : List Piece)
deriving Repr, Inhabited

/-- A place in a text, as a byte offset and as a position. -/
structure Cursor where
  offset : Nat
  position : Position
deriving DecidableEq, Repr

namespace Cursor

/-- The beginning of a text. -/
def start : Cursor :=
  ⟨0, ⟨0, 0⟩⟩

/-- The place after a character. -/
def step (here : Cursor) (c : Char) : Cursor :=
  if c = '\n' then ⟨here.offset + 1, ⟨here.position.line + 1, 0⟩⟩
  else ⟨here.offset + c.utf8Size, ⟨here.position.line, here.position.column + c.utf8Size⟩⟩

/-- The place after a text. -/
def advance (here : Cursor) (cs : List Char) : Cursor :=
  cs.foldl step here

/-- The range between two places. -/
def rangeTo (a b : Cursor) : Range :=
  ⟨⟨a.offset, b.offset⟩, a.position, b.position⟩

end Cursor

namespace Piece

mutual

/-- The text of a piece. -/
def text : Piece → List Char
  | token _ cs => cs
  | gap cs => cs
  | group _ ps => textAll ps

/-- The text of several pieces. -/
def textAll : List Piece → List Char
  | [] => []
  | p :: ps => p.text ++ textAll ps

end

/-- Nodes laid out in a text, and the place after them. -/
structure Located where
  nodes : List Node
  stop : Cursor

mutual

/-- The nodes of a piece that begins at a place: none for a gap, one for a token or a group. -/
def locate (start : Cursor) : Piece → Located
  | token k cs =>
    let stop := start.advance cs
    ⟨[.leaf k (start.rangeTo stop) (String.ofList cs)], stop⟩
  | gap cs => ⟨[], start.advance cs⟩
  | group k ps =>
    let inside := locateAll start ps
    ⟨[.branch k (start.rangeTo inside.stop) inside.nodes], inside.stop⟩

/-- The nodes of pieces that follow one another. -/
def locateAll (start : Cursor) : List Piece → Located
  | [] => ⟨[], start⟩
  | p :: ps =>
    let first := p.locate start
    let others := locateAll first.stop ps
    ⟨first.nodes ++ others.nodes, others.stop⟩

end

end Piece

end Recipe
