import Recipe.Grammar.Block

/-!
# Trees

A tree is the source of a recipe and the root of what was read from it. Reading never fails on the
content of a text; only a text with more bytes than the limit is refused, and its tree has no root.
-/

namespace Recipe

/-- The source of a recipe, and the root node read from it. -/
structure Tree where
  source : String
  root? : Option Node
deriving Repr, Inhabited

/-- Why a text is refused. -/
inductive Refusal where
  /-- The text has `size` bytes and the limit allows `limit`. -/
  | tooLarge (size limit : Nat)
deriving DecidableEq, Repr

/-- The refusal in words. -/
def Refusal.message : Refusal → String
  | tooLarge size limit => s!"source is {size} bytes, above the {limit} byte parse limit"

/-- The largest number of bytes that are read unless a caller sets a limit. -/
def defaultLimit : Nat :=
  8 * 1024 * 1024

/-- The root node of a text. -/
def rootNode (cs : List Char) : Node :=
  let inside := Piece.locateAll .start (Grammar.read cs)
  .branch .sourceFile (Cursor.start.rangeTo inside.stop) inside.nodes

/-- Reads a recipe of at most `limit` bytes. -/
def parse (limit : Nat) (source : String) : Except Refusal Tree :=
  let cs := source.toList
  let size := Text.bytes cs
  if limit < size then .error (.tooLarge size limit)
  else .ok { source, root? := some (rootNode cs) }

namespace Tree

/-- The tree of a text that is not read. -/
def withoutRoot (source : String) : Tree :=
  { source, root? := none }

/-- The line table of the source. -/
def lineTable (t : Tree) : LineTable :=
  .ofText t.source.toList

/-- The statements and comments of a recipe. -/
def statements (t : Tree) : List Node :=
  (t.root?.map Node.children).getD []

/-- The source of a node; empty if the node's span is none of the source. -/
def textOf (t : Tree) (n : Node) : String :=
  String.ofList ((Text.slice t.source.toList n.range.span.start n.range.span.stop).getD [])

/-- The error nodes, in the order of a walk. -/
def errors (t : Tree) : List Node :=
  (t.root?.map fun r => r.walk.filter Node.isError).getD []

end Tree

end Recipe
