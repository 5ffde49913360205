import Recipe.Text.Blank
import Recipe.Tree

/-!
# Diagnostics

Each error node of a tree is a diagnostic with the node's range.
-/

namespace Recipe

/-- A fault in a recipe. -/
structure Diagnostic where
  range : Range
  message : String
deriving DecidableEq, Repr

namespace Diagnostic

/-- Every diagnostic is an error; this is its number in the language server protocol. -/
def severity : Nat :=
  1

/-- The source that diagnostics name. -/
def source : String :=
  "bitbake"

/-- The diagnostic of an error node: it quotes the node's text without the blanks around it. -/
def ofError (t : Tree) (n : Node) : Diagnostic :=
  let text := n.text?.getD (t.textOf n)
  ⟨n.range, "Invalid syntax \"" ++ Text.trimString text ++ "\""⟩

end Diagnostic

/-- The diagnostics of a tree in the order of its text. -/
def Tree.diagnostics (t : Tree) : List Diagnostic :=
  t.errors.map (Diagnostic.ofError t)

end Recipe
