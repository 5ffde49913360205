import Recipe.Diagnostic
import Recipe.Symbol

/-!
# Documents and navigation

A document is a tree with its uri and its declarations. The word at a position is looked up in the
declarations: `definition?` gives the symbol, `hover?` describes it. Inside an expansion the whole
expansion, braces included, stands for its name.
-/

namespace Recipe

/-- A recipe that has been read. -/
structure Document where
  uri : Uri
  tree : Tree
  declarations : Declarations

/-- A description of a symbol, and the range of the word that names it. -/
structure Hover where
  range : Range
  contents : String
deriving DecidableEq, Repr

namespace Document

/-- The document of a tree. -/
def ofTree (uri : Uri) (tree : Tree) : Document :=
  { uri, tree, declarations := .ofTree uri tree }

/-- Reads a document; a text that is refused gives a tree without a root. -/
def read (limit : Nat) (uri : Uri) (source : String) : Document :=
  ofTree uri ((parse limit source).toOption.getD (.withoutRoot source))

/-- The text of a document. -/
def text (d : Document) : String :=
  d.tree.source

/-- The deepest node at a position. -/
def nodeAt? (d : Document) (p : Position) : Option Node :=
  d.tree.root?.map (·.deepest p)

/-- The text of the leaf at a position without the blanks around it, unless it is blank. -/
def wordAt? (d : Document) (p : Position) : Option String :=
  (d.nodeAt? p).bind fun n =>
    if n.children.isEmpty then (n.text?.map Text.trimString).filter (!·.isEmpty) else none

/-- The word that a path from a node leads to: the name of the first expansion on it, or else the
node at its end if that has no children and is not blank. -/
def wordOnPath (n : Node) : List Nat → Option Node
  | [] =>
    if n.children.isEmpty && !n.text?.any Text.isBlankString then some n else none
  | i :: path =>
    n.children[i]?.bind fun c =>
      if c.kind = .variableExpansion then c.child? .identifier else wordOnPath c path

/-- The node of the word at a position. -/
def wordNode? (d : Document) (p : Position) : Option Node :=
  d.tree.root?.bind fun root => wordOnPath root (root.pathTo p)

/-- The symbol that a word node names. -/
def symbolOf? (d : Document) (word : Node) : Option Symbol :=
  word.text?.bind fun text => d.declarations.get? (Text.trimString text)

/-- The symbol that is named at a position. -/
def definition? (d : Document) (p : Position) : Option Symbol :=
  (d.wordNode? p).bind d.symbolOf?

/-! ## Hover -/

/-- The statement that declares a symbol: the first one whose name has the symbol's range. -/
def definingStatement? (d : Document) (s : Symbol) : Option Node :=
  d.tree.statements.find? fun n => n.declaredName?.any fun (name, _) => name.range = s.range

/-- The first line of a text without the blanks at its end. -/
def firstLine (s : String) : String :=
  String.ofList (Text.trimEnd (s.toList.takeWhile (· != '\n')))

/-- What a symbol is called in a description. -/
def kindWord (k : SymbolKind) : String :=
  if k = .function then "function" else "variable"

/-- The parts of a description: kind and name, first line of the statement, line number. -/
def describe (d : Document) (s : Symbol) : List String :=
  ["**" ++ kindWord s.kind ++ "** \x60" ++ s.name ++ "\x60"]
    ++ (d.definingStatement? s).toList.map (fun n =>
      "\x60\x60\x60bitbake\n" ++ firstLine (d.tree.textOf n) ++ "\n\x60\x60\x60")
    ++ ["Defined on line " ++ toString (s.range.start.line + 1)]

/-- The description of the symbol that is named at a position. -/
def hover? (d : Document) (p : Position) : Option Hover :=
  (d.wordNode? p).bind fun word =>
    (d.symbolOf? word).map fun s =>
      { range := word.range, contents := String.intercalate "\n\n" (d.describe s) }

end Document

end Recipe
