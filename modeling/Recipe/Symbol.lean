import Recipe.Tree
import Recipe.Table
import Recipe.Uri.Parse

/-!
# Symbols

The names that a recipe declares: variables by assignment, functions by task and definition. A name
that is declared more than once stands for its last declaration.
-/

namespace Recipe

/-- What a name stands for. -/
inductive SymbolKind where
  | file
  | module
  | function
  | var
deriving DecidableEq, Repr, Inhabited

/-- The number of a kind in the language server protocol. -/
def SymbolKind.code : SymbolKind → Nat
  | file => 1
  | module => 2
  | function => 12
  | var => 13

/-- A declared name, with the range of the name where it is declared. -/
structure Symbol where
  name : String
  kind : SymbolKind
  range : Range
  uri : Uri
deriving DecidableEq, Repr

/-- The name of a python task that has none. -/
def anonymousTask : String :=
  "__anonymous"

namespace Node

/-- The name node of an assignment. -/
def assignedName? (n : Node) : Option Node :=
  n.child? .identifier

/-- The name node of a task or a definition, unless it is anonymous. -/
def functionName? (n : Node) : Option Node :=
  (n.child? .identifier).filter fun name => name.text? != some anonymousTask

/-- The name node that a statement declares, and what the name stands for. -/
def declaredName? (n : Node) : Option (Node × SymbolKind) :=
  match n.kind with
  | .variableAssignment => n.assignedName?.map fun name => (name, .var)
  | .exportStatement =>
    ((n.child? .variableAssignment).bind assignedName?).map fun name => (name, .var)
  | .functionDefinition | .pythonFunctionDefinition | .pythonDefinition =>
    n.functionName?.map fun name => (name, .function)
  | _ => none

end Node

/-- The symbol that a statement of a document declares. -/
def Symbol.ofStatement? (uri : Uri) (n : Node) : Option Symbol :=
  n.declaredName?.map fun (name, kind) =>
    { name := name.text?.getD "", kind, range := name.range, uri }

/-- The declared names of a document. -/
abbrev Declarations :=
  Table String Symbol

namespace Declarations

/-- The declarations of statements in order; a later one takes the place of an earlier one. -/
def ofStatements (uri : Uri) (ns : List Node) : Declarations :=
  (ns.filterMap (Symbol.ofStatement? uri)).foldl (fun t s => t.insert s.name s) .empty

/-- The declarations of a tree. -/
def ofTree (uri : Uri) (t : Tree) : Declarations :=
  ofStatements uri t.statements

/-- The symbols in the order of their names. -/
def sorted (t : Declarations) : List Symbol :=
  t.values.mergeSort fun a b => !decide (b.name < a.name)

end Declarations

end Recipe
