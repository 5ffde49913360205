import Recipe.Symbol

/-!
# Outlines

The outline of a recipe lists its statements in order: what they declare, and the files and classes
they take in. A name that is assigned twice stands in it twice.
-/

namespace Recipe

/-- An entry of an outline: `range` is the statement's, `selection` that of the name or path. -/
structure OutlineEntry where
  name : String
  detail : String
  kind : SymbolKind
  range : Range
  selection : Range
deriving DecidableEq, Repr

namespace OutlineEntry

/-- The entries of a directive, one for each path. -/
def ofPaths (n : Node) (kind : SymbolKind) (detail : String) : List OutlineEntry :=
  (n.childrenOfKind .path).map fun path =>
    { name := path.text?.getD "", detail, kind, range := n.range, selection := path.range }

/-- How an assignment is written: its overrides and its operator. -/
def assignmentDetail (n : Node) : String :=
  let names := ((n.childrenOfKind .override).filterMap (·.child? .identifier)).filterMap Node.text?
  let operator := ((n.child? .operator).bind Node.text?).getD "="
  let detail := String.join (names.map (":" ++ ·)) ++ " " ++ operator
  String.ofList (Text.trimStart detail.toList)

/-- Whether a keyword stands in a statement. -/
def hasKeyword (n : Node) (word : String) : Bool :=
  (n.childrenOfKind .keyword).any fun k => k.text? == some word

/-- How a declaration is written. -/
def declarationDetail (n : Node) : String :=
  match n.kind with
  | .exportStatement =>
    match n.child? .variableAssignment with
    | some assignment => "export " ++ assignmentDetail assignment
    | none => "export"
  | .variableAssignment => assignmentDetail n
  | .functionDefinition =>
    if hasKeyword n "fakeroot" then "fakeroot shell task" else "shell task"
  | .pythonFunctionDefinition => "python task"
  | .pythonDefinition => "python function"
  | kind => kind.label

/-- The entry of a declaration. -/
def ofDeclaration? (n : Node) : Option OutlineEntry :=
  n.declaredName?.map fun (name, kind) =>
    { name := name.text?.getD "", detail := declarationDetail n, kind, range := n.range,
      selection := name.range }

/-- The entries of a statement. -/
def ofStatement (n : Node) : List OutlineEntry :=
  match n.kind with
  | .inheritDirective => ofPaths n .module "inherit"
  | .includeDirective => ofPaths n .file "include"
  | .requireDirective => ofPaths n .file "require"
  | _ => (ofDeclaration? n).toList

end OutlineEntry

/-- The outline of a tree. -/
def Tree.outline (t : Tree) : List OutlineEntry :=
  t.statements.flatMap OutlineEntry.ofStatement

end Recipe
