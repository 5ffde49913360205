/-!
# Kinds of nodes

The kinds of a recipe's tree: statements first, then the parts of statements, then the leaves.
`Kind.label` is the name under which a kind is shown.
-/

namespace Recipe

/-- What a node of a recipe's tree stands for. -/
inductive Kind where
  | sourceFile
  | variableAssignment
  | variableFlag
  | override
  | string
  | variableExpansion
  | inlinePython
  | functionDefinition
  | pythonFunctionDefinition
  | pythonDefinition
  | inheritDirective
  | includeDirective
  | requireDirective
  | exportStatement
  | unsetStatement
  | addTaskStatement
  | delTaskStatement
  | addHandlerStatement
  | exportFunctionsStatement
  | identifier
  | keyword
  | operator
  | punctuation
  | stringContent
  | shellContent
  | pythonContent
  | path
  | comment
  | error
deriving DecidableEq, Repr, Inhabited

namespace Kind

/-- The name of a kind. -/
def label : Kind → String
  | sourceFile => "source_file"
  | variableAssignment => "variable_assignment"
  | variableFlag => "variable_flag"
  | override => "override"
  | string => "string"
  | variableExpansion => "variable_expansion"
  | inlinePython => "inline_python"
  | functionDefinition => "function_definition"
  | pythonFunctionDefinition => "python_function_definition"
  | pythonDefinition => "python_definition"
  | inheritDirective => "inherit_directive"
  | includeDirective => "include_directive"
  | requireDirective => "require_directive"
  | exportStatement => "export_statement"
  | unsetStatement => "unset_statement"
  | addTaskStatement => "addtask_statement"
  | delTaskStatement => "deltask_statement"
  | addHandlerStatement => "addhandler_statement"
  | exportFunctionsStatement => "export_functions_statement"
  | identifier => "identifier"
  | keyword => "keyword"
  | operator => "operator"
  | punctuation => "punctuation"
  | stringContent => "string_content"
  | shellContent => "shell_content"
  | pythonContent => "python_content"
  | path => "path"
  | comment => "comment"
  | error => "ERROR"

/-- Every kind, in the order of their declaration. -/
def all : List Kind :=
  [sourceFile, variableAssignment, variableFlag, override, string, variableExpansion, inlinePython,
    functionDefinition, pythonFunctionDefinition, pythonDefinition, inheritDirective,
    includeDirective, requireDirective, exportStatement, unsetStatement, addTaskStatement,
    delTaskStatement, addHandlerStatement, exportFunctionsStatement, identifier, keyword, operator,
    punctuation, stringContent, shellContent, pythonContent, path, comment, error]

/-- The kind of a name. -/
def ofLabel? (s : String) : Option Kind :=
  all.find? (·.label == s)

end Kind

end Recipe
