import Recipe.Service.Shape.Document

/-!
# Shapes of edits

Edits that concern several documents, and the actions that make them.
-/

namespace Recipe.Shape

/-- Edits of one document. -/
def documentEdit : Shape :=
  record
    [.required "textDocument" (record [.required "uri" uri, .optional "version" signedWord]),
      .required "edits" (list textEdit)]

/-- What to do if a file is there already. -/
def fileOptions : Shape :=
  record [.optional "overwrite" bool, .optional "ignoreIfExists" bool]

/-- Files that are made, renamed or deleted. -/
def fileOperation : Shape :=
  tagged "kind"
    [("create", record
        [.required "uri" uri, .optional "options" fileOptions, .optional "annotationId" str]),
      ("rename", record
        [.required "oldUri" uri, .required "newUri" uri, .optional "options" fileOptions,
          .optional "annotationId" str]),
      ("delete", record
        [.required "uri" uri,
          .optional "options" (record
            [.optional "recursive" bool, .optional "ignoreIfNotExists" bool,
              .optional "annotationId" str])])]

/-- Edits of a workspace. -/
def workspaceEdit : Shape :=
  record
    [.defaulted "changes" (nullable (table (fun k => uri (.str k)) (list textEdit))),
      .optional "documentChanges" (list (either fileOperation documentEdit)),
      .optional "changeAnnotations"
        (table (fun _ => true) (record
          [.required "label" str, .optional "needsConfirmation" bool,
            .optional "description" str]))]

/-- Actions that a client offers to its user. -/
def codeAction : Shape :=
  record
    [.required "title" str, .optional "kind" str, .optional "diagnostics" (list diagnostic),
      .optional "edit" workspaceEdit, .optional "command" command, .optional "isPreferred" bool,
      .optional "disabled" (record [.required "reason" str]), .optional "data" any]

/-- What an action is asked for. -/
def codeActionContext : Shape :=
  record
    [.required "diagnostics" (list diagnostic), .optional "only" (list str),
      .optional "triggerKind" signedWord]

end Recipe.Shape
