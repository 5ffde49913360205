import Recipe.Service.Shape.Document

/-!
# Shapes of items

The items that a client may send back to ask for more: links, lenses, hints, completions, symbols.
-/

namespace Recipe.Shape

/-- Items of a hierarchy. What tags are depends on the hierarchy. -/
def hierarchyItem (tags : Shape) : Shape :=
  record
    [.required "name" str, .required "kind" signedWord, .optional "tags" tags,
      .optional "detail" str, .required "uri" uri, .required "range" range,
      .required "selectionRange" range, .optional "data" any]

/-- Links in a document. -/
def documentLink : Shape :=
  record
    [.required "range" range, .optional "target" uri, .optional "tooltip" str,
      .optional "data" any]

/-- Commands shown with a range. -/
def codeLens : Shape :=
  record [.required "range" range, .optional "command" command, .optional "data" any]

/-- Parts of a hint's label. -/
def hintPart : Shape :=
  record
    [.required "value" str, .optional "tooltip" explanation, .optional "location" location,
      .optional "command" command]

/-- Hints shown in the text. -/
def inlayHint : Shape :=
  record
    [.required "position" position, .required "label" (either str (list hintPart)),
      .optional "kind" signedWord, .optional "textEdits" (list textEdit),
      .optional "tooltip" explanation, .optional "paddingLeft" bool,
      .optional "paddingRight" bool, .optional "data" any]

/-- Edits of a completion, which replace one range or one of two. -/
def completionEdit : Shape :=
  either textEdit
    (record [.required "newText" str, .required "insert" range, .required "replace" range])

/-- Completions. -/
def completionItem : Shape :=
  record
    [.required "label" str,
      .optional "labelDetails" (record [.optional "detail" str, .optional "description" str]),
      .optional "kind" signedWord, .optional "detail" str, .optional "documentation" explanation,
      .optional "deprecated" bool, .optional "preselect" bool, .optional "sortText" str,
      .optional "filterText" str, .optional "insertText" str,
      .optional "insertTextFormat" signedWord, .optional "insertTextMode" signedWord,
      .optional "textEdit" completionEdit, .optional "additionalTextEdits" (list textEdit),
      .optional "command" command, .optional "commitCharacters" (list str), .optional "data" any,
      .optional "tags" (list signedWord)]

/-- How a completion was asked for. -/
def completionContext : Shape :=
  record [.required "triggerKind" signedWord, .optional "triggerCharacter" str]

/-- Parameters of a signature, each given by its text or by where it stands in the signature. -/
def signatureParameter : Shape :=
  record [.required "label" (either str (pair word)), .optional "documentation" explanation]

/-- Signatures that a client shows. -/
def signatureHelp : Shape :=
  record
    [.required "signatures" (list (record
        [.required "label" str, .optional "documentation" explanation,
          .optional "parameters" (list signatureParameter), .optional "activeParameter" word])),
      .optional "activeSignature" word, .optional "activeParameter" word]

/-- How a signature was asked for. -/
def signatureContext : Shape :=
  record
    [.required "triggerKind" signedWord, .optional "triggerCharacter" str,
      .required "isRetrigger" bool, .optional "activeSignatureHelp" signatureHelp]

/-- Symbols of a workspace. -/
def workspaceSymbol : Shape :=
  record
    [.required "name" str, .required "kind" signedWord, .optional "tags" (list signedWord),
      .optional "containerName" str,
      .required "location" (either location (record [.required "uri" uri])),
      .optional "data" any]

/-- How a text should be laid out. Fields of a client's own are plain values. -/
def formattingOptions : Shape :=
  extended
    [.required "tabSize" word, .required "insertSpaces" bool,
      .optional "trimTrailingWhitespace" bool, .optional "insertFinalNewline" bool,
      .optional "trimFinalNewlines" bool]
    (either bool token)

/-- Colours. -/
def color : Shape :=
  record
    [.required "red" number, .required "green" number, .required "blue" number,
      .required "alpha" number]

end Recipe.Shape
