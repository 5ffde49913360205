import Recipe.Json.Shape
import Recipe.Service.Params

/-!
# Shapes of places and edits

The shapes that many parameters share: places in documents, edits of their text, commands,
explanations, and diagnostics.
-/

namespace Recipe.Shape

/-- The uris. -/
def uri : Shape :=
  readBy Uri.ofJson?

/-- The positions in a document. -/
def position : Shape :=
  readBy ClientPosition.ofJson?

/-- The ranges of a document. -/
def range : Shape :=
  readBy Params.range?

/-- The names of documents. -/
def documentId : Shape :=
  readBy Params.documentId?

/-- Names given by a number or a string. -/
def token : Shape :=
  either signedWord str

/-- The field by which a client asks to be told how the work proceeds. -/
def workDone : List Field :=
  [.optional "workDoneToken" token]

/-- The fields by which a client asks to be told how the work proceeds, and of its results. -/
def progress : List Field :=
  .optional "partialResultToken" token :: workDone

/-- The fields of what concerns a document. -/
def inDocument : List Field :=
  [.required "textDocument" documentId]

/-- The fields of what concerns a range of a document. -/
def inRange : List Field :=
  inDocument ++ [.required "range" range]

/-- The fields of what concerns a place in a document. -/
def atPlace : List Field :=
  inDocument ++ [.required "position" position]

/-- Ranges of a named document. -/
def location : Shape :=
  record [.required "uri" uri, .required "range" range]

/-- Replacements of a range. -/
def textEdit : Shape :=
  record [.required "range" range, .required "newText" str]

/-- Commands with a title. -/
def command : Shape :=
  record [.required "title" str, .required "command" str, .optional "arguments" (list any)]

/-- The kinds of marked-up text. -/
def markupKind : Shape :=
  oneOf ["plaintext", "markdown"]

/-- Text for people, with or without markup. -/
def explanation : Shape :=
  either str (record [.required "kind" markupKind, .required "value" str])

/-- Diagnostics. -/
def diagnostic : Shape :=
  record
    [.required "range" range, .optional "severity" signedWord, .optional "code" token,
      .optional "codeDescription" (record [.required "href" uri]), .optional "source" str,
      .required "message" str,
      .optional "relatedInformation"
        (list (record [.required "location" location, .required "message" str])),
      .optional "tags" (list signedWord), .optional "data" any]

end Recipe.Shape
