import Recipe.Server.Requests

/-!
# Wire values

The JSON values of what a server answers and sends. A part that is absent is left out of its object.
-/

namespace Recipe

/-- A value that may be missing, as null when it is. -/
def Json.orNull {α : Type} (encode : α → Json) : Option α → Json
  | some a => encode a
  | none => .null

/-- A list of values. -/
def Json.list {α : Type} (encode : α → Json) (as : List α) : Json :=
  .arr (as.map encode)

/-- The value of a uri. -/
def Uri.toJson (u : Uri) : Json :=
  .str u.text

/-- The value of a position. -/
def ClientPosition.toJson (p : ClientPosition) : Json :=
  .obj [("character", .nat p.character), ("line", .nat p.line)]

/-- The value of a range. -/
def ClientRange.toJson (r : ClientRange) : Json :=
  .obj [("end", r.stop.toJson), ("start", r.start.toJson)]

/-- The value of a location. -/
def Location.toJson (l : Location) : Json :=
  .obj [("range", l.range.toJson), ("uri", l.uri.toJson)]

/-- The value of a diagnostic. -/
def ClientDiagnostic.toJson (d : ClientDiagnostic) : Json :=
  .obj [("message", .str d.message), ("range", d.range.toJson),
    ("severity", .nat Diagnostic.severity), ("source", .str Diagnostic.source)]

/-- The value of an entry of an outline. -/
def ClientEntry.toJson (e : ClientEntry) : Json :=
  .obj [("detail", .str e.detail), ("kind", .nat e.kind.code), ("name", .str e.name),
    ("range", e.range.toJson), ("selectionRange", e.selection.toJson)]

/-- The value of a symbol. -/
def ClientSymbol.toJson (s : ClientSymbol) : Json :=
  .obj [("kind", .nat s.kind.code), ("location", s.location.toJson), ("name", .str s.name)]

/-- The value of a description. -/
def ClientHover.toJson (h : ClientHover) : Json :=
  .obj [("contents", .obj [("kind", .str "markdown"), ("value", .str h.contents)]),
    ("range", h.range.toJson)]

/-- What an embedded document is called in answers and notices. -/
def EmbeddedDocument.wireFields (d : EmbeddedDocument) : List (String × Json) :=
  [("languageId", .str d.language.editorId), ("languageType", .str d.language.label),
    ("uri", d.uri.toJson), ("version", .nat d.version)]

/-- The value of the place of a position in an embedded document. -/
def EmbeddedInfo.toJson (i : EmbeddedInfo) : Json :=
  .obj (i.document.wireFields ++ [("position", i.position.toJson)])

/-- The value of an embedded document with its text. -/
def EmbeddedDocument.toJson (d : EmbeddedDocument) : Json :=
  .obj (d.wireFields ++ [("text", .str d.text)])

/-- The value of the changes of a host's embedded documents. -/
def Changes.toJson (host : Uri) (c : Changes) : Json :=
  .obj [("changed", .list EmbeddedDocument.toJson c.changed), ("closed", .list Uri.toJson c.closed),
    ("hostUri", host.toJson), ("opened", .list EmbeddedDocument.toJson c.opened)]

/-- The method of a notice. -/
def Notice.method : Notice → String
  | .diagnostics .. => "textDocument/publishDiagnostics"
  | .warning .. => "window/showMessage"
  | .embedded .. => "bitbake/embeddedDocumentsChanged"

/-- The number of a warning among the kinds of messages. -/
def warningType : Nat :=
  2

/-- The parameters of a notice. -/
def Notice.params : Notice → Json
  | .diagnostics uri items version? =>
    .obj ([("diagnostics", .list ClientDiagnostic.toJson items), ("uri", uri.toJson)]
      ++ version?.toList.map fun v => ("version", .int v))
  | .warning message => .obj [("message", .str message), ("type", .nat warningType)]
  | .embedded host c => c.toJson host

/-- The value of a notice. -/
def Notice.toJson (n : Notice) : Json :=
  .obj [("jsonrpc", .str "2.0"), ("method", .str n.method), ("params", n.params)]

/-- What a server says about itself in answer to a client's introduction. -/
def Encoding.capabilities (e : Encoding) : Json :=
  .obj [("capabilities",
      .obj [("definitionProvider", .bool true), ("documentSymbolProvider", .bool true),
        ("hoverProvider", .bool true), ("positionEncoding", .str e.label),
        ("textDocumentSync", .nat 1), ("workspaceSymbolProvider", .bool true)]),
    ("serverInfo", .obj [("name", .str "bitbake-lsp"), ("version", .str "0.1.0")])]

end Recipe
