import Recipe.Server.Wire
import Recipe.Service.Shape.Client
import Recipe.Service.Shape.Request

/-!
# Methods

A message names a method. `Handler.ofMethod?` says what each method does with its parameters; the
methods that open and close the exchange with a client are not among them.
-/

namespace Recipe

/-- How a method is handled once a client has introduced itself. -/
inductive Handler where
  /-- A notification that makes an event for the server, if its parameters are understood. -/
  | notification (event : Json → Option ServerEvent)
  /-- A notification that changes nothing. -/
  | ignored
  /-- A request to the server, whose parameters have a shape. -/
  | request (shape : Shape) (answer : Server → Json → Option Json)
  /-- A request of the protocol that this service does not offer. -/
  | unsupported (shape : Shape)

/-- The requests of the protocol that are known and not offered, with their parameters. -/
def unsupportedMethods : List (String × Shape) :=
  Shape.documentRequests ++ Shape.placeRequests ++ Shape.workspaceRequests

/-- The notifications of the protocol that change nothing. -/
def ignoredMethods : List String :=
  ["initialized", "textDocument/willSave", "textDocument/didSave",
    "workspace/didChangeWorkspaceFolders", "workspace/didCreateFiles", "workspace/didRenameFiles",
    "workspace/didDeleteFiles", "workspace/didChangeWatchedFiles"]

/-- The handler of a method, apart from those that change the phase. -/
def Handler.ofMethod? : String → Option Handler
  | "textDocument/didOpen" => some (.notification Params.opened?)
  | "textDocument/didChange" => some (.notification Params.changed?)
  | "textDocument/didClose" => some (.notification Params.closed?)
  | "workspace/didChangeConfiguration" => some (.notification Params.configured?)
  | "textDocument/documentSymbol" =>
    some (.request .ofDocument fun s j =>
      (Params.document? j).map fun uri => .orNull (.list ClientEntry.toJson) (s.outline? uri))
  | "workspace/symbol" =>
    some (.request .ofQuery fun s j =>
      (Params.query? j).map fun q => .list ClientSymbol.toJson (s.workspaceSymbols q))
  | "textDocument/hover" =>
    some (.request .ofPoint fun s j =>
      (Params.place? j).map fun (uri, p) => .orNull ClientHover.toJson (s.hover? uri p))
  | "textDocument/definition" =>
    some (.request .ofPlace fun s j =>
      (Params.place? j).map fun (uri, p) => .orNull Location.toJson (s.definition? uri p))
  | "bitbake/getEmbeddedLanguageDocInfos" =>
    some (.request .any fun s j =>
      (Params.embeddedPlace? j).map fun (uri, p) =>
        .orNull EmbeddedInfo.toJson (s.embeddedInfo? uri p))
  | method =>
    if ignoredMethods.contains method then some .ignored
    else (unsupportedMethods.lookup method).map .unsupported

/-- Whether a method is an optional extension of the protocol, which may go unanswered. -/
def isExtension (method : String) : Bool :=
  "$/".toList.isPrefixOf method.toList

end Recipe
