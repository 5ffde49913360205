import Recipe.Service.Shape.Edit
import Recipe.Service.Shape.Item

/-!
# Shapes of requests

The parameters of the requests that the protocol knows, by method. Where a request also tells how
its progress is to be followed, its parameters are always written as an object.
-/

namespace Recipe.Shape

/-- The parameters of a request about a document. -/
def ofDocument : Shape :=
  object (inDocument ++ progress)

/-- The parameters of a request about a place in a document. -/
def ofPlace : Shape :=
  object (atPlace ++ progress)

/-- The parameters of a request about a place in a document that has one result. -/
def ofPoint : Shape :=
  object (atPlace ++ workDone)

/-- The parameters of a request for symbols by name. -/
def ofQuery : Shape :=
  object (.required "query" str :: progress)

/-- The parameters of a request about files, each a record of some fields. -/
def ofFiles (names : List String) : Shape :=
  record [.required "files" (list (record (names.map fun name => .required name str)))]

/-- The parameters of a request about an item of a hierarchy. -/
def ofHierarchy (tags : Shape) : Shape :=
  object (.required "item" (hierarchyItem tags) :: progress)

/-- The requests about documents as a whole that a service need not offer. -/
def documentRequests : List (String × Shape) :=
  [("textDocument/willSaveWaitUntil", record (inDocument ++ [.required "reason" signedWord])),
    ("textDocument/documentLink", ofDocument),
    ("documentLink/resolve", documentLink),
    ("textDocument/codeLens", ofDocument),
    ("codeLens/resolve", codeLens),
    ("textDocument/foldingRange", ofDocument),
    ("textDocument/selectionRange",
      object (inDocument ++ [.required "positions" (list position)] ++ progress)),
    ("textDocument/semanticTokens/full", ofDocument),
    ("textDocument/semanticTokens/full/delta",
      object (inDocument ++ [.required "previousResultId" str] ++ progress)),
    ("textDocument/semanticTokens/range", object (inRange ++ progress)),
    ("textDocument/inlineValue",
      object (inRange ++ workDone ++
        [.required "context"
          (record [.required "frameId" signedWord, .required "stoppedLocation" range])])),
    ("textDocument/inlayHint", object (inRange ++ workDone)),
    ("inlayHint/resolve", inlayHint),
    ("textDocument/diagnostic",
      object (inDocument ++ [.optional "identifier" str, .optional "previousResultId" str] ++
        progress)),
    ("textDocument/codeAction",
      object (inRange ++ [.required "context" codeActionContext] ++ progress)),
    ("codeAction/resolve", codeAction),
    ("textDocument/documentColor", ofDocument),
    ("textDocument/colorPresentation",
      object (inRange ++ [.required "color" color] ++ progress)),
    ("textDocument/formatting",
      object (inDocument ++ [.required "options" formattingOptions] ++ workDone)),
    ("textDocument/rangeFormatting",
      object (inRange ++ [.required "options" formattingOptions] ++ workDone))]

/-- The requests about places in documents that a service need not offer. -/
def placeRequests : List (String × Shape) :=
  [("textDocument/declaration", ofPlace),
    ("textDocument/typeDefinition", ofPlace),
    ("textDocument/implementation", ofPlace),
    ("textDocument/references",
      object (atPlace ++ progress ++
        [.required "context" (record [.required "includeDeclaration" bool])])),
    ("textDocument/prepareCallHierarchy", ofPoint),
    ("callHierarchy/incomingCalls", ofHierarchy (list signedWord)),
    ("callHierarchy/outgoingCalls", ofHierarchy (list signedWord)),
    ("textDocument/prepareTypeHierarchy", ofPoint),
    ("typeHierarchy/supertypes", ofHierarchy signedWord),
    ("typeHierarchy/subtypes", ofHierarchy signedWord),
    ("textDocument/documentHighlight", ofPlace),
    ("textDocument/moniker", ofPlace),
    ("textDocument/completion",
      object (atPlace ++ progress ++ [.optional "context" completionContext])),
    ("completionItem/resolve", completionItem),
    ("textDocument/signatureHelp",
      object (.optional "context" signatureContext :: atPlace ++ workDone)),
    ("textDocument/onTypeFormatting",
      object (atPlace ++ [.required "ch" str, .required "options" formattingOptions])),
    ("textDocument/rename", object (atPlace ++ [.required "newName" str] ++ workDone)),
    ("textDocument/prepareRename", record atPlace),
    ("textDocument/linkedEditingRange", ofPoint)]

/-- The requests about a workspace that a service need not offer. -/
def workspaceRequests : List (String × Shape) :=
  [("workspace/diagnostic",
      object (.optional "identifier" str ::
        .required "previousResultIds"
          (list (record [.required "uri" uri, .required "value" str])) :: progress)),
    ("workspaceSymbol/resolve", workspaceSymbol),
    ("workspace/willCreateFiles", ofFiles ["uri"]),
    ("workspace/willRenameFiles", ofFiles ["oldUri", "newUri"]),
    ("workspace/willDeleteFiles", ofFiles ["uri"]),
    ("workspace/executeCommand",
      object ([.required "command" str, .defaulted "arguments" (list any)] ++ workDone))]

end Recipe.Shape
