import Recipe.Service.Shape.Document

/-!
# Shapes of introductions

A client introduces itself with what it can do. Little of it matters to the service, but all of it
has to be well formed.
-/

namespace Recipe.Shape

/-- Records of fields that may each be true or false. -/
def switches (names : List String) : List Field :=
  names.map fun name => .optional name bool

/-- The field of what a client can register later. -/
def registered : List Field :=
  switches ["dynamicRegistration"]

/-- Records of a set of values. -/
def valueSet (s : Shape) : Shape :=
  record [.required "valueSet" (list s)]

/-- Records of the kinds of symbols, or the like, that a client knows. -/
def knownKinds (s : Shape) : Shape :=
  record [.optional "valueSet" (list s)]

/-- The tags that a client knows; a truth value says whether it knows any. -/
def knownTags : Field :=
  .defaulted "tagSupport" (nullable (either bool (valueSet signedWord)))

/-- The properties that a client can ask for later. -/
def resolved : Field :=
  .optional "resolveSupport" (record [.required "properties" (list str)])

/-- What a client can do with completions. -/
def completionAbilities : Shape :=
  record
    (registered ++
      [.optional "completionItem" (record
          (switches ["snippetSupport", "commitCharactersSupport"] ++
            [.optional "documentationFormat" (list markupKind)] ++
            switches ["deprecatedSupport", "preselectSupport"] ++
            [knownTags] ++ switches ["insertReplaceSupport"] ++
            [resolved, .optional "insertTextModeSupport" (valueSet signedWord)] ++
            switches ["labelDetailsSupport"])),
        .optional "completionItemKind" (knownKinds signedWord), .optional "contextSupport" bool,
        .optional "insertTextMode" signedWord,
        .optional "completionList" (record [.optional "itemDefaults" (list str)])])

/-- What a client can do with signatures. -/
def signatureAbilities : Shape :=
  record
    (registered ++
      [.optional "signatureInformation" (record
          [.optional "documentationFormat" (list markupKind),
            .optional "parameterInformation" (record (switches ["labelOffsetSupport"])),
            .optional "activeParameterSupport" bool]),
        .optional "contextSupport" bool])

/-- What a client can do with actions. -/
def actionAbilities : Shape :=
  record
    (registered ++
      [.optional "codeActionLiteralSupport"
          (record [.required "codeActionKind" (valueSet str)])] ++
      switches ["isPreferredSupport", "disabledSupport", "dataSupport"] ++
      [resolved] ++ switches ["honorsChangeAnnotations"])

/-- What a client can do with the meaning of words. -/
def tokenAbilities : Shape :=
  record
    (registered ++
      [.required "requests" (record
          [.optional "range" bool,
            .optional "full" (either bool (record (switches ["delta"])))]),
        .required "tokenTypes" (list str), .required "tokenModifiers" (list str),
        .required "formats" (list str)] ++
      switches ["overlappingTokenSupport", "multilineTokenSupport", "serverCancelSupport",
        "augmentsSyntaxTokens"])

/-- What a client can do with parts of a text that it hides. -/
def foldingAbilities : Shape :=
  record
    (registered ++
      [.optional "rangeLimit" word, .optional "lineFoldingOnly" bool,
        .optional "foldingRangeKind" (knownKinds (oneOf ["comment", "imports", "region"])),
        .optional "foldingRange" (record (switches ["collapsedText"]))])

/-- What a client can do with a document. -/
def documentAbilities : Shape :=
  let plain := record registered
  let links := record (registered ++ switches ["linkSupport"])
  record
    [.optional "synchronization"
        (record (registered ++ switches ["willSave", "willSaveWaitUntil", "didSave"])),
      .optional "completion" completionAbilities,
      .optional "hover" (record (registered ++ [.optional "contentFormat" (list markupKind)])),
      .optional "signatureHelp" signatureAbilities, .optional "references" plain,
      .optional "documentHighlight" plain,
      .optional "documentSymbol" (record
        (registered ++ [.optional "symbolKind" (knownKinds signedWord)] ++
          switches ["hierarchicalDocumentSymbolSupport"] ++ [knownTags])),
      .optional "formatting" plain, .optional "rangeFormatting" plain,
      .optional "onTypeFormatting" plain, .optional "declaration" links,
      .optional "definition" links, .optional "typeDefinition" links,
      .optional "implementation" links, .optional "codeAction" actionAbilities,
      .optional "codeLens" plain,
      .optional "documentLink" (record (registered ++ switches ["tooltipSupport"])),
      .optional "colorProvider" plain,
      .optional "rename" (record
        (registered ++ switches ["prepareSupport"] ++
          [.optional "prepareSupportDefaultBehavior" signedWord] ++
          switches ["honorsChangeAnnotations"])),
      .optional "publishDiagnostics" (record
        (switches ["relatedInformation"] ++ [knownTags] ++
          switches ["versionSupport", "codeDescriptionSupport", "dataSupport"])),
      .optional "foldingRange" foldingAbilities, .optional "selectionRange" plain,
      .optional "linkedEditingRange" plain, .optional "callHierarchy" plain,
      .optional "semanticTokens" tokenAbilities, .optional "moniker" plain,
      .optional "typeHierarchy" plain, .optional "inlineValue" plain,
      .optional "inlayHint" (record (registered ++ [resolved])),
      .optional "diagnostic" (record (registered ++ switches ["relatedDocumentSupport"]))]

/-- What a client can do with edits of a workspace. -/
def editAbilities : Shape :=
  record
    [.optional "documentChanges" bool,
      .optional "resourceOperations" (list (oneOf ["create", "rename", "delete"])),
      .optional "failureHandling"
        (oneOf ["abort", "transactional", "textOnlyTransactional", "undo"]),
      .optional "normalizesLineEndings" bool,
      .optional "changeAnnotationSupport" (record (switches ["groupsOnLabel"]))]

/-- What a client can do with a workspace. -/
def workspaceAbilities : Shape :=
  let plain := record registered
  let refreshed := record (switches ["refreshSupport"])
  record
    [.optional "applyEdit" bool, .optional "workspaceEdit" editAbilities,
      .optional "didChangeConfiguration" plain,
      .optional "didChangeWatchedFiles"
        (record (registered ++ switches ["relativePatternSupport"])),
      .optional "symbol" (record
        (registered ++
          [.optional "symbolKind" (knownKinds signedWord), knownTags, resolved])),
      .optional "executeCommand" plain, .optional "workspaceFolders" bool,
      .optional "configuration" bool, .optional "semanticTokens" refreshed,
      .optional "codeLens" refreshed,
      .optional "fileOperations" (record
        (registered ++ switches ["didCreate", "willCreate", "didRename", "willRename",
          "didDelete", "willDelete"])),
      .optional "inlineValue" refreshed, .optional "inlayHint" refreshed,
      .optional "diagnostic" refreshed]

/-- What a client can do with its window. -/
def windowAbilities : Shape :=
  record
    [.optional "workDoneProgress" bool,
      .optional "showMessage" (record
        [.optional "messageActionItem" (record (switches ["additionalPropertiesSupport"]))]),
      .optional "showDocument" (record [.required "support" bool])]

/-- What a client can do besides. -/
def generalAbilities : Shape :=
  record
    [.optional "regularExpressions"
        (record [.required "engine" str, .optional "version" str]),
      .optional "markdown" (record
        [.required "parser" str, .optional "version" str, .optional "allowedTags" (list str)]),
      .optional "staleRequestSupport" (record
        [.required "cancel" bool, .required "retryOnContentModified" (list str)]),
      .optional "positionEncodings" (list str)]

/-- What a client can do. -/
def abilities : Shape :=
  record
    [.optional "workspace" workspaceAbilities, .optional "textDocument" documentAbilities,
      .optional "window" windowAbilities, .optional "general" generalAbilities,
      .optional "experimental" any]

/-- A client's introduction. -/
def introduction : Shape :=
  record
    [.optional "processId" word, .optional "rootPath" str, .defaulted "rootUri" (nullable uri),
      .optional "initializationOptions" any, .required "capabilities" abilities,
      .defaulted "trace" (nullable (oneOf ["off", "messages", "verbose"])),
      .optional "workspaceFolders"
        (list (record [.required "uri" uri, .required "name" str])),
      .optional "clientInfo" (record [.required "name" str, .optional "version" str]),
      .optional "locale" str]

end Recipe.Shape
