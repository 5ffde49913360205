import Recipe.Server.Requests

/-!
# Parameters

The parameters of the messages that a service understands. A message whose parameters have another
shape is not understood; fields that are not asked for do not matter.
-/

namespace Recipe

/-- Reads a uri. -/
def Uri.ofJson? (j : Json) : Option Uri :=
  j.str?.bind fun s => (Uri.parse s).toOption

/-- Reads a position. -/
def ClientPosition.ofJson? (j : Json) : Option ClientPosition :=
  match j.record? ["line", "character"] with
  | some [some line, some character] =>
    line.word?.bind fun line => character.word?.map fun character => ⟨line, character⟩
  | _ => none

namespace Params

/-- Reads the name of a document. -/
def documentId? (j : Json) : Option Uri :=
  match j.record? ["uri"] with
  | some [some uri] => Uri.ofJson? uri
  | _ => none

/-- Reads the name of a document in a field of its own. -/
def document? (j : Json) : Option Uri :=
  (j.field? "textDocument").bind documentId?

/-- Reads a place in a document. -/
def place? (j : Json) : Option (Uri × ClientPosition) :=
  match j.object? ["textDocument", "position"] with
  | some [some d, some p] =>
    (documentId? d).bind fun uri => (ClientPosition.ofJson? p).map fun p => (uri, p)
  | _ => none

/-- Reads a place in a document that is named directly. -/
def embeddedPlace? (j : Json) : Option (Uri × ClientPosition) :=
  match j.record? ["uri", "position"] with
  | some [some u, some p] =>
    (Uri.ofJson? u).bind fun uri => (ClientPosition.ofJson? p).map fun p => (uri, p)
  | _ => none

/-- Reads a query. -/
def query? (j : Json) : Option String :=
  (j.object? ["query"]).bind fun
    | [some q] => q.str?
    | _ => none

/-- Reads a document that is opened. -/
def opened? (j : Json) : Option ServerEvent :=
  match j.record? ["textDocument"] with
  | some [some d] =>
    match d.record? ["uri", "languageId", "version", "text"] with
    | some [some uri, some language, some version, some text] => do
      let uri ← Uri.ofJson? uri
      let _ ← language.str?
      let version ← version.signedWord?
      let text ← text.str?
      pure (.opened uri version text)
    | _ => none
  | _ => none

/-- Reads a range. -/
def range? (j : Json) : Option ClientRange :=
  match j.record? ["start", "end"] with
  | some [some a, some b] =>
    (ClientPosition.ofJson? a).bind fun a => (ClientPosition.ofJson? b).map fun b => ⟨a, b⟩
  | _ => none

/-- Reads the text of a change. Its range, if it has one, must be well formed. -/
def change? (j : Json) : Option String :=
  match j.record? ["range", "rangeLength", "text"] with
  | some [range, length, some text] => do
    let _ ← Json.optional? range? range
    let _ ← Json.optional? Json.word? length
    text.str?
  | _ => none

/-- Reads a document that changed. -/
def changed? (j : Json) : Option ServerEvent :=
  match j.record? ["textDocument", "contentChanges"] with
  | some [some d, some changes] =>
    match d.record? ["uri", "version"] with
    | some [some uri, some version] => do
      let uri ← Uri.ofJson? uri
      let version ← version.signedWord?
      let texts ← (← changes.items?).mapM change?
      pure (.changed uri version texts)
    | _ => none
  | _ => none

/-- Reads a document that is closed. -/
def closed? (j : Json) : Option ServerEvent :=
  match j.record? ["textDocument"] with
  | some [some d] => (documentId? d).map .closed
  | _ => none

/-- Reads a configuration. -/
def configured? (j : Json) : Option ServerEvent :=
  match j.record? ["settings"] with
  | some [some settings] => some (.configured settings)
  | _ => none

/-- Reads the position encodings that a client offers among its capabilities. -/
def encodings? (capabilities : Json) : Option (List String) := do
  let [_, _, _, general, _] ← capabilities.record?
    ["workspace", "textDocument", "window", "general", "experimental"] | none
  let offered ← Json.optional? (fun g => do
    let [_, _, _, encodings] ← g.record?
      ["regularExpressions", "markdown", "staleRequestSupport", "positionEncodings"] | none
    Json.optional? (fun es => do (← es.items?).mapM Json.str?) encodings) general
  pure (offered.join.getD [])

/-- Reads what matters of a client's introduction. -/
def handshake? (j : Json) : Option ServerEvent := do
  let _ :: _ :: _ :: options :: some capabilities :: _ ← j.record?
    ["processId", "rootPath", "rootUri", "initializationOptions", "capabilities", "trace",
      "workspaceFolders", "clientInfo", "locale"] | none
  let options? ← Json.optional? some options
  let encodings ← encodings? capabilities
  pure (.handshake options? encodings)

end Params

end Recipe
