import Recipe.Workspace.Basic
import Recipe.Embedded.Store
import Recipe.Server.Encoding
import Recipe.Server.Settings

/-!
# The server

A server keeps the documents that its client has open, the documents of the code embedded in them,
and a clock. Each event of the client updates these and may send notices: diagnostics, which are
published when a document's pass ends, warnings about texts that are too large, and changes of
embedded documents. After each event every wait that is over ends.
-/

namespace Recipe

/-- How the diagnostics of a pass are published, fixed when the pass starts. -/
structure Publication where
  enabled : Bool
  encoding : Encoding
  version? : Option Int
deriving DecidableEq, Repr

/-- A language server for recipes. -/
structure Server where
  /-- The largest number of bytes of a text that is read. -/
  limit : Nat
  workspace : Workspace
  store : Store
  settings : Settings
  encoding : Encoding
  /-- The time since the start in milliseconds. -/
  now : Nat
  waiting : List (Waiting Publication)

/-- What a server sends to its client. -/
inductive Notice where
  /-- The diagnostics of a document, with the version they are for. -/
  | diagnostics (uri : Uri) (items : List ClientDiagnostic) (version? : Option Int)
  /-- A warning to be shown. -/
  | warning (message : String)
  /-- Changes of a host's embedded documents. -/
  | embedded (host : Uri) (changes : Changes)
deriving DecidableEq, Repr

/-- What a client tells a server. -/
inductive ServerEvent where
  /-- The client introduces itself with its options and position encodings. -/
  | handshake (options? : Option Json) (encodings : List String)
  | opened (uri : Uri) (version : Int) (text : String)
  /-- A document changed; each text is the whole document after one change. -/
  | changed (uri : Uri) (version : Int) (texts : List String)
  | closed (uri : Uri)
  /-- The client's configuration changed. -/
  | configured (configuration : Json)
  /-- Time passes. -/
  | advance (ms : Nat)

namespace Server

/-- A server before its client introduces itself. -/
def start (limit debounce : Nat) : Server :=
  { limit, workspace := .empty none debounce, store := .empty, settings := .default,
    encoding := .utf16, now := 0, waiting := [] }

/-- The columns of a document in the encoding agreed on. -/
def columns (s : Server) (d : Document) : Columns :=
  .ofText s.encoding d.text

/-- Whether the latest text of a document was refused. -/
def isRefused (s : Server) (uri : Uri) : Bool :=
  (s.workspace.document? uri).any (·.tree.root?.isNone)

/-- The warning about a text that is refused. -/
def refusalWarning (s : Server) (uri : Uri) (text : String) : Notice :=
  let size := Text.bytes text.toList
  .warning (uri.text ++ " is " ++ toString size ++ " bytes, above the " ++ toString s.limit
    ++ " byte limit; BitBake analysis is disabled for it")

/-- The notice about changes of embedded documents, unless nothing changed. -/
def embeddedNotice (host : Uri) (c : Changes) : List Notice :=
  if c.isEmpty then [] else [.embedded host c]

/-- Drops the embedded documents of a host. -/
def closeEmbedded (s : Server) (host : Uri) : Server × List Notice :=
  let (store, closed) := s.store.close host
  ({ s with store }, embeddedNotice host { Changes.none with closed })

/-- Brings the embedded documents of a host up to date with its text and the settings. -/
def refreshEmbedded (s : Server) (host : Uri) (text : String) : Server × List Notice :=
  if s.settings.embeddedDocuments then
    let (store, c) :=
      match s.workspace.document? host with
      | some d => s.store.generate host d.tree
      | none => s.store.generateText s.limit host text
    ({ s with store }, embeddedNotice host c)
  else s.closeEmbedded host

/-- Waits for a pass, to publish its diagnostics as the settings say now. -/
def schedule (s : Server) (pass : Pass) (version? : Option Int) : Server :=
  let tag := ⟨s.settings.diagnostics, s.encoding, version?⟩
  { s with waiting := s.waiting ++ [⟨pass, s.now + s.workspace.debounce, tag⟩] }

/-- Takes in a new text of a document. A warning is sent when a text is refused and the text before
it was not. -/
def refresh (s : Server) (uri : Uri) (version? : Option Int) (text : String) :
    Server × List Notice :=
  match s.workspace.update uri text with
  | .ok (workspace, pass) =>
    let t := { s with workspace }
    let warnings := if !s.isRefused uri && t.isRefused uri then [s.refusalWarning uri text] else []
    let (t, notices) := t.refreshEmbedded uri text
    (t.schedule pass version?, warnings ++ notices)
  | .error _ =>
    let (t, notices) := s.refreshEmbedded uri text
    (t, notices ++ [.diagnostics uri [] version?])

/-- Takes in the texts of documents again, after the settings have changed. -/
def refreshAll (s : Server) : List Uri → Server × List Notice
  | [] => (s, [])
  | uri :: uris =>
    match s.workspace.document? uri with
    | some d =>
      let (s, first) := s.refresh uri none d.text
      let (s, others) := s.refreshAll uris
      (s, first ++ others)
    | none => s.refreshAll uris

/-- The settings in a client's configuration. -/
def configuredSettings? (configuration : Json) : Option Settings :=
  (configuration.field? "bitbake").bind Settings.ofJson?

/-- Does what an event asks for, without ending waits. -/
def apply (s : Server) : ServerEvent → Server × List Notice
  | .handshake options? encodings =>
    ({ s with
        settings := (options?.bind Settings.ofJson?).getD s.settings
        encoding := .negotiate encodings
        workspace := { s.workspace with limit? := some s.limit } }, [])
  | .opened uri version text => s.refresh uri (some version) text
  | .changed uri version texts =>
    match texts.getLast? with
    | some text => s.refresh uri (some version) text
    | none => (s, [])
  | .closed uri =>
    let (s, notices) := { s with workspace := s.workspace.close uri }.closeEmbedded uri
    (s, notices ++ [.diagnostics uri [] none])
  | .configured configuration =>
    match configuredSettings? configuration with
    | some settings =>
      if settings = s.settings then (s, [])
      else { s with settings }.refreshAll s.workspace.uris
    | none => (s, [])
  | .advance ms => ({ s with now := s.now + ms }, [])

/-- The notice that ends a pass, unless the pass gave no diagnostics. -/
def publication (w : Workspace) (f : Finished Publication) : Option Notice :=
  f.diagnostics?.map fun ds =>
    let items :=
      match w.document? f.pass.uri with
      | some d =>
        if f.tag.enabled then ds.map (Columns.ofText f.tag.encoding d.text).diagnostic else []
      | none => []
    .diagnostics f.pass.uri items f.tag.version?

/-- Ends every wait that is over, and publishes. -/
def settle (s : Server) : Server × List Notice :=
  let r := s.workspace.settle s.now s.waiting
  ({ s with workspace := r.workspace, waiting := r.waiting },
    r.finished.filterMap (publication r.workspace))

/-- One event and all that follows from it before the next. -/
def step (s : Server) (e : ServerEvent) : Server × List Notice :=
  let (s, early) := s.apply e
  let (s, late) := s.settle
  (s, early ++ late)

end Server

end Recipe
