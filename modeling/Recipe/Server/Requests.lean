import Recipe.Server.Basic
import Recipe.Text.LowerCase.Basic

/-!
# Requests

What a client can ask about the documents it has open. Inside embedded code, hovers and definitions
have no answer: the client asks the server of that language, at the place `embeddedInfo?` gives.
-/

namespace Recipe

/-- A description for a client. -/
structure ClientHover where
  contents : String
  range : ClientRange
deriving DecidableEq, Repr

/-- The embedded document that owns a position, and the place of that position in it. -/
structure EmbeddedInfo where
  document : EmbeddedDocument
  position : ClientPosition
deriving DecidableEq, Repr

namespace Server

/-- The outline of a document. -/
def outline? (s : Server) (uri : Uri) : Option (List ClientEntry) :=
  (s.workspace.document? uri).map fun d => d.tree.outline.map (s.columns d).entry

/-- Whether a symbol is asked for by a query in lower case. -/
def matchesQuery (query : String) (s : Symbol) : Bool :=
  Text.occursIn query.toList (Text.lower s.name).toList

/-- Symbols are listed by name, then by uri. -/
def symbolLe (a b : ClientSymbol) : Bool :=
  decide (a.name < b.name) || a.name == b.name && a.location.uri.textLe b.location.uri

/-- The symbols of a document that a query in lower case asks for. -/
def documentSymbols (s : Server) (query : String) (d : Document) : List ClientSymbol :=
  (d.declarations.values.filter (matchesQuery query)).map (s.columns d).symbol

/-- The symbols of all documents whose names contain the query, letter case aside. -/
def workspaceSymbols (s : Server) (query : String) : List ClientSymbol :=
  let documents := s.workspace.slots.values.map Slot.document
  (documents.flatMap (s.documentSymbols (Text.lower query))).mergeSort symbolLe

/-- The document at a client's position, and the position in bytes, outside of embedded code. -/
def place? (s : Server) (uri : Uri) (p : ClientPosition) : Option (Document × Position) :=
  (s.workspace.document? uri).bind fun d =>
    let q := (s.columns d).ofClient p
    if (s.store.owner? uri q).isSome then none else some (d, q)

/-- The description of the symbol at a position. -/
def hover? (s : Server) (uri : Uri) (p : ClientPosition) : Option ClientHover :=
  (s.place? uri p).bind fun (d, q) =>
    (d.hover? q).map fun h => ⟨h.contents, (s.columns d).rangeToClient h.range⟩

/-- The declaration of the symbol at a position. -/
def definition? (s : Server) (uri : Uri) (p : ClientPosition) : Option Location :=
  (s.place? uri p).bind fun (d, q) =>
    (d.definition? q).map fun sym => ⟨sym.uri, (s.columns d).rangeToClient sym.range⟩

/-- The embedded document that owns a position of an open document. -/
def embeddedInfo? (s : Server) (uri : Uri) (p : ClientPosition) : Option EmbeddedInfo :=
  (s.workspace.document? uri).bind fun host =>
    (s.store.locate? uri ((s.columns host).ofClient p)).bind fun (owner, q) =>
      (s.store.document? owner.uri).map fun d =>
        ⟨d, (Columns.ofText s.encoding d.text).toClient q⟩

end Server

end Recipe
