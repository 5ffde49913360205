import Recipe.Embedded.Rendering
import Recipe.Embedded.SyntheticUri
import Recipe.Table

/-!
# The store of embedded documents

The store keeps, for each host, the documents rendered from its regions, and finds a document by its
synthetic uri. Generating a host's documents anew tells what became of them: opened, changed or
closed. A document keeps its uri as long as its region exists, and its version grows by one with
every change of its text.
-/

namespace Recipe

/-- The document of a region. -/
structure EmbeddedDocument where
  uri : Uri
  language : Language
  host : Uri
  index : Nat
  text : String
  version : Nat
  /-- The range of the host that the document was rendered from. -/
  range : Range
  mapping : Mapping
deriving DecidableEq, Repr

namespace EmbeddedDocument

/-- The first version of the document of a region. -/
def ofRegion (host : Uri) (source : String) (r : Region) : EmbeddedDocument :=
  let rendering := r.render source
  { uri := syntheticUri host r.language r.index, language := r.language, host, index := r.index,
    text := rendering.text, version := 1, range := r.range, mapping := rendering.mapping }

/-- What is stored for a document rendered anew, given the one stored before it: that one if text
and range are the same, and otherwise the new one, with a version that grows if the text differs. -/
def succeed (old? : Option EmbeddedDocument) (d : EmbeddedDocument) : EmbeddedDocument :=
  match old? with
  | some old =>
    if old.text = d.text then
      if old.range = d.range then old else { d with version := old.version }
    else { d with version := old.version + 1 }
  | none => d

end EmbeddedDocument

/-- What became of a host's documents. -/
structure Changes where
  opened : List EmbeddedDocument
  changed : List EmbeddedDocument
  closed : List Uri
deriving DecidableEq, Repr

namespace Changes

/-- No change. -/
def none : Changes :=
  ⟨[], [], []⟩

/-- Whether nothing changed. -/
def isEmpty (c : Changes) : Bool :=
  c.opened.isEmpty && c.changed.isEmpty && c.closed.isEmpty

end Changes

/-- The documents of each host in the order of its regions, and every document by its uri. -/
structure Store where
  hosts : Table Uri (List EmbeddedDocument)
  documents : Table Uri EmbeddedDocument

namespace Store

/-- The store without documents. -/
def empty : Store :=
  ⟨.empty, .empty⟩

/-- The documents of a host. -/
def ofHost (s : Store) (host : Uri) : List EmbeddedDocument :=
  (s.hosts.get? host).getD []

/-- The documents of a host in a language. -/
def ofLanguage (s : Store) (host : Uri) (l : Language) : List EmbeddedDocument :=
  (s.ofHost host).filter (·.language == l)

/-- The document of a uri. -/
def document? (s : Store) (uri : Uri) : Option EmbeddedDocument :=
  s.documents.get? uri

/-- The stored document that has the uri of another. -/
def previous? (old : List EmbeddedDocument) (d : EmbeddedDocument) : Option EmbeddedDocument :=
  old.find? (·.uri = d.uri)

/-- What becomes of the documents `old` when `new` takes their place. -/
def changes (old new : List EmbeddedDocument) : Changes where
  opened := new.filter fun d => (previous? old d).isNone
  changed := new.filterMap fun d =>
    (previous? old d).bind fun o => if o.text = d.text then none else some (d.succeed (some o))
  closed := Uri.sort ((old.map (·.uri)).filter fun u => !(new.map (·.uri)).contains u)

/-- Puts rendered documents in the place of a host's documents. -/
def replace (s : Store) (host : Uri) (new : List EmbeddedDocument) : Store × Changes :=
  let old := s.ofHost host
  let stored := new.map fun d => d.succeed (previous? old d)
  let c := changes old new
  let written := stored.foldl (fun t d => t.insert d.uri d) s.documents
  let hosts := s.hosts.erase host
  ({ hosts := if stored.isEmpty then hosts else hosts.insert host stored,
     documents := c.closed.foldl Table.erase written }, c)

/-- Generates the documents of a host from its tree. -/
def generate (s : Store) (host : Uri) (t : Tree) : Store × Changes :=
  s.replace host (t.regions.map (.ofRegion host t.source))

/-- Generates the documents of a host from its text; one above the limit has no regions. -/
def generateText (s : Store) (limit : Nat) (host : Uri) (source : String) : Store × Changes :=
  s.generate host ((parse limit source).toOption.getD (.withoutRoot source))

/-- Drops the documents of a host, and lists their uris. -/
def close (s : Store) (host : Uri) : Store × List Uri :=
  let closed := Uri.sort ((s.ofHost host).map (·.uri))
  (⟨s.hosts.erase host, closed.foldl Table.erase s.documents⟩, closed)

/-! ## Looking up places -/

/-- The document that owns a host position, the ends of its range included. -/
def owner? (s : Store) (host : Uri) (p : Position) : Option EmbeddedDocument :=
  Language.all.findSome? fun l => (s.ofLanguage host l).find? (·.range.touches p)

/-- The document that owns a host position, and the place of that position in it. -/
def locate? (s : Store) (host : Uri) (p : Position) : Option (EmbeddedDocument × Position) :=
  (s.owner? host p).bind fun d => (d.mapping.toEmbedded p).map fun q => (d, q)

/-- The host of a document, and the place of one of its positions there. -/
def toHost? (s : Store) (uri : Uri) (p : Position) : Option (Uri × Position) :=
  (s.document? uri).bind fun d => (d.mapping.toHost p).map fun q => (d.host, q)

/-- The host of a document, and the places of two of its positions there. -/
def rangeToHost? (s : Store) (uri : Uri) (p q : Position) : Option (Uri × Position × Position) :=
  (s.document? uri).bind fun d =>
    (d.mapping.toHost p).bind fun a => (d.mapping.toHost q).map fun b => (d.host, a, b)

end Store

end Recipe
