import Recipe.Diagnostic
import Recipe.Outline
import Recipe.Text.LineTable

/-!
# Position encodings

Positions exchanged with a client count characters in the encoding agreed on with it: bytes of UTF-8
or UTF-16 units. `Columns` converts between these and the byte columns of one text. The numbers that
a client gets are words of 32 bits.
-/

namespace Recipe

/-- The unit of a client's character offsets. -/
inductive Encoding where
  | utf8
  | utf16
deriving DecidableEq, Repr, Inhabited

namespace Encoding

/-- The name of an encoding. -/
def label : Encoding → String
  | utf8 => "utf-8"
  | utf16 => "utf-16"

/-- The encoding for a client that offers some: UTF-16, which every client has, unless UTF-8 is
offered. -/
def negotiate (offered : List String) : Encoding :=
  if offered.contains utf8.label then .utf8 else .utf16

end Encoding

/-- A client's position. -/
structure ClientPosition where
  line : Nat
  character : Nat
deriving DecidableEq, Repr, Inhabited

/-- A client's range. -/
structure ClientRange where
  start : ClientPosition
  stop : ClientPosition
deriving DecidableEq, Repr, Inhabited

/-- A range in a document. -/
structure Location where
  uri : Uri
  range : ClientRange
deriving DecidableEq, Repr

/-- A diagnostic for a client. -/
structure ClientDiagnostic where
  range : ClientRange
  message : String
deriving DecidableEq, Repr

/-- An entry of an outline for a client. -/
structure ClientEntry where
  name : String
  detail : String
  kind : SymbolKind
  range : ClientRange
  selection : ClientRange
deriving DecidableEq, Repr

/-- A symbol for a client. -/
structure ClientSymbol where
  name : String
  kind : SymbolKind
  location : Location
deriving DecidableEq, Repr

/-- An encoding, and the lines of the text that it is used on. -/
structure Columns where
  encoding : Encoding
  lines : LineTable

namespace Columns

/-- The columns of a text. -/
def ofText (e : Encoding) (text : String) : Columns :=
  ⟨e, .ofText text.toList⟩

/-- The last 32 bits of a number. -/
def word (n : Nat) : Nat :=
  n % 4294967296

/-- A position for the client. -/
def toClient (c : Columns) (p : Position) : ClientPosition :=
  match c.encoding with
  | .utf8 => ⟨word p.line, word p.column⟩
  | .utf16 => ⟨word p.line, word (c.lines.utf16Column p)⟩

/-- A position from the client. -/
def ofClient (c : Columns) (p : ClientPosition) : Position :=
  match c.encoding with
  | .utf8 => ⟨p.line, p.character⟩
  | .utf16 => ⟨p.line, c.lines.columnFromUtf16 p.line p.character⟩

/-- A range for the client. -/
def rangeToClient (c : Columns) (r : Range) : ClientRange :=
  ⟨c.toClient r.start, c.toClient r.stop⟩

/-- A diagnostic for the client. -/
def diagnostic (c : Columns) (d : Diagnostic) : ClientDiagnostic :=
  ⟨c.rangeToClient d.range, d.message⟩

/-- An entry of an outline for the client. -/
def entry (c : Columns) (e : OutlineEntry) : ClientEntry :=
  { name := e.name, detail := e.detail, kind := e.kind, range := c.rangeToClient e.range,
    selection := c.rangeToClient e.selection }

/-- A symbol for the client. -/
def symbol (c : Columns) (s : Symbol) : ClientSymbol :=
  ⟨s.name, s.kind, s.uri, c.rangeToClient s.range⟩

end Columns

end Recipe
