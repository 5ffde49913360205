import Recipe.Embedded.Region

/-!
# Renderings

The rendering of a region is a document of its own with the code of the region, and a mapping of
positions between the two. Lines after the first may lose the indentation they have in common.
-/

namespace Recipe

/-- How positions of a region and of its rendering correspond: line `n` of the rendering is line
`start.line + n` of the host without its first `stripped[n]` bytes. -/
structure Mapping where
  start : Position
  stripped : List Nat
deriving DecidableEq, Repr

namespace Mapping

/-- The number of lines of the rendering. -/
def lineCount (m : Mapping) : Nat :=
  m.stripped.length

/-- The place of a host position in the rendering; none on lines outside it. A column that was
stripped off stands for the beginning of its line. -/
def toEmbedded (m : Mapping) (p : Position) : Option Position :=
  if m.start.line ≤ p.line then
    m.stripped[p.line - m.start.line]?.map fun n => ⟨p.line - m.start.line, p.column - n⟩
  else none

/-- The host position of a place in the rendering; none on lines outside it. -/
def toHost (m : Mapping) (p : Position) : Option Position :=
  m.stripped[p.line]?.map fun n => ⟨m.start.line + p.line, p.column + n⟩

end Mapping

/-- The text of a region as a document, and its mapping. -/
structure Rendering where
  text : String
  mapping : Mapping
deriving DecidableEq, Repr

namespace Rendering

/-- The number of spaces and tabs at the beginning of a line. -/
def indentation (l : List Char) : Nat :=
  (l.takeWhile fun c => c == ' ' || c == '\t').length

/-- The indentation that all lines have that are not blank. -/
def commonIndentation (ls : List (List Char)) : Nat :=
  (((ls.filter fun l => !l.all Text.isBlank).map indentation).min?).getD 0

/-- How much of a line is stripped when lines lose `indent`. -/
def cut (indent : Nat) (l : List Char) : Nat :=
  min (indentation l) indent

/-- Renders the lines of a region that begins at `start`. -/
def ofLines (start : Position) (dedent : Bool) : List (List Char) → Rendering
  | [] => ⟨"", ⟨start, []⟩⟩
  | l :: ls =>
    let indent := if dedent then commonIndentation ls else 0
    let shown := l :: ls.map fun m => m.drop (cut indent m)
    ⟨String.ofList (List.intercalate ['\n'] shown), ⟨start, start.column :: ls.map (cut indent)⟩⟩

end Rendering

/-- Renders a region of a source. A range whose span is none of the source has no text. -/
def Region.render (source : String) (r : Region) : Rendering :=
  let body := (Text.slice source.toList r.range.span.start r.range.span.stop).getD []
  Rendering.ofLines r.range.start r.dedent (Text.lines body)

end Recipe
