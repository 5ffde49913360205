import Recipe.Position
import Recipe.Text.Width

/-!
# Line tables

The lines of a text, cut at line feeds, and the conversions they give: between byte offsets and
positions, and between byte columns and UTF-16 columns of a line. Every conversion is total: what
lies past a line or past the text stands for its end.
-/

namespace Recipe

/-- The lines of a text without their line feeds. A text has one line more than line feeds. -/
def Text.lines : List Char → List (List Char)
  | [] => [[]]
  | c :: cs => if c = '\n' then [] :: lines cs else (lines cs).modifyHead (c :: ·)

/-- The lines of a text, for looking up places in it. -/
structure LineTable where
  lines : List (List Char)
deriving DecidableEq, Repr

namespace LineTable

/-- The line table of a text. -/
def ofText (cs : List Char) : LineTable :=
  ⟨Text.lines cs⟩

/-- The number of lines. -/
def lineCount (t : LineTable) : Nat :=
  t.lines.length

/-- The number of bytes of the lines with a line feed after each but the last. -/
def joinedBytes : List (List Char) → Nat
  | [] => 0
  | [l] => Text.bytes l
  | l :: m :: ls => Text.bytes l + 1 + joinedBytes (m :: ls)

/-- The number of bytes of the text. -/
def size (t : LineTable) : Nat :=
  joinedBytes t.lines

/-- The number of bytes of the first `n` lines, each with its line feed. -/
def bytesOfFirst : (n : Nat) → List (List Char) → Nat
  | 0, _ => 0
  | _ + 1, [] => 0
  | n + 1, l :: ls => Text.bytes l + 1 + bytesOfFirst n ls

/-- The offset at which line `n` begins. -/
def lineStart (t : LineTable) (n : Nat) : Nat :=
  bytesOfFirst n t.lines

/-- The bytes of line `n` without its line feed. -/
def lineSpan (t : LineTable) (n : Nat) : Option Span :=
  t.lines[n]?.map fun l => ⟨t.lineStart n, t.lineStart n + Text.bytes l⟩

/-- The position `offset` bytes after the beginning of line `n`, the first of `lines`. The offset of
a line feed belongs to the line it ends. -/
def positionFrom (n : Nat) : List (List Char) → (offset : Nat) → Position
  | [], _ => ⟨n, 0⟩
  | [l], offset => ⟨n, min offset (Text.bytes l)⟩
  | l :: m :: ls, offset =>
    if offset ≤ Text.bytes l then ⟨n, offset⟩
    else positionFrom (n + 1) (m :: ls) (offset - (Text.bytes l + 1))

/-- The position of a byte offset; one past the end counts as the end. -/
def position (t : LineTable) (offset : Nat) : Position :=
  positionFrom 0 t.lines offset

/-- The byte offset of a position; a column past its line counts as the end of the line, a line
past the text as the end of the text. -/
def offset (t : LineTable) (p : Position) : Nat :=
  match t.lineSpan p.line with
  | some s => min (s.start + p.column) s.stop
  | none => t.size

/-- The range of a span, which is kept as it is given. -/
def range (t : LineTable) (s : Span) : Range :=
  ⟨s, t.position s.start, t.position s.stop⟩

/-! ## UTF-16 columns -/

/-- The UTF-16 units of the characters of a line that begin before byte `column`; each byte past
the line counts as one unit. -/
def unitsBefore : List Char → (column : Nat) → Nat
  | [], column => column
  | c :: cs, column =>
    if column = 0 then 0 else Text.units16 c + unitsBefore cs (column - c.utf8Size)

/-- The first byte column of a line with at least `units` UTF-16 units before it, or the end of the
line. -/
def columnOfUnits : List Char → (units : Nat) → Nat
  | [], _ => 0
  | c :: cs, units =>
    if units = 0 then 0 else c.utf8Size + columnOfUnits cs (units - Text.units16 c)

/-- The UTF-16 column of a position. On a line that does not exist columns stay as they are. -/
def utf16Column (t : LineTable) (p : Position) : Nat :=
  match t.lines[p.line]? with
  | some l => unitsBefore l p.column
  | none => p.column

/-- The byte column of a UTF-16 column of line `n`. -/
def columnFromUtf16 (t : LineTable) (n units : Nat) : Nat :=
  match t.lines[n]? with
  | some l => columnOfUnits l units
  | none => units

end LineTable

end Recipe
