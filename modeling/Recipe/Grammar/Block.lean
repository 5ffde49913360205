import Recipe.Grammar.Header
import Recipe.Grammar.Statement.Read
import Recipe.Text.LineTable

/-!
# Blocks

A recipe is read block by block. A line is blank, a comment, the header of a task or of a python
definition, or the beginning of a logical line. A task takes the lines up to one that is a closing
brace, a definition takes the indented lines after it, and a logical line takes the lines that
backslashes join to it. `document` gives the pieces of the whole text.
-/

namespace Recipe.Grammar

/-- A physical line: its body, and the line feed and carriage return that end it. -/
structure Line where
  body : List Char
  ending : List Char
deriving DecidableEq, Repr

namespace Line

/-- The text of a line. -/
def text (l : Line) : List Char :=
  l.body ++ l.ending

/-- The line of a text that has one carriage return at most taken off its end. -/
def ofText (feed : List Char) (cs : List Char) : Line :=
  if cs.getLast? = some '\r' then ⟨cs.dropLast, '\r' :: feed⟩ else ⟨cs, feed⟩

/-- The physical lines of texts that line feeds separate. -/
def ofTexts : List (List Char) → List Line
  | [] => []
  | [l] => [ofText [] l]
  | l :: m :: ls => ofText ['\n'] l :: ofTexts (m :: ls)

/-- The text of several lines. -/
def textAll (ls : List Line) : List Char :=
  ls.flatMap text

/-- Whether the line is blank. -/
def isBlank (l : Line) : Bool :=
  l.body.all Text.isBlank

/-- Whether the line closes a task: a brace at its beginning and nothing else. -/
def closesTask (l : Line) : Bool :=
  Text.trimEnd l.body == ['}']

/-- Whether the line can stand in the body of a python definition: it is blank, indented or a
comment. -/
def inDefinition (l : Line) : Bool :=
  l.isBlank || l.body.head?.any [' ', '\t', '#'].contains

end Line

/-- Pieces read from the first lines of a document, and the lines after them. -/
structure Block where
  pieces : List Piece
  rest : List Line

/-! ## Logical lines -/

/-- A logical line without the blanks at its end, those blanks, and the lines after it. -/
structure LogicalLine where
  text : List Char
  after : List Char
  rest : List Line

/-- Whether a line is joined to the next one. -/
def joinsNext (l : Line) : Bool :=
  (Text.trimEnd l.body).getLast? == some '\\'

/-- Joins a line with those that follow as long as backslashes ask for it and lines are left. -/
def logicalLine (l : Line) : List Line → LogicalLine
  | [] => ⟨Text.trimEnd l.body, Text.trailing l.body ++ l.ending, []⟩
  | m :: ls =>
    if joinsNext l then
      let tail := logicalLine m ls
      { tail with text := l.text ++ tail.text }
    else ⟨Text.trimEnd l.body, Text.trailing l.body ++ l.ending, m :: ls⟩

/-- Reads a statement that begins on a line; `t` is the body of that line. -/
def statementBlock (t : Text.Trimmed) (l : Line) (ls : List Line) : Block :=
  let line := logicalLine { l with body := t.core ++ t.after } ls
  let s := Statement.read line.text
  ⟨[.gap t.before, s.piece, .gap (s.after ++ line.after)], line.rest⟩

/-! ## Tasks and definitions -/

/-- The kind of a task. -/
def TaskHeader.kind (h : TaskHeader) : Kind :=
  if h.python then .pythonFunctionDefinition else .functionDefinition

/-- The kind of the body of a task. -/
def TaskHeader.contentKind (h : TaskHeader) : Kind :=
  if h.python then .pythonContent else .shellContent

/-- The content in a text, as a token without the blanks around it, and the blanks after it. If
there is none, all of the text is blanks after it. -/
def content (kind : Kind) (cs : List Char) : List Piece × List Char :=
  let t := Text.splitTrim cs
  if t.core.isEmpty then ([], cs) else ([.gap t.before, .token kind t.core], t.after)

/-- A task whose body is followed by its closing line. -/
def closedTask (h : TaskHeader) (inside : List Char) (closing : Line) : List Piece :=
  let c := content h.contentKind inside
  [.group h.kind (h.front ++ [Piece.mark '{'] ++ c.1 ++ [.gap c.2, Piece.mark '}']),
    .gap (closing.body.drop 1 ++ closing.ending)]

/-- A task that no line closes: its brace is an error. -/
def openTask (h : TaskHeader) (inside : List Char) : List Piece :=
  let c := content h.contentKind inside
  [.group h.kind (h.front ++ [.token .error ['{']] ++ c.1), .gap c.2]

/-- Reads a task whose header stands on the line `t` with the given ending. -/
def taskBlock (h : TaskHeader) (t : Text.Trimmed) (ending : List Char) (ls : List Line) : Block :=
  let body := ls.takeWhile (!·.closesTask)
  let inside := t.after ++ ending ++ Line.textAll body
  match ls.dropWhile (!·.closesTask) with
  | closing :: rest => ⟨.gap t.before :: closedTask h inside closing, rest⟩
  | [] => ⟨.gap t.before :: openTask h inside, []⟩

/-- Reads a python definition whose header, with the given pieces, stands on the line `t`. -/
def definitionBlock (header : List Piece) (t : Text.Trimmed) (ending : List Char)
    (ls : List Line) : Block :=
  let body := ls.takeWhile Line.inDefinition
  let c := content .pythonContent (t.after ++ ending ++ Line.textAll body)
  ⟨[.gap t.before, .group .pythonDefinition (header ++ c.1), .gap c.2],
    ls.dropWhile Line.inDefinition⟩

/-! ## The whole text -/

/-- Reads what begins on a line. -/
def block (l : Line) (ls : List Line) : Block :=
  let t := Text.splitTrim l.body
  if t.core.isEmpty then ⟨[.gap l.text], ls⟩
  else if t.core.head? = some '#' then
    ⟨[.gap t.before, .token .comment t.core, .gap (t.after ++ l.ending)], ls⟩
  else
    match TaskHeader.read? t.core with
    | some h => taskBlock h t l.ending ls
    | none =>
      match definitionHeader? t.core with
      | some header => definitionBlock header t l.ending ls
      | none => statementBlock t l ls

theorem length_logicalLine_rest_le (l : Line) (ls : List Line) :
    (logicalLine l ls).rest.length ≤ ls.length := by
  induction ls generalizing l with
  | nil => simp [logicalLine]
  | cons m ls ih =>
    rw [logicalLine]
    split
    · exact Nat.le_succ_of_le (ih m)
    · exact Nat.le_refl _

theorem length_taskBlock_rest_le (h : TaskHeader) (t : Text.Trimmed) (ending : List Char)
    (ls : List Line) : (taskBlock h t ending ls).rest.length ≤ ls.length := by
  have hl := (List.dropWhile_sublist (fun l : Line => !l.closesTask) (l := ls)).length_le
  unfold taskBlock
  dsimp only
  split
  · next hd =>
    rw [hd] at hl
    exact Nat.le_of_succ_le hl
  · exact Nat.zero_le _

theorem length_block_rest_le (l : Line) (ls : List Line) :
    (block l ls).rest.length ≤ ls.length := by
  unfold block
  dsimp only
  split
  · exact Nat.le_refl _
  split
  · exact Nat.le_refl _
  split
  · exact length_taskBlock_rest_le _ _ _ _
  split
  · exact (List.dropWhile_sublist Line.inDefinition).length_le
  · exact length_logicalLine_rest_le _ _

/-- The pieces of a document's lines. -/
def document (ls : List Line) : List Piece :=
  match ls with
  | [] => []
  | l :: ls =>
    have := length_block_rest_le l ls
    (block l ls).pieces ++ document (block l ls).rest
termination_by ls.length

/-- The pieces of a recipe's text. -/
def read (cs : List Char) : List Piece :=
  document (Line.ofTexts (Text.lines cs))

end Recipe.Grammar
