import Recipe.Grammar.Statement.Assignment
import Recipe.Text.Blank

/-!
# Directives

A directive is a keyword and its arguments: words, one path, or a variable with an optional flag.
Without an argument the whole line is an error, and text after the arguments ends the directive as
an error.
-/

namespace Recipe.Grammar

/-- What a directive takes. -/
inductive Arguments where
  /-- Paths, separated by spacing. -/
  | paths
  /-- All that follows, as one path. -/
  | path
  /-- Names, separated by spacing. -/
  | names
  /-- A task name, then names with the keywords `after` and `before` among them. -/
  | task
  /-- A variable with an optional flag. -/
  | variableFlag
deriving DecidableEq, Repr

/-- A keyword that begins a directive, the kind of statement it makes, and what it takes. -/
structure Directive where
  word : String
  kind : Kind
  arguments : Arguments
deriving DecidableEq, Repr

namespace Directive

/-- The directives whose words may also be names of variables. -/
def table : List Directive :=
  [⟨"inherit", .inheritDirective, .paths⟩,
    ⟨"inherit_defer", .inheritDirective, .paths⟩,
    ⟨"include", .includeDirective, .path⟩,
    ⟨"require", .requireDirective, .path⟩,
    ⟨"unset", .unsetStatement, .variableFlag⟩,
    ⟨"addtask", .addTaskStatement, .task⟩,
    ⟨"deltask", .delTaskStatement, .names⟩,
    ⟨"addhandler", .addHandlerStatement, .names⟩]

/-- The directive whose word is never a name. -/
def exportFunctions : Directive :=
  ⟨"EXPORT_FUNCTIONS", .exportFunctionsStatement, .names⟩

/-- The directive of the table whose keyword begins the text, and what follows the keyword. -/
def find? (cs : List Char) : Option (Directive × List Char) :=
  table.findSome? fun d => (keyword? d.word cs).map fun rest => (d, rest)

end Directive

/-- A word with the spacing before it. -/
structure SpacedWord where
  gap : List Char
  word : List Char
deriving DecidableEq, Repr

/-- The words of a text, and what is left of it: spacing, and the text at which no word begins. -/
structure Words where
  words : List SpacedWord
  last : Cut
deriving DecidableEq, Repr

/-- Reads words as far as they go. -/
def words (cs : List Char) : Words :=
  let gap := spacing cs
  let next := word gap.rest
  if h : next.front = [] then ⟨[], gap⟩
  else
    have : next.rest.length < cs.length :=
      Nat.lt_of_lt_of_le (Cut.length_scan_rest_lt h) (Cut.length_scan_rest_le _ _)
    let others := words next.rest
    ⟨⟨gap.front, next.front⟩ :: others.words, others.last⟩
termination_by cs.length

/-- The pieces of words of one kind. -/
def SpacedWord.pieces (kind : Kind) (w : SpacedWord) : List Piece :=
  [.gap w.gap, .token kind w.word]

/-- The kind of a word after the name of a task. -/
def clauseKind (w : SpacedWord) : Kind :=
  if w.word = "after".toList ∨ w.word = "before".toList then .keyword else .identifier

/-- The pieces of the words of a task. -/
def taskPieces : List SpacedWord → List Piece
  | [] => []
  | w :: ws => w.pieces .identifier ++ ws.flatMap fun v => v.pieces (clauseKind v)

namespace Directive

/-- Closes a directive whose arguments are words. -/
def ofWords (d : Directive) (cs : List Char) (ws : Words) (pieces : List Piece) : Statement :=
  if ws.words.isEmpty then .refused cs
  else .close d.kind (.token .keyword d.word.toList :: pieces) ws.last

/-- Reads a directive that takes one path: the text after the keyword without the blanks around
it. -/
def readPath (d : Directive) (cs rest : List Char) : Statement :=
  let gap := spacing rest
  let t := Text.splitTrim gap.rest
  if t.core.isEmpty then .refused cs
  else
    ⟨.group d.kind
      [.token .keyword d.word.toList, .gap (gap.front ++ t.before), .token .path t.core], t.after⟩

/-- Reads a directive that takes a variable with an optional flag. -/
def readVariableFlag (d : Directive) (cs rest : List Char) : Statement :=
  let gap := spacing rest
  let name := fullName gap.rest
  if name.front.isEmpty then .refused cs
  else
    match optionalFlag name.rest with
    | some flag =>
      .close d.kind
        ([.token .keyword d.word.toList, .gap gap.front, .token .identifier name.front]
          ++ flag.pieces) (spacing flag.rest)
    | none => .refused cs

/-- Reads a directive from a text `cs` that is its keyword followed by `rest`. -/
def read (d : Directive) (cs rest : List Char) : Statement :=
  match d.arguments with
  | .path => d.readPath cs rest
  | .variableFlag => d.readVariableFlag cs rest
  | .paths =>
    let ws := words rest
    d.ofWords cs ws (ws.words.flatMap (SpacedWord.pieces .path))
  | .names =>
    let ws := words rest
    d.ofWords cs ws (ws.words.flatMap (SpacedWord.pieces .identifier))
  | .task =>
    let ws := words rest
    d.ofWords cs ws (taskPieces ws.words)

end Directive

end Recipe.Grammar
