import Recipe.Grammar.Statement.Basic
import Recipe.Text.Blank

/-!
# Header lines

The line that begins a task ends in an open brace, the line that begins a python definition in a
colon. Both are recognised from the line alone, without the blanks around it.
-/

namespace Recipe.Grammar

/-- The line that begins a task, up to its brace. -/
structure TaskHeader where
  python : Bool
  front : List Piece

/-- The keywords of a task, each with the blanks after it, and the text after them. -/
structure TaskWords where
  python : Bool
  pieces : List Piece
  rest : List Char

/-- Adds a keyword in front, with the blanks after it. -/
def TaskWords.push (word : String) (gap : List Char) (ws : TaskWords) : TaskWords :=
  ⟨word == "python" || ws.python, [.token .keyword word.toList, .gap gap] ++ ws.pieces, ws.rest⟩

/-- Cuts after the blanks of a header line. -/
def inlineBlanks (cs : List Char) : Cut :=
  Cut.span isInlineBlank cs

/-- The keyword of a task that begins the text, and what follows it. -/
def taskKeyword? (cs : List Char) : Option (String × List Char) :=
  ["python", "fakeroot"].findSome? fun w => (keyword? w cs).map fun rest => (w, rest)

theorem length_taskKeyword?_rest {cs rest : List Char} {w : String}
    (h : taskKeyword? cs = some (w, rest)) : rest.length < cs.length := by
  obtain ⟨v, hv, hr⟩ := List.exists_of_findSome?_eq_some h
  obtain ⟨r, hk, he⟩ := Option.map_eq_some_iff.1 hr
  cases he
  have hl := length_keyword?_rest hk
  have : 0 < w.toList.length := by
    simp only [List.mem_cons, List.not_mem_nil, or_false] at hv
    rcases hv with rfl | rfl <;> decide
  omega

/-- Reads the keywords of a task. -/
def taskWords (cs : List Char) : TaskWords :=
  match h : taskKeyword? cs with
  | some (w, rest) =>
    have : (inlineBlanks rest).rest.length < cs.length :=
      Nat.lt_of_le_of_lt (Cut.length_span_rest_le _ _) (length_taskKeyword?_rest h)
    (taskWords (inlineBlanks rest).rest).push w (inlineBlanks rest).front
  | none => ⟨false, [], cs⟩
termination_by cs.length

/-- Reads a given character, and the blanks after it. -/
def mark? (c : Char) (cs : List Char) : Option Parts :=
  match cs with
  | d :: rest =>
    if c = d then
      some ⟨[Piece.mark c, .gap (inlineBlanks rest).front], (inlineBlanks rest).rest⟩
    else none
  | [] => none

/-- Reads a task header from a trimmed line. Only a python task may go without a name. -/
def TaskHeader.read? (cs : List Char) : Option TaskHeader :=
  let ws := taskWords cs
  let name := Cut.span isTaskNameChar ws.rest
  if name.front.isEmpty && !ws.python then none
  else
    let gap := inlineBlanks name.rest
    (mark? '(' gap.rest).bind fun opening =>
      (mark? ')' opening.rest).bind fun closing =>
        if closing.rest = ['{'] then
          some ⟨ws.python, ws.pieces ++ Piece.tokens .identifier name.front ++ [.gap gap.front]
            ++ opening.pieces ++ closing.pieces⟩
        else none

/-- Reads the header of a python definition from a trimmed line, as its pieces: keyword, name,
parameters in parentheses, colon. -/
def definitionHeader? (cs : List Char) : Option (List Piece) :=
  (keyword? "def" cs).bind fun rest =>
    let gap := inlineBlanks rest
    let name := Cut.span isDefinitionNameChar gap.rest
    let t := Text.splitTrim name.rest.dropLast
    if !name.front.isEmpty && name.rest.getLast? = some ':' && t.core.head? = some '(' then
      some [.token .keyword "def".toList, .gap gap.front, .token .identifier name.front,
        .gap t.before, .token .pythonContent t.core, .gap t.after, Piece.mark ':']
    else none

end Recipe.Grammar
