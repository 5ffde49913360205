import Recipe.Grammar.Statement.Value

/-!
# Assignments

An assignment is a name with overrides and at most one flag, an operator, and a quoted value. A
line with a name and an operator is an assignment even if its value is missing, unquoted, without
its closing quote, or followed by more text; these are errors inside the assignment.
-/

namespace Recipe.Grammar

/-- The piece of an override with its colon. -/
def overridePiece (name : List Char) : Piece :=
  .group .override [Piece.mark ':', .token .identifier name]

/-- Reads a flag in brackets. Its name may be empty. -/
def flag? : List Char → Option Parts
  | '[' :: cs =>
    let name := Cut.span isFlagChar cs
    match name.rest with
    | ']' :: rest =>
      some ⟨[.group .variableFlag
        (Piece.mark '[' :: Piece.tokens .identifier name.front ++ [Piece.mark ']'])], rest⟩
    | _ => none
  | _ => none

/-- Reads a flag where the text begins with a bracket, and nothing elsewhere. -/
def optionalFlag (cs : List Char) : Option Parts :=
  if cs.head? = some '[' then flag? cs else some ⟨[], cs⟩

/-- Reads what is assigned to: a name, its overrides and its flag. -/
def target? (cs : List Char) : Option Parts :=
  let base := baseName cs
  if base.front.isEmpty then none
  else
    let ovs := overrides base.rest
    (optionalFlag ovs.2).map fun flag =>
      ⟨.token .identifier base.front :: ovs.1.map overridePiece ++ flag.pieces, flag.rest⟩

/-- Whether a character opens a quoted value. -/
def isQuote (c : Char) : Bool :=
  c == '"' || c == '\''

/-- Reads what follows an operator, given the pieces before it and the blanks before it. -/
def assigned (before : List Piece) (op : Cut) : Statement :=
  let gap := spacing op.rest
  let front := before ++ [.token .operator op.front, .gap gap.front]
  match gap.rest with
  | [] => ⟨.group .variableAssignment (before ++ [.token .error op.front]), gap.front⟩
  | c :: cs =>
    match (if isQuote c then Value.read? c cs else none) with
    | some v => .close .variableAssignment (front ++ [v.piece c]) (spacing v.rest)
    | none => ⟨.group .variableAssignment (front ++ [.token .error (c :: cs)]), []⟩

/-- Reads an assignment, unless the text has no name or no operator in its place. -/
def assignment? (cs : List Char) : Option Statement :=
  (target? cs).bind fun target =>
    let gap := spacing target.rest
    (operator? gap.rest).map fun op => assigned (target.pieces ++ [.gap gap.front]) op

end Recipe.Grammar
