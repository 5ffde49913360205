import Recipe.Grammar.Statement.Directive

/-!
# Reading statements

The keyword at the beginning of a logical line decides what it is read as: an export, a directive,
or an assignment. The word of a directive before an operator is the name of a variable.
-/

namespace Recipe.Grammar.Statement

/-- Reads an assignment; what is none is refused. -/
def readAssignment (cs : List Char) : Statement :=
  (assignment? cs).getD (refused cs)

/-- Reads an export from a text `cs` that is its keyword followed by `rest`: an assignment or the
name of a variable. -/
def readExport (cs rest : List Char) : Statement :=
  let gap := spacing rest
  let name := fullName gap.rest
  let after := spacing name.rest
  let front := [.token .keyword "export".toList, .gap gap.front]
  if name.front.isEmpty then refused cs
  else if (operator? after.rest).isSome then
    match assignment? gap.rest with
    | some s => ⟨.group .exportStatement (front ++ [s.piece]), s.after⟩
    | none => refused cs
  else if after.rest.isEmpty then
    ⟨.group .exportStatement (front ++ [.token .identifier name.front]), after.front⟩
  else refused cs

/-- Reads a statement from a logical line, which does not begin with a blank. -/
def read (cs : List Char) : Statement :=
  match keyword? "export" cs with
  | some rest => readExport cs rest
  | none =>
    match keyword? Directive.exportFunctions.word cs with
    | some rest => Directive.exportFunctions.read cs rest
    | none =>
      match Directive.find? cs with
      | some (d, rest) =>
        if (operator? (spacing rest).rest).isSome then readAssignment cs else d.read cs rest
      | none => readAssignment cs

end Recipe.Grammar.Statement
