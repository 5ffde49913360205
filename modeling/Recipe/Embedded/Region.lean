import Recipe.Text.Blank
import Recipe.Tree

/-!
# Regions of embedded code

A recipe embeds shell code in tasks and python code in tasks, definitions and inline expressions.
`Tree.regions` lists these regions by their start. Regions do not nest: one that starts before the
end of the region before it is dropped. Each language numbers its regions from zero.
-/

namespace Recipe

/-- A language embedded in recipes. -/
inductive Language where
  | shell
  | python
deriving DecidableEq, Repr, Inhabited

namespace Language

/-- Every language, in the order in which a look-up tries them. -/
def all : List Language :=
  [shell, python]

/-- The name of a language. -/
def label : Language → String
  | shell => "shell"
  | python => "python"

/-- The language of a name. -/
def ofLabel? (s : String) : Option Language :=
  all.find? (·.label == s)

/-- The extension of files in a language. -/
def extension : Language → String
  | shell => "sh"
  | python => "py"

/-- The name of a language for editors. -/
def editorId : Language → String
  | shell => "shellscript"
  | python => "python"

end Language

/-- Code of another language in a recipe. -/
structure Region where
  language : Language
  /-- From the first to past the last character that is not blank. -/
  range : Range
  /-- The number of the region among those of its language. -/
  index : Nat
  /-- Whether lines after the first lose their common indentation when the region is rendered. -/
  dedent : Bool
deriving DecidableEq, Repr

/-- A range that may become a region. -/
structure Candidate where
  language : Language
  range : Range
  dedent : Bool
deriving DecidableEq, Repr

namespace Candidate

/-- The range of a leaf without the blanks around its text, unless it is blank. -/
def trimmedRange? (n : Node) : Option Range :=
  n.text?.bind fun text =>
    let t := Text.splitTrim text.toList
    let start := (Cursor.mk n.range.span.start n.range.start).advance t.before
    if t.core.isEmpty then none else some (start.rangeTo (start.advance t.core))

/-- The inline python code in a statement. -/
def inline (n : Node) : List Candidate :=
  (((n.walk.filter (·.kind == .inlinePython)).filterMap (·.child? .pythonContent)).filterMap
    trimmedRange?).map fun r => ⟨.python, r, false⟩

/-- The candidates of a statement. -/
def ofStatement (n : Node) : List Candidate :=
  match n.kind with
  | .functionDefinition =>
    (n.child? .shellContent).toList.map fun body => ⟨.shell, body.range, false⟩
  | .pythonFunctionDefinition =>
    (n.child? .pythonContent).toList.map fun body => ⟨.python, body.range, true⟩
  | .pythonDefinition => [⟨.python, n.range, false⟩]
  | _ => inline n

/-- Whether a candidate starts no later than another. -/
def startsLe (a b : Candidate) : Bool :=
  decide (a.range.span.start ≤ b.range.span.start)

/-- Drops each candidate that starts before `stop`, the end of the one kept before it. -/
def dropNested (stop : Nat) : List Candidate → List Candidate
  | [] => []
  | c :: cs =>
    if c.range.span.start < stop then dropNested stop cs
    else c :: dropNested c.range.span.stop cs

/-- Numbers candidates by language; `counts` says how many of a language came before. -/
def number (counts : Language → Nat) : List Candidate → List Region
  | [] => []
  | c :: cs =>
    ⟨c.language, c.range, counts c.language, c.dedent⟩
      :: number (fun l => if l = c.language then counts l + 1 else counts l) cs

end Candidate

/-- The regions of a tree. -/
def Tree.regions (t : Tree) : List Region :=
  let candidates := (t.statements.flatMap Candidate.ofStatement).mergeSort Candidate.startsLe
  Candidate.number (fun _ => 0) (Candidate.dropNested 0 candidates)

/-- The region that owns a position, its ends included: the first of the first language that has
one. -/
def Region.at? (rs : List Region) (p : Position) : Option Region :=
  Language.all.findSome? fun l => rs.find? fun r => r.language == l && r.range.touches p

end Recipe
