import Recipe.Proofs.Grammar.Keyword
import Recipe.Proofs.Grammar.Written
import Recipe.Proofs.Tree.Line
import Recipe.Proofs.Tree.Sketch

/-!
# Trees of written assignments

The line of a written assignment is read back as one statement, and the statement's parts are the parts
that were written (`Assignment.parse_text`), unless the name begins with a keyword. A keyword can be the
name of a variable as well, but not every one, and not with overrides or a flag
(`Assignment.parse_keyword_text`).
-/

namespace Recipe

namespace Written

open Grammar
open Piece (nodesAfter)
open Text (bytes isBlank)

/-! ## Sketches of what is written -/

/-- A group in a value is python code if it begins with an at sign, and otherwise a variable. -/
def groupSketch (inside : List Char) : Sketch :=
  match inside with
  | '@' :: code =>
    .branch .inlinePython (.leaf .punctuation "$\x7b@" :: Sketch.leaves .pythonContent code
      ++ [.leaf .punctuation "\x7d"])
  | _ =>
    .branch .variableExpansion (.leaf .punctuation "$\x7b" :: Sketch.leaves .identifier inside
      ++ [.leaf .punctuation "\x7d"])

/-- The sketch of a segment of a value. -/
def segmentSketch : Segment → Sketch
  | .plain t => .leaf .stringContent (String.ofList t)
  | .expansion inside => groupSketch inside

/-- The sketch of an override. -/
def overrideSketch (n : Name) : Sketch :=
  .branch .override [.leaf .punctuation ":", .leaf .identifier (String.ofList n.text)]

/-- The sketch of a flag, if there is one. -/
def flagSketches : Option (List Char) → List Sketch
  | some f =>
    [.branch .variableFlag (.leaf .punctuation "[" :: Sketch.leaves .identifier f
      ++ [.leaf .punctuation "]"])]
  | none => []

namespace Assignment

/-- The sketch of a value between its quotes. -/
def valueSketch (a : Assignment) : Sketch :=
  .branch .string (.leaf .punctuation (String.ofList [a.quote])
    :: (segments a.value).map segmentSketch ++ [.leaf .punctuation (String.ofList [a.quote])])

/-- The sketch of an assignment: its name, overrides, flag, operator and value in the order in which
they are written. -/
def sketch (a : Assignment) : Sketch :=
  .branch .variableAssignment (.leaf .identifier (String.ofList a.name.text)
    :: a.overrides.map overrideSketch ++ flagSketches a.flag
    ++ [.leaf .operator a.operator, a.valueSketch])

end Assignment

theorem sketches_expansionPiece (inside : List Char) :
    (expansionPiece inside).sketches = [groupSketch inside] := by
  unfold expansionPiece groupSketch
  split
  · simp [Piece.sketches, Piece.sketchesAll, Piece.mark]
  · simp [Piece.sketches, Piece.sketchesAll, Piece.mark]

theorem sketches_segment (s : Segment) : s.piece.sketches = [segmentSketch s] := by
  cases s with
  | plain t => rfl
  | expansion inside => exact sketches_expansionPiece inside

theorem sketchesAll_flagPieces (flag : Option (List Char)) :
    Piece.sketchesAll (flagPieces flag) = flagSketches flag := by
  cases flag with
  | none => rfl
  | some f => simp [flagPieces, flagSketches, Piece.sketches, Piece.sketchesAll, Piece.mark]

namespace Assignment

theorem sketches_piece (a : Assignment) : a.piece.sketches = [a.sketch] := by
  have hoverrides : Piece.sketchesAll (a.overrides.map fun o => overridePiece o.text)
      = a.overrides.map overrideSketch :=
    Piece.sketchesAll_map (fun _ => rfl) _
  have hvalue : Piece.sketches (Value.piece a.quote ⟨segments a.value, []⟩) = [a.valueSketch] := by
    simp [Value.piece, valueSketch, Piece.sketches, Piece.sketchesAll, Piece.mark,
      Piece.sketchesAll_map sketches_segment]
  simp [piece, sketch, Piece.sketches, Piece.sketchesAll, hoverrides, hvalue,
    sketchesAll_flagPieces]

end Assignment

/-! ## No errors -/

theorem error_not_mem_leaves {k : Kind} (h : k ≠ .error) (text : List Char) :
    .error ∉ Sketch.kindsAll (Sketch.leaves k text) :=
  fun hm => h (List.mem_singleton.1 (Sketch.kindsAll_leaves k text hm)).symm

theorem error_not_mem_segment (s : Segment) : .error ∉ (segmentSketch s).kinds := by
  have hcode := error_not_mem_leaves (show Kind.pythonContent ≠ .error by decide)
  have hname := error_not_mem_leaves (show Kind.identifier ≠ .error by decide)
  cases s with
  | plain t => simp [segmentSketch, Sketch.kinds]
  | expansion inside =>
    rw [segmentSketch]
    unfold groupSketch
    split
    · simp [Sketch.kinds, Sketch.kindsAll, Sketch.kindsAll_append, hcode]
    · simp [Sketch.kinds, Sketch.kindsAll, Sketch.kindsAll_append, hname]

namespace Assignment

theorem error_not_mem_sketch (a : Assignment) : .error ∉ a.sketch.kinds := by
  have hname := error_not_mem_leaves (show Kind.identifier ≠ .error by decide)
  have hoverrides : .error ∉ Sketch.kindsAll (a.overrides.map overrideSketch) := by
    simp [Sketch.mem_kindsAll, overrideSketch, Sketch.kinds, Sketch.kindsAll]
  have hflag : .error ∉ Sketch.kindsAll (flagSketches a.flag) := by
    cases a.flag with
    | none => simp [flagSketches, Sketch.kindsAll]
    | some f => simp [flagSketches, Sketch.kinds, Sketch.kindsAll, Sketch.kindsAll_append, hname]
  have hsegments : .error ∉ Sketch.kindsAll ((segments a.value).map segmentSketch) := by
    intro h
    obtain ⟨s, hs, hk⟩ := Sketch.mem_kindsAll.1 h
    obtain ⟨g, -, rfl⟩ := List.mem_map.1 hs
    exact error_not_mem_segment g hk
  have hvalue : .error ∉ a.valueSketch.kinds := by
    simp [valueSketch, Sketch.kinds, Sketch.kindsAll, Sketch.kindsAll_append, hsegments]
  simp [sketch, Sketch.kinds, Sketch.kindsAll, Sketch.kindsAll_append, hoverrides, hflag, hvalue]

/-! ## Reading the line -/

theorem isBlank_quote (a : Assignment) : isBlank a.quote = false ∧ a.quote ≠ '{' ∧ a.quote ≠ ':' := by
  rcases eq_of_isQuote a.quote_ok with hq | hq <;> rw [hq] <;> decide

/-- The text of a written assignment has no blanks around it and is no header, so its nodes are
those of the statement that is read from it. -/
theorem nodesAfter_text (a : Assignment) :
    nodesAfter [] (read a.text) = nodesAfter [] [(Statement.read a.text).piece] := by
  obtain ⟨c, cs, hname, hc⟩ := a.name.exists_cons
  have hhead : a.text.head? = some c := by rw [text, hname, List.cons_append, List.head?_cons]
  have hlast : a.text.getLast? = some a.quote := by
    refine Text.getLast?_of_suffix a.quoted_suffix ?_
    rw [quoted, ← List.cons_append, List.getLast?_concat]
  obtain ⟨hquote, hheader⟩ := a.isBlank_quote
  have htrim : Text.splitTrim a.text = ⟨[], a.text, Text.trailing a.text⟩ := by
    rw [Text.splitTrim_of_head? hhead (isBlank_of_startsName hc), Text.trimEnd_of_getLast? hlast hquote]
  have hcomment : a.text.head? ≠ some '#' := by
    rw [hhead]
    rintro h
    cases h
    exact absurd hc (by decide)
  have hline := nodesAfter_line a.not_mem_text
    (by rw [htrim]; exact startsStatement_of_getLast? hlast hheader hcomment)
  rwa [htrim] at hline

theorem statements_of_parse_text {a : Assignment} {limit : Nat} {t : Tree}
    (h : parse limit (String.ofList a.text) = .ok t) :
    t.statements = nodesAfter [] [(Statement.read a.text).piece] := by
  rw [statements_of_parse h, String.toList_ofList, a.nodesAfter_text]

/-- A line that is read as an assignment is read as what was written. -/
theorem sketch_of_parse_text {a : Assignment} {limit : Nat} {t : Tree}
    (h : parse limit (String.ofList a.text) = .ok t)
    (hread : Statement.read a.text = Statement.readAssignment a.text) :
    t.statements.map Node.sketch = [a.sketch] ∧ t.errors = [] := by
  have hpiece : (Statement.read a.text).piece = a.piece := by
    rw [hread, Statement.readAssignment, a.assignment?_text, Option.getD_some]
  have hsketch : t.statements.map Node.sketch = [a.sketch] := by
    rw [statements_of_parse_text h, hpiece, Piece.map_sketch_nodesAfter, Piece.sketchesAll,
      a.sketches_piece]
    rfl
  refine ⟨hsketch, (errors_eq_nil_iff h).2 ?_⟩
  rw [hsketch, Sketch.kindsAll_singleton]
  exact a.error_not_mem_sketch

theorem head?_afterName (a : Assignment) : a.afterName.head?.any isNameChar = false := by
  have hends := a.afterName_endsName
  unfold endsName at hends
  cases h : a.afterName.head? with
  | none => rfl
  | some c =>
    rw [h, Option.all_some, Bool.and_eq_true, Bool.not_eq_true', startsName,
      Bool.or_eq_false_iff] at hends
    exact hends.1.1

theorem leadingWord_text (a : Assignment) : leadingWord a.text = leadingWord a.name.text :=
  leadingWord_append a.name.text a.head?_afterName

/-- What is written is read back: the tree of the line is the assignment alone, its parts are those
that were written, and there is no error in it. -/
theorem parse_text (limit : Nat) (a : Assignment)
    (hword : String.ofList (leadingWord a.name.text) ∉ statementWords)
    (hsize : bytes a.text ≤ limit) :
    ∃ t, parse limit (String.ofList a.text) = .ok t ∧
      t.statements.map Node.sketch = [a.sketch] ∧ t.errors = [] := by
  have hread : Statement.read a.text = Statement.readAssignment a.text := by
    refine Statement.read_of_not_mem fun w hw heq => hword ?_
    rw [← a.leadingWord_text, heq, String.ofList_toList]
    exact hw
  have hlimit : bytes (String.ofList a.text).toList ≤ limit := by rwa [String.toList_ofList]
  exact ⟨_, parse_eq_ok hlimit, sketch_of_parse_text (parse_eq_ok hlimit) hread⟩

end Assignment

/-- A name and a value with groups, next to characters that could begin others: the plus sign and the
dot of operators, the dollar sign of groups, the other quote. -/
def crowded : Assignment where
  name := ⟨[.char 'S', .char '+', .group "B\x7b\x7d".toList], by decide, by decide⟩
  overrides := [⟨[.char 'o', .char '.'], by decide, by decide⟩, ⟨[.group []], by decide, by decide⟩]
  flag := some ['f']
  gap := [' ', '\t']
  operator := "=."
  space := []
  quote := '\''
  value := [.plain "$ \"".toList, .escape '\'', .group "@f(\x7b1\x7d)".toList, .group [], .plain ['$']]
  flag_ok := by simp; decide
  gap_ne_nil := by decide
  gap_ok := by decide
  operator_mem := by decide
  space_ok := by decide
  quote_ok := by decide
  value_ok := by decide
  value_apart := by decide

theorem Assignment.parse_text_crowded :
    String.ofList (leadingWord crowded.name.text) ∉ statementWords ∧ bytes crowded.text ≤ 64 ∧
      ∃ t, parse 64 "S+$\x7bB\x7b\x7d\x7d:o.:$\x7b\x7d[f] \t=.'$ \"\\'$\x7b@f(\x7b1\x7d)\x7d$\x7b\x7d$'"
          = .ok t ∧
        t.statements.map Node.sketch = [.branch .variableAssignment
          [.leaf .identifier "S+$\x7bB\x7b\x7d\x7d",
            .branch .override [.leaf .punctuation ":", .leaf .identifier "o."],
            .branch .override [.leaf .punctuation ":", .leaf .identifier "$\x7b\x7d"],
            .branch .variableFlag
              [.leaf .punctuation "[", .leaf .identifier "f", .leaf .punctuation "]"],
            .leaf .operator "=.",
            .branch .string
              [.leaf .punctuation "'", .leaf .stringContent "$ \"\\'",
                .branch .inlinePython [.leaf .punctuation "$\x7b@", .leaf .pythonContent "f(\x7b1\x7d)",
                  .leaf .punctuation "\x7d"],
                .branch .variableExpansion [.leaf .punctuation "$\x7b", .leaf .punctuation "\x7d"],
                .leaf .stringContent "$", .leaf .punctuation "'"]]] ∧
        t.errors = [] := by
  have hword : String.ofList (leadingWord crowded.name.text) ∉ statementWords := by decide
  have hsize : bytes crowded.text ≤ 64 := by decide
  exact ⟨hword, hsize, crowded.parse_text 64 hword hsize⟩

/-! ## Keywords as names -/

namespace Assignment

/-- Whether an assignment to a keyword is to the word of a directive of the table and nothing else. -/
def IsBare (a : Assignment) : Prop :=
  String.ofList a.name.text ∈ Directive.table.map (·.word) ∧ a.overrides = [] ∧ a.flag = none

section Keyword

variable {a : Assignment} (h : String.ofList a.name.text ∈ statementWords)

include h

theorem words_of_keyword :
    leadingWord a.text = (String.ofList a.name.text).toList ∧ afterWord a.text = a.afterName := by
  have hall : a.name.text.all isNameChar = true := by
    simpa using all_statementWords _ h
  rw [a.leadingWord_text, leadingWord_of_all hall, String.toList_ofList]
  exact ⟨rfl, afterWord_append hall a.head?_afterName⟩

theorem read_of_isBare (hb : a.IsBare) :
    Statement.read a.text = Statement.readAssignment a.text := by
  obtain ⟨hword, hafter⟩ := words_of_keyword h
  obtain ⟨d, hd, hdw⟩ := List.mem_map.1 hb.1
  rw [← hdw] at hword
  refine Statement.read_of_operator hd hword ?_
  rw [hafter]
  exact a.operator?_afterName hb.2.1 hb.2.2

theorem kind?_read_of_not_isBare (hb : ¬a.IsBare) :
    Piece.kind? (Statement.read a.text).piece ≠ some .variableAssignment := by
  obtain ⟨hword, hafter⟩ := words_of_keyword h
  refine Statement.kind?_read_ne h hword fun hw => ?_
  rw [hafter]
  exact a.operator?_afterName_eq_none fun hf => hb ⟨hw, hf⟩

theorem exists_statement_of_not_isBare {limit : Nat} {t : Tree}
    (ht : parse limit (String.ofList a.text) = .ok t) (hb : ¬a.IsBare) :
    ∃ n, t.statements = [n] ∧ n.kind ≠ .variableAssignment := by
  obtain ⟨k, -, hk⟩ := List.mem_map.1 (kind?_read a.text)
  obtain ⟨n, hn, hkind⟩ := Piece.exists_node hk.symm []
  refine ⟨n, by rw [statements_of_parse_text ht, hn], ?_⟩
  rintro hassignment
  exact kind?_read_of_not_isBare h hb (by rw [← hk, ← hkind, hassignment])

end Keyword

/-- A keyword before an operator is the name of a variable if it is one of the table of directives. With
overrides or a flag after it, and for the other keywords, the line is one statement of another kind. -/
theorem parse_keyword_text (limit : Nat) (a : Assignment)
    (hname : String.ofList a.name.text ∈ statementWords) (hsize : bytes a.text ≤ limit) :
    ∃ t, parse limit (String.ofList a.text) = .ok t ∧
      (t.statements.map Node.sketch = [a.sketch] ∧ t.errors = [] ↔ a.IsBare) ∧
      (¬a.IsBare → ∃ n, t.statements = [n] ∧ n.kind ≠ .variableAssignment) := by
  have hlimit : bytes (String.ofList a.text).toList ≤ limit := by rwa [String.toList_ofList]
  have hparse := parse_eq_ok hlimit
  refine ⟨_, hparse, ⟨fun hsketch => ?_, fun hb => ?_⟩, exists_statement_of_not_isBare hname hparse⟩
  · by_contra hb
    obtain ⟨n, hn, hk⟩ := exists_statement_of_not_isBare hname hparse hb
    have hroot := hsketch.1
    rw [hn, List.map_singleton, List.singleton_inj] at hroot
    exact hk (by rw [← n.kind_sketch, hroot]; rfl)
  · exact sketch_of_parse_text hparse (read_of_isBare hname hb)

end Assignment

/-- An assignment to a variable that has the name of a directive. -/
def toInclude : Assignment where
  name := ⟨"include".toList.map .char, by decide, by decide⟩
  overrides := []
  flag := none
  gap := [' ']
  operator := "="
  space := [' ']
  quote := '"'
  value := [.plain ['x']]
  flag_ok := by simp
  gap_ne_nil := by decide
  gap_ok := by decide
  operator_mem := by decide
  space_ok := by decide
  quote_ok := by decide
  value_ok := by decide
  value_apart := by decide

theorem Assignment.parse_keyword_text_include :
    String.ofList toInclude.name.text ∈ statementWords ∧ bytes toInclude.text ≤ 64 ∧
      ∃ t, parse 64 "include = \"x\"" = .ok t ∧
        t.statements.map Node.sketch = [.branch .variableAssignment
          [.leaf .identifier "include", .leaf .operator "=",
            .branch .string [.leaf .punctuation "\"", .leaf .stringContent "x",
              .leaf .punctuation "\""]]] ∧
        t.errors = [] := by
  have hname : String.ofList toInclude.name.text ∈ statementWords := by decide
  have hsize : bytes toInclude.text ≤ 64 := by decide
  obtain ⟨t, ht, hiff, -⟩ := toInclude.parse_keyword_text 64 hname hsize
  exact ⟨hname, hsize, t, ht, hiff.2 ⟨by decide, rfl, rfl⟩⟩

/-- The same variable with an override. -/
def toIncludeOverride : Assignment :=
  { toInclude with overrides := [⟨"append".toList.map .char, by decide, by decide⟩] }

/-- With an override the line is an include of the rest of it. -/
theorem Assignment.include_override_not_assignment :
    toIncludeOverride.text = "include:append = \"x\"".toList ∧
      ∃ t n, parse 64 "include:append = \"x\"" = .ok t ∧ t.statements = [n] ∧
        n.kind = .includeDirective := by
  have hkind : Piece.kind? (Statement.read toIncludeOverride.text).piece = some .includeDirective := by
    decide
  obtain ⟨n, hn, hk⟩ := Piece.exists_node hkind []
  have hparse := parse_eq_ok (show bytes (String.ofList toIncludeOverride.text).toList ≤ 64 by decide)
  exact ⟨by decide, _, n, hparse, (statements_of_parse_text hparse).trans hn, hk⟩

end Written

end Recipe
