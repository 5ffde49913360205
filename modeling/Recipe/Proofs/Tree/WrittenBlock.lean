import Recipe.Proofs.Embedded.Append
import Recipe.Proofs.Grammar.WrittenBlock
import Recipe.Proofs.Tree.Assignment

/-!
# Trees of written blocks

A written task is the first statement of its text, with its body as content, and embeds the content as
one region (`Task.parse_task_append`). A written definition is the first statement of its text up to the
end of its body, and is one region as a whole (`Definition.parse_definition_append`). What is written
after either of them has the statements and the regions that it has on its own, further down.
-/

namespace Recipe

open Text (bytes isBlank)
open Piece (nodesAfter textAll)

/-- No node of a tree is an error, if its sketch has none. -/
theorem Node.isError_of_mem_walk {n : Node} (h : .error ∉ n.sketch.kinds) :
    ∀ m ∈ n.walk, m.isError = false := by
  intro m hm
  rw [walk_eq_preorder] at hm
  rw [kinds_sketch] at h
  refine beq_eq_false_iff_ne.2 fun hk => h ?_
  rw [← hk]
  exact List.mem_map_of_mem hm

theorem Range.core?_cons {c : Char} (hc : isBlank c = true) (pre text : List Char) :
    core? pre (c :: text) = core? (pre ++ [c]) text := by
  have hsplit : Text.splitTrim (c :: text)
      = { Text.splitTrim text with before := c :: (Text.splitTrim text).before } := by
    unfold Text.splitTrim Text.trimStart
    rw [List.takeWhile_cons_of_pos hc, List.dropWhile_cons_of_pos hc]
  rw [core?, core?, hsplit, List.append_assoc]
  rfl

/-- A single candidate, if there is one, becomes the region with ordinal 0. -/
theorem Candidate.number_toList (lang : Language) (dedent : Bool) (o : Option Range) :
    number (fun _ => 0) (o.toList.map fun r => ⟨lang, r, dedent⟩)
      = o.toList.map fun r => ⟨lang, r, 0, dedent⟩ := by
  cases o with
  | none => rfl
  | some r => rfl

namespace Written

open Grammar

theorem sketchesAll_content (k : Kind) (cs : List Char) :
    Piece.sketchesAll (content k cs).1 = Sketch.leaves k (Text.trim cs) := by
  have hcore : (Text.splitTrim cs).core = Text.trim cs := rfl
  unfold content Sketch.leaves
  rw [← hcore]
  dsimp only
  split
  · rfl
  · rfl

theorem trim_cons {c : Char} (hc : isBlank c = true) (cs : List Char) :
    Text.trim (c :: cs) = Text.trim cs := by
  rw [Text.trim, Text.trimStart, List.dropWhile_cons_of_pos hc]
  rfl

theorem trim_eq_nil_iff {cs : List Char} : Text.trim cs = [] ↔ cs.all isBlank = true :=
  ⟨Text.all_of_core_eq_nil, Text.core_eq_nil⟩

theorem all_linesText {ls : List (List Char)} :
    (linesText ls).all isBlank = true ↔ ∀ l ∈ ls, l.all isBlank = true := by
  have hfeed : isBlank '\n' = true := by decide
  simp [linesText, List.all_flatMap, hfeed]

/-- What follows lines is laid out as it is on its own, further down. -/
theorem nodesAfter_lines {ps : List Piece} {cs : List Char} (hps : textAll ps = cs)
    (hend : cs.getLast? = some '\n') (qs : List Piece) :
    nodesAfter [] (ps ++ qs)
      = nodesAfter [] ps ++ (nodesAfter [] qs).map (Node.shift (bytes cs) (cs.count '\n')) := by
  rw [Piece.nodesAfter_append, List.nil_append, hps, Piece.nodesAfter_eq_map_shift (.inr hend)]

/-! ## Tasks -/

namespace Task

variable (t : Task)

/-- The kind of a task. -/
def kind : Kind :=
  if t.isPython then .pythonFunctionDefinition else .functionDefinition

/-- The kind of the content of a task. -/
def contentKind : Kind :=
  if t.isPython then .pythonContent else .shellContent

/-- The language of a task. -/
def language : Language :=
  if t.isPython then .python else .shell

/-- The content of a task: its body without the blanks around it. -/
def content : List Char :=
  Text.trim (linesText t.body)

/-- The sketch of a task. A task with a blank body has no content. -/
def sketch : Sketch :=
  .branch t.kind (t.words.map (.leaf .keyword)
    ++ [.leaf .identifier (String.ofList t.name), .leaf .punctuation "(", .leaf .punctuation ")",
      .leaf .punctuation "\x7b"]
    ++ Sketch.leaves t.contentKind t.content ++ [.leaf .punctuation "\x7d"])

/-- Where the content of a task stands, unless its body is blank. -/
def contentRange? : Option Range :=
  Range.core? (t.header ++ ['\n']) (linesText t.body)

/-- The regions of a task: its content, unless its body is blank. -/
def regions : List Region :=
  t.contentRange?.toList.map fun r => ⟨t.language, r, 0, t.isPython⟩

/-- What stands in the node of a task. -/
def parts : List Piece :=
  t.taskHeader.front ++ [Piece.mark '{'] ++ (Grammar.content t.contentKind t.inside).1
    ++ [.gap (Grammar.content t.contentKind t.inside).2, Piece.mark '}']

/-- The node of a task that begins a text. -/
def node : Node :=
  .branch t.kind (.after [] (textAll t.parts)) (nodesAfter [] t.parts)

theorem nodesAfter_pieces : nodesAfter [] t.pieces = [t.node] := by
  rw [pieces, Piece.nodesAfter_gap, closedTask, Piece.nodesAfter_group, Piece.nodesAfter_gap,
    Piece.nodesAfter_nil]
  rfl

theorem textAll_pieces : textAll t.pieces = t.text := by
  have htext := textAll_read (t.text ++ [])
  rwa [t.read_text, Piece.textAll_append, textAll_read, List.append_nil, List.append_nil] at htext

theorem getLast?_text : t.text.getLast? = some '\n' := by
  have hbrace : linesText [['}']] = ['}', '\n'] := rfl
  rw [text, linesText_append, hbrace, List.getLast?_append]
  rfl

theorem sketchesAll_words (ws : List String) :
    Piece.sketchesAll (wordPieces ws) = ws.map (.leaf .keyword) := by
  induction ws with
  | nil => rfl
  | cons w ws ih =>
    rw [wordPieces, List.flatMap_cons, ← wordPieces, Piece.sketchesAll_append, ih, List.map_cons]
    simp [Piece.sketchesAll, Piece.sketches]

theorem sketch_node : t.node.sketch = t.sketch := by
  have hcontent : Text.trim t.inside = t.content := trim_cons (by decide) _
  have hparts : Node.sketchAll (nodesAfter [] t.parts) = Piece.sketchesAll t.parts := by
    rw [Node.sketchAll_eq_map, Piece.map_sketch_nodesAfter]
  rw [node, Node.sketch, hparts, parts, sketch, taskHeader, Piece.sketchesAll_append,
    Piece.sketchesAll_append, sketchesAll_content, hcontent]
  simp [Piece.sketchesAll, Piece.sketches, Piece.mark, sketchesAll_words]

theorem error_not_mem_sketch : .error ∉ t.sketch.kinds := by
  have hkind : t.kind ≠ .error := by
    unfold kind
    split <;> decide
  have hcontentKind : t.contentKind ≠ .error := by
    unfold contentKind
    split <;> decide
  have hwords : .error ∉ Sketch.kindsAll (t.words.map (.leaf .keyword)) := by
    simp [Sketch.mem_kindsAll, Sketch.kinds]
  simp [sketch, Sketch.kinds, Sketch.kindsAll, Sketch.kindsAll_append, hwords, Ne.symm hkind,
    error_not_mem_leaves hcontentKind]

theorem textAll_front : textAll (t.taskHeader.front ++ [Piece.mark '{']) = t.header := by
  have htext := (reads_taskHeader? t.read?_header []).eq_append
  rw [List.append_nil] at htext
  rw [Piece.textAll_append, htext]
  rfl

/-- The content is the one child of its kind, and it stands where the body does. -/
theorem childrenOfKind_node : t.node.childrenOfKind t.contentKind
    = (t.contentRange?.map fun r => Node.leaf t.contentKind r (String.ofList t.content)).toList := by
  have hfront := kind?_ne_contentKind t.read?_header (Piece.mark '{') (by decide)
  have hback : ∀ q ∈ [Piece.gap (Grammar.content t.contentKind t.inside).2, Piece.mark '}'],
      q.kind? ≠ some t.contentKind := by
    have hmark := hfront (Piece.mark '{') (List.mem_append_right _ (List.mem_singleton_self _))
    exact List.forall_mem_cons.2 ⟨by simp [Piece.kind?], List.forall_mem_singleton.2 hmark⟩
  have hrange : t.contentRange? = Range.core? ([] ++ textAll (t.taskHeader.front ++ [Piece.mark '{']))
      t.inside := by
    rw [List.nil_append, t.textAll_front, inside, Range.core?_cons (by decide)]
    rfl
  rw [hrange]
  exact filter_content t.contentKind hfront hback [] t.inside

theorem ofStatements_node : Region.ofStatements [t.node] = t.regions := by
  have hcandidates : Candidate.ofStatement t.node
      = t.contentRange?.toList.map fun r => ⟨t.language, r, t.isPython⟩ :=
    (ofStatement_task (h := t.taskHeader) t.childrenOfKind_node []).1
  rw [Region.ofStatements, List.flatMap_singleton, hcandidates, Candidate.number_toList]
  rfl

theorem child?_node : (t.node.child? t.contentKind).map Node.range = t.contentRange? := by
  rw [Node.child?_eq_head?, t.childrenOfKind_node, Option.head?_toList, Option.map_map]
  exact Option.map_id'

theorem contentRange?_eq_none : t.contentRange? = none ↔ ∀ l ∈ t.body, l.all isBlank = true := by
  have hcore : (Text.splitTrim (linesText t.body)).core = Text.trim (linesText t.body) := rfl
  rw [← all_linesText, ← trim_eq_nil_iff, contentRange?, Range.core?, hcore, ← List.isEmpty_iff]
  split
  · rename_i h
    simp [h]
  · rename_i h
    simp [h]

/-- A task is read alike whatever its body looks like and whatever follows: it is the first statement,
without an error, and its body without the blanks around it is its content, which a blank body does not
have. The content is the first region. After it come the statements and regions of what follows, as it
has them on its own, further down and counted on. -/
theorem parse_task_append (limit : Nat) (t : Task) (rest : String)
    (hsize : bytes t.text + bytes rest.toList ≤ limit) :
    ∃ whole after n, parse limit (String.ofList t.text ++ rest) = .ok whole ∧
      parse limit rest = .ok after ∧
      whole.statements
        = n :: after.statements.map (Node.shift (bytes t.text) (t.text.count '\n')) ∧
      n.sketch = t.sketch ∧ (∀ m ∈ n.walk, m.isError = false) ∧
      (n.child? t.contentKind).map Node.range = t.contentRange? ∧
      (t.contentRange? = none ↔ ∀ l ∈ t.body, l.all isBlank = true) ∧
      whole.regions = t.regions
        ++ after.regions.map (Region.below t.regions (bytes t.text) (t.text.count '\n')) := by
  obtain ⟨whole, hwhole⟩ : ∃ whole, parse limit (String.ofList t.text ++ rest) = .ok whole :=
    ⟨_, parse_eq_ok (by rwa [String.toList_append, String.toList_ofList, Text.bytes_append])⟩
  obtain ⟨after, hafter⟩ : ∃ after, parse limit rest = .ok after := ⟨_, parse_eq_ok (by omega)⟩
  have hstatements : whole.statements
      = [t.node] ++ after.statements.map (Node.shift (bytes t.text) (t.text.count '\n')) := by
    rw [statements_of_parse hwhole, String.toList_append, String.toList_ofList, t.read_text,
      nodesAfter_lines t.textAll_pieces t.getLast?_text, t.nodesAfter_pieces,
      statements_of_parse hafter]
  refine ⟨whole, after, t.node, hwhole, hafter, hstatements, t.sketch_node, ?_, t.child?_node,
    t.contentRange?_eq_none, ?_⟩
  · exact Node.isError_of_mem_walk (t.sketch_node ▸ t.error_not_mem_sketch)
  · rw [Tree.regions_append hwhole hafter hstatements, t.ofStatements_node]

end Task

/-- A task whose body looks like other statements: a header, braces, a line that goes on after its end,
a string that is not closed. -/
def misleading : Task where
  words := ["fakeroot", "python"]
  name := "do_a:$\x7bB\x7d".toList
  body := [" \t\r".toList, "  def f(x): \\".toList, " \x7d; \x7b".toList, "do_b() \x7b".toList,
    "A = \"é ".toList, []]
  words_ok := by decide
  name_ne_nil := by decide
  name_ok := by decide
  name_apart := by decide
  body_ok := by decide

theorem Task.parse_task_append_misleading :
    bytes misleading.text + bytes "python do_c() \x7b\n1\n\x7d\n".toList ≤ 128 ∧
      ∃ whole after n,
        parse 128 (String.ofList misleading.text ++ "python do_c() \x7b\n1\n\x7d\n") = .ok whole ∧
        parse 128 "python do_c() \x7b\n1\n\x7d\n" = .ok after ∧
        whole.statements = n :: after.statements.map (Node.shift 75 8) ∧
        n.sketch = .branch .pythonFunctionDefinition
          [.leaf .keyword "fakeroot", .leaf .keyword "python", .leaf .identifier "do_a:$\x7bB\x7d",
            .leaf .punctuation "(", .leaf .punctuation ")", .leaf .punctuation "\x7b",
            .leaf .pythonContent "def f(x): \\\n \x7d; \x7b\ndo_b() \x7b\nA = \"é",
            .leaf .punctuation "\x7d"] ∧
        (∀ m ∈ n.walk, m.isError = false) ∧
        (n.child? .pythonContent).map Node.range = some ⟨⟨36, 70⟩, ⟨2, 2⟩, ⟨5, 7⟩⟩ ∧
        (misleading.contentRange? = none ↔ ∀ l ∈ misleading.body, l.all isBlank = true) ∧
        whole.regions = ⟨.python, ⟨⟨36, 70⟩, ⟨2, 2⟩, ⟨5, 7⟩⟩, 0, true⟩
          :: after.regions.map (Region.below misleading.regions 75 8) := by
  have hsize : bytes misleading.text + bytes "python do_c() \x7b\n1\n\x7d\n".toList ≤ 128 := by decide
  exact ⟨hsize, misleading.parse_task_append 128 _ hsize⟩

/-! ## Definitions -/

theorem textAll_content_append (k : Kind) (cs : List Char) :
    textAll (Grammar.content k cs).1 ++ (Grammar.content k cs).2 = cs := by
  have htext := (reads_content k cs []).eq_append
  rw [List.append_nil, List.append_nil] at htext
  exact htext.symm

/-- A text that ends with no blank and the content after it make up all but the blanks at the end. -/
theorem append_content {front : List Char} {c : Char} (hlast : front.getLast? = some c)
    (hc : isBlank c = false) (k : Kind) (cs : List Char) :
    front ++ textAll (Grammar.content k cs).1 = Text.trimEnd (front ++ cs) := by
  have hend : ∃ d, (front ++ textAll (Grammar.content k cs).1).getLast? = some d ∧
      isBlank d = false := by
    unfold Grammar.content
    dsimp only
    split
    · exact ⟨c, by rw [textAll, List.append_nil, hlast], hc⟩
    · rename_i hcore
      obtain ⟨ds, d, hd⟩ := List.eq_nil_or_concat (Text.splitTrim cs).core
        |>.resolve_left (fun h => hcore (List.isEmpty_iff.2 h))
      have hlast : (Text.splitTrim cs).core.getLast? = some d := by simp [hd]
      exact ⟨d, by simp [textAll, Piece.text, hd], Text.getLast?_core hlast⟩
  obtain ⟨d, hd, hsolid⟩ := hend
  calc front ++ textAll (Grammar.content k cs).1
      = Text.trimEnd (front ++ textAll (Grammar.content k cs).1) :=
        (Text.trimEnd_of_getLast? hd hsolid).symm
    _ = Text.trimEnd (front ++ textAll (Grammar.content k cs).1 ++ (Grammar.content k cs).2) :=
        (Text.trimEnd_append_blank _ (all_content k cs)).symm
    _ = Text.trimEnd (front ++ cs) := by rw [List.append_assoc, textAll_content_append]

namespace Definition

variable (d : Definition)

/-- The sketch of a definition. -/
def sketch : Sketch :=
  .branch .pythonDefinition ([.leaf .keyword "def", .leaf .identifier (String.ofList d.name),
    .leaf .pythonContent (String.ofList d.arguments), .leaf .punctuation ":"]
    ++ Sketch.leaves .pythonContent (Text.trim (linesText d.body)))

/-- What is taken of a header and of the lines after it, the last one first: all up to the last line that
is not blank, and that one without the blanks at its end. -/
def extentOf (header : List Char) : List (List Char) → List Char
  | [] => header
  | l :: before =>
    if l.all isBlank then extentOf header before
    else linesText (header :: before.reverse) ++ Text.trimEnd l

/-- What a definition takes of its text. -/
def extent : List Char :=
  extentOf d.header d.body.reverse

/-- What stands in the node of a definition. -/
def parts : List Piece :=
  d.headerPieces ++ (Grammar.content .pythonContent ('\n' :: linesText d.body)).1

/-- The node of a definition that begins a text. -/
def node : Node :=
  .branch .pythonDefinition (.after [] (textAll d.parts)) (nodesAfter [] d.parts)

theorem text_eq : d.text = d.header ++ '\n' :: linesText d.body :=
  linesText_cons d.header d.body

theorem extentOf_reverse (ls : List (List Char)) :
    extentOf d.header ls = Text.trimEnd (linesText (d.header :: ls.reverse)) := by
  have hfeed : ['\n'].all isBlank = true := by decide
  induction ls with
  | nil =>
    have hone : linesText [d.header] = d.header ++ ['\n'] := linesText_cons d.header []
    rw [List.reverse_nil, hone, Text.trimEnd_append_blank _ hfeed,
      Text.trimEnd_of_getLast? d.getLast?_header (by decide), extentOf]
  | cons l ls ih =>
    have hlast : linesText [l] = l ++ ['\n'] := linesText_cons l []
    rw [List.reverse_cons, ← List.cons_append, linesText_append, hlast, ← List.append_assoc,
      Text.trimEnd_append_blank _ hfeed, extentOf]
    split
    · rename_i hl
      rw [ih, Text.trimEnd_append_blank _ hl]
    · rename_i hl
      rw [Text.trimEnd_append _ fun hnil => hl (Text.trimEnd_eq_nil.1 hnil)]

theorem extent_eq_trimEnd : d.extent = Text.trimEnd d.text := by
  rw [extent, d.extentOf_reverse, List.reverse_reverse, text]

theorem textAll_parts : textAll d.parts = d.extent := by
  have hheader := (reads_definitionHeader? d.definitionHeader?_header []).eq_append
  rw [List.append_nil, List.append_nil] at hheader
  rw [parts, Piece.textAll_append, ← hheader, append_content d.getLast?_header (by decide), ← d.text_eq,
    d.extent_eq_trimEnd]

theorem textAll_lines : Line.textAll (⟨d.header, ['\n']⟩ :: d.body.map (Line.ofText ['\n'])) = d.text := by
  rw [Grammar.textAll_cons, textAll_map_ofText, d.text_eq, Line.text, List.append_assoc]
  rfl

theorem all_inDefinition : (d.body.map (Line.ofText ['\n'])).all Line.inDefinition = true := by
  rw [List.all_map]
  exact List.all_eq_true.2 fun l hl => inDefinition_of_standsInDefinition (d.body_ok l hl).2

theorem nodesAfter_definitionBlock : nodesAfter [] (definitionBlock d.headerPieces (Text.splitTrim d.header)
    ['\n'] (d.body.map (Line.ofText ['\n']) ++ [.empty])).pieces = [d.node] := by
  have htake : (d.body.map (Line.ofText ['\n']) ++ [Line.empty]).takeWhile Line.inDefinition
      = d.body.map (Line.ofText ['\n']) ++ [.empty] :=
    List.takeWhile_append_of_pos (List.all_eq_true.1 d.all_inDefinition)
  have hinside : Line.textAll (d.body.map (Line.ofText ['\n']) ++ [.empty]) = linesText d.body := by
    rw [textAll_append, textAll_map_ofText]
    exact List.append_nil _
  rw [definitionBlock, htake, hinside, d.splitTrim_header, Piece.nodesAfter_gap, Piece.nodesAfter_group,
    Piece.nodesAfter_gap, Piece.nodesAfter_nil]
  rfl

theorem getLast?_text : d.text.getLast? = some '\n' := by
  obtain ⟨ls, l, hl⟩ := List.eq_nil_or_concat (d.header :: d.body) |>.resolve_left (List.cons_ne_nil _ _)
  have hlast : linesText [l] = l ++ ['\n'] := linesText_cons l []
  rw [text, hl, List.concat_eq_append, linesText_append, hlast, ← List.append_assoc, List.getLast?_concat]

/-- A definition takes its body, the blank lines after it are left out, and what follows is laid out as
it is on its own, further down. -/
theorem nodesAfter_text {rest : List Char}
    (h : ((Text.lines rest).find? (!·.all isBlank)).any (·.head?.any [' ', '\t', '#'].contains)
      = false) :
    nodesAfter [] (Grammar.read (d.text ++ rest))
      = d.node :: (nodesAfter [] (Grammar.read rest)).map
          (Node.shift (bytes d.text) (d.text.count '\n')) := by
  have hheader : definitionHeader? (Text.splitTrim d.header).core = some d.headerPieces := by
    rw [d.splitTrim_header]
    exact d.definitionHeader?_header
  obtain ⟨hnodes, hrest, htext⟩ := definitionBlock_append_blank [] (l := ⟨d.header, ['\n']⟩) hheader
    d.all_inDefinition (terminated_ofTexts (Text.lines rest)) ((find?_ofTexts _).trans h)
  rw [Grammar.read, d.ofTexts_text, nodesAfter_block, d.block_header, hnodes, hrest, htext,
    d.textAll_lines, ← List.append_assoc, ← nodesAfter_dropWhile, List.nil_append,
    d.nodesAfter_definitionBlock, Piece.nodesAfter_eq_map_shift (.inr d.getLast?_text)]
  rfl

theorem sketch_node : d.node.sketch = d.sketch := by
  have hcontent : Text.trim ('\n' :: linesText d.body) = Text.trim (linesText d.body) :=
    trim_cons (by decide) _
  have hparts : Node.sketchAll (nodesAfter [] d.parts) = Piece.sketchesAll d.parts := by
    rw [Node.sketchAll_eq_map, Piece.map_sketch_nodesAfter]
  rw [node, Node.sketch, hparts, parts, sketch, Piece.sketchesAll_append, sketchesAll_content, hcontent]
  rfl

theorem error_not_mem_sketch : .error ∉ d.sketch.kinds := by
  simp [sketch, Sketch.kinds, Sketch.kindsAll, error_not_mem_leaves]

theorem ofStatements_node : Region.ofStatements [d.node] = [⟨.python, .after [] d.extent, 0, false⟩] := by
  rw [← d.textAll_parts]
  rfl

/-- A definition is read alike whatever its parameters and its body look like and whatever follows that
could not stand in it: it is the first statement, without an error, it goes up to the last line of its
body that is not blank, and it is the first region as a whole. After it come the statements and regions
of what follows, as it has them on its own, further down and counted on. -/
theorem parse_definition_append (limit : Nat) (d : Definition) (rest : String)
    (hrest : ∀ l, (Text.lines rest.toList).find? (!·.all isBlank) = some l →
      l.head?.any [' ', '\t', '#'].contains = false)
    (hsize : bytes d.text + bytes rest.toList ≤ limit) :
    ∃ whole after n, parse limit (String.ofList d.text ++ rest) = .ok whole ∧
      parse limit rest = .ok after ∧
      whole.statements
        = n :: after.statements.map (Node.shift (bytes d.text) (d.text.count '\n')) ∧
      n.sketch = d.sketch ∧ (∀ m ∈ n.walk, m.isError = false) ∧ n.range = .after [] d.extent ∧
      whole.regions = ⟨.python, .after [] d.extent, 0, false⟩ :: after.regions.map
        (Region.below [⟨.python, .after [] d.extent, 0, false⟩] (bytes d.text) (d.text.count '\n')) := by
  obtain ⟨whole, hwhole⟩ : ∃ whole, parse limit (String.ofList d.text ++ rest) = .ok whole :=
    ⟨_, parse_eq_ok (by rwa [String.toList_append, String.toList_ofList, Text.bytes_append])⟩
  obtain ⟨after, hafter⟩ : ∃ after, parse limit rest = .ok after := ⟨_, parse_eq_ok (by omega)⟩
  have hfirst : ((Text.lines rest.toList).find? (!·.all isBlank)).any
      (·.head?.any [' ', '\t', '#'].contains) = false := by
    cases hl : (Text.lines rest.toList).find? (!·.all isBlank) with
    | none => rfl
    | some l => exact hrest l hl
  have hstatements : whole.statements
      = [d.node] ++ after.statements.map (Node.shift (bytes d.text) (d.text.count '\n')) := by
    rw [statements_of_parse hwhole, String.toList_append, String.toList_ofList, d.nodesAfter_text hfirst,
      statements_of_parse hafter]
    rfl
  refine ⟨whole, after, d.node, hwhole, hafter, hstatements, d.sketch_node, ?_, ?_, ?_⟩
  · exact Node.isError_of_mem_walk (d.sketch_node ▸ d.error_not_mem_sketch)
  · exact congrArg (Range.after []) d.textAll_parts
  · rw [Tree.regions_append hwhole hafter hstatements, d.ofStatements_node]
    rfl

end Definition

/-- A definition with a colon and parentheses in its parameters, and blank lines within its body and at
its end. -/
def annotated : Definition where
  name := "f_1".toList
  parameters := "a=\"):\") -> (b: c".toList
  body := [[], "  if a: \\".toList, " ".toList, "# é".toList, "\tdef g(): \r".toList, "\r".toList, []]
  name_ne_nil := by decide
  name_ok := by decide
  parameters_ok := by decide
  body_ok := by decide

theorem Definition.parse_definition_append_annotated :
    (Text.lines "\r\n\t\nA = \"$\x7b@f()\x7d\"".toList).find? (!·.all isBlank)
        = some "A = \"$\x7b@f()\x7d\"".toList ∧
      bytes annotated.text + bytes "\r\n\t\nA = \"$\x7b@f()\x7d\"".toList ≤ 96 ∧
      ∃ whole after n,
        parse 96 (String.ofList annotated.text ++ "\r\n\t\nA = \"$\x7b@f()\x7d\"") = .ok whole ∧
        parse 96 "\r\n\t\nA = \"$\x7b@f()\x7d\"" = .ok after ∧
        whole.statements = n :: after.statements.map (Node.shift 60 8) ∧
        n.sketch = .branch .pythonDefinition
          [.leaf .keyword "def", .leaf .identifier "f_1", .leaf .pythonContent "(a=\"):\") -> (b: c)",
            .leaf .punctuation ":", .leaf .pythonContent "if a: \\\n \n# é\n\tdef g():"] ∧
        (∀ m ∈ n.walk, m.isError = false) ∧ n.range = ⟨⟨0, 54⟩, ⟨0, 0⟩, ⟨5, 9⟩⟩ ∧
        whole.regions = ⟨.python, ⟨⟨0, 54⟩, ⟨0, 0⟩, ⟨5, 9⟩⟩, 0, false⟩ :: after.regions.map
          (Region.below [⟨.python, ⟨⟨0, 54⟩, ⟨0, 0⟩, ⟨5, 9⟩⟩, 0, false⟩] 60 8) := by
  have hfirst : (Text.lines "\r\n\t\nA = \"$\x7b@f()\x7d\"".toList).find? (!·.all isBlank)
      = some "A = \"$\x7b@f()\x7d\"".toList := by decide
  have hsize : bytes annotated.text + bytes "\r\n\t\nA = \"$\x7b@f()\x7d\"".toList ≤ 96 := by decide
  refine ⟨hfirst, hsize, annotated.parse_definition_append 96 _ (fun l hl => ?_) hsize⟩
  rw [hfirst, Option.some.injEq] at hl
  rw [← hl]
  decide

end Written

end Recipe
