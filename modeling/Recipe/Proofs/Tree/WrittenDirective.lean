import Recipe.Proofs.Grammar.WrittenDirective
import Recipe.Proofs.Tree.Assignment

/-!
# Trees of written directives

The tree of a written directive has its keyword and its words, and nothing of what separates them
(`WordDirective.parse_words`). So it is the same however the directive is spaced and wrapped.
-/

namespace Recipe.Written

open Grammar
open Piece (nodesAfter)
open Text (bytes isBlank)

theorem isPrefix_of_lines {cs l : List Char} {ls : List (List Char)} (h : Text.lines cs = l :: ls) :
    l <+: cs := by
  have hfirst : (Text.lines cs)[0]? = some l := by rw [h, List.getElem?_cons_zero]
  obtain ⟨a, b, hcs, -, -, ha⟩ := Text.exists_of_getElem?_lines hfirst
  obtain rfl : a = [] := Text.bytes_eq_zero.1 ha
  exact ⟨b, hcs.symm⟩

/-- Joined lines are one statement, if the first one begins a statement. -/
theorem nodesAfter_of_joined {cs l : List Char} {ls : List (List Char)} (h : Joined cs)
    (hlines : Text.lines cs = l :: ls) (hstarts : StartsStatement (Text.splitTrim l).core) {c d : Char}
    (hhead : l.head? = some c) (hc : isBlank c = false) (hlast : cs.getLast? = some d)
    (hd : isBlank d = false) :
    nodesAfter [] (Grammar.read cs) = nodesAfter [] [(Statement.read cs).piece] := by
  obtain ⟨feed, ms, hms⟩ : ∃ feed ms, Line.ofTexts (Text.lines cs) = Line.ofText feed l :: ms := by
    rw [hlines]
    cases ls with
    | nil => exact ⟨[], [], rfl⟩
    | cons m ls => exact ⟨['\n'], _, rfl⟩
  have hline := logicalLine_of_joined h hlast hd hms
  obtain ⟨hcore, hbefore⟩ := splitTrim_ofText feed l
  have hbefore : (Text.splitTrim (Line.ofText feed l).body).before = [] := by
    rw [hbefore hstarts.ne_nil, Text.splitTrim_of_head? hhead hc]
  have hbody := Text.splitTrim_append (Line.ofText feed l).body
  rw [hbefore, List.nil_append] at hbody
  rw [← hcore] at hstarts
  rw [Grammar.read, hms, document, block_of_startsStatement hstarts, statementBlock, hbody, hbefore, hline,
    document, List.append_nil]
  exact nodesAfter_between ..

/-- The leaves of the words that a directive takes. Among the words after the name of a task, those that
say when it runs are keywords. -/
def argumentLeaves : Arguments → List (List Char) → List Sketch
  | .paths, ws => ws.map fun w => .leaf .path (String.ofList w)
  | .task, [] => []
  | .task, w :: ws => .leaf .identifier (String.ofList w) :: ws.map fun v =>
      .leaf (if v = "after".toList ∨ v = "before".toList then .keyword else .identifier) (String.ofList v)
  | _, ws => ws.map fun w => .leaf .identifier (String.ofList w)

namespace WordDirective

variable (w : WordDirective)

/-- The sketch of a directive. -/
def sketch : Sketch :=
  .branch w.directive.kind (.leaf .keyword w.directive.word
    :: argumentLeaves w.directive.arguments (w.words.map Word.word))

theorem sketchesAll_flatMap (k : SpacedWord → Kind) (ws : List SpacedWord) :
    Piece.sketchesAll (ws.flatMap fun v => v.pieces (k v))
      = ws.map fun v => .leaf (k v) (String.ofList v.word) := by
  induction ws with
  | nil => rfl
  | cons v ws ih =>
    rw [List.flatMap_cons, Piece.sketchesAll_append, ih]
    rfl

theorem sketchesAll_arguments (a : Arguments) (ws : List SpacedWord) :
    Piece.sketchesAll (argumentPieces a ws) = argumentLeaves a (ws.map SpacedWord.word) := by
  have hnames : Piece.sketchesAll (ws.flatMap (SpacedWord.pieces .identifier))
      = (ws.map SpacedWord.word).map fun w => .leaf .identifier (String.ofList w) := by
    rw [sketchesAll_flatMap fun _ => .identifier, List.map_map]
    rfl
  cases a with
  | paths =>
    rw [argumentPieces, sketchesAll_flatMap fun _ => .path, argumentLeaves, List.map_map]
    rfl
  | path => exact hnames
  | names => exact hnames
  | variableFlag => exact hnames
  | task =>
    cases ws with
    | nil => rfl
    | cons v ws =>
      rw [argumentPieces, taskPieces, Piece.sketchesAll_append, sketchesAll_flatMap clauseKind, List.map_cons,
        argumentLeaves, List.map_map]
      rfl

theorem sketches_piece : w.piece.sketches = [w.sketch] := by
  rw [piece, Piece.sketches, Piece.sketchesAll, sketchesAll_arguments, List.map_map]
  simp [Piece.sketches, sketch, Word.spaced, Function.comp_def]

theorem error_not_mem_map_leaf {k : List Char → Kind} (hk : ∀ v, k v ≠ .error) (ws : List (List Char)) :
    .error ∉ Sketch.kindsAll (ws.map fun v => .leaf (k v) (String.ofList v)) := by
  rw [Sketch.mem_kindsAll]
  rintro ⟨s, hs, hkind⟩
  obtain ⟨v, -, rfl⟩ := List.mem_map.1 hs
  exact hk v (List.mem_singleton.1 hkind).symm

theorem error_not_mem_argumentLeaves (a : Arguments) (ws : List (List Char)) :
    .error ∉ Sketch.kindsAll (argumentLeaves a ws) := by
  have hnames : .error ∉ Sketch.kindsAll (ws.map fun v => .leaf .identifier (String.ofList v)) :=
    error_not_mem_map_leaf (fun _ => by decide) ws
  cases a with
  | paths => exact error_not_mem_map_leaf (fun _ => by decide) ws
  | path => exact hnames
  | names => exact hnames
  | variableFlag => exact hnames
  | task =>
    cases ws with
    | nil => exact List.not_mem_nil
    | cons w ws =>
      intro hmem
      refine (List.mem_cons.1 hmem).elim (by decide) (error_not_mem_map_leaf (fun v => ?_) ws)
      split <;> decide

theorem error_not_mem_sketch : .error ∉ w.sketch.kinds := by
  have hkinds : ∀ d ∈ Directive.exportFunctions :: Directive.table, d.kind ≠ .error := by decide
  simp [sketch, Sketch.kinds, Sketch.kindsAll, error_not_mem_argumentLeaves,
    Ne.symm (hkinds _ w.directive_mem)]

theorem isBlank_keyword {c : Char} (h : c ∈ w.directive.word.toList) : isBlank c = false :=
  isBlank_of_startsName (by rw [startsName, List.all_eq_true.1 w.all_word c h, Bool.true_or])

theorem trimEnd_keyword_append (v : List Char) :
    Text.trimEnd (w.directive.word.toList ++ v) = w.directive.word.toList ++ Text.trimEnd v := by
  by_cases hv : Text.trimEnd v = []
  · have hne : w.directive.word.toList ≠ [] := by
      obtain ⟨c, cs, hc, -⟩ := w.exists_keyword
      rw [hc]
      exact List.cons_ne_nil _ _
    have hlast := List.getLast?_eq_some_getLast hne
    rw [hv, List.append_nil, Text.trimEnd_append_blank _ (Text.trimEnd_eq_nil.1 hv),
      Text.trimEnd_of_getLast? hlast (w.isBlank_keyword (List.getLast_mem hne))]
  · exact Text.trimEnd_append _ hv

theorem getLast?_text : ∃ c, w.text.getLast? = some c ∧ isBlank c = false := by
  obtain ⟨ws, v, hv⟩ := List.eq_nil_or_concat w.words |>.resolve_left (List.cons_ne_nil _ _)
  have htext : w.text = w.directive.word.toList ++ (argumentsText ws ++ v.gap) ++ v.word := by
    simp [text, hv, argumentsText, Word.text]
  have hmem := List.getLast_mem v.word_ne_nil
  have hok := List.all_eq_true.1 v.word_ok _ hmem
  rw [isWordChar, Bool.and_eq_true, Bool.not_eq_true'] at hok
  refine ⟨_, ?_, hok.1⟩
  rw [htext, List.getLast?_append, List.getLast?_eq_some_getLast v.word_ne_nil]
  rfl

theorem nodesAfter_text : nodesAfter [] (Grammar.read w.text) = nodesAfter [] [w.piece] := by
  obtain ⟨v, back, hback⟩ := List.exists_cons_of_ne_nil (Text.lines_ne_nil (argumentsText w.words))
  have hfeed : '\n' ∉ w.directive.word.toList := fun h => absurd (w.isBlank_keyword h) (by decide)
  have hkeyword : Text.lines w.directive.word.toList = [] ++ [w.directive.word.toList] :=
    Text.lines_of_not_mem hfeed
  have hlines : Text.lines w.text = (w.directive.word.toList ++ v) :: back :=
    Text.lines_append hkeyword hback
  have hjoined : Joined w.text := (joined_of_not_mem hfeed).append (joined_argumentsText w.words)
  obtain ⟨c, cs, hc, -⟩ := w.exists_keyword
  have hhead : (w.directive.word.toList ++ v).head? = some c := by
    rw [hc]
    rfl
  have hblank : isBlank c = false := w.isBlank_keyword (hc ▸ List.mem_cons_self)
  have hstarts : StartsStatement (Text.splitTrim (w.directive.word.toList ++ v)).core := by
    rw [Text.splitTrim_of_head? hhead hblank, w.trimEnd_keyword_append]
    refine w.startsStatement_append (List.IsPrefix.trans ?_ (isPrefix_of_lines hback))
    exact ⟨_, Text.trimEnd_append_trailing v⟩
  obtain ⟨d, hlast, hd⟩ := w.getLast?_text
  rw [nodesAfter_of_joined hjoined hlines hstarts hhead hblank hlast hd, w.read_text]

/-- A directive is read alike however its words are set apart and wrapped: the tree is the directive
alone, with its keyword and its words, and there is no error in it. -/
theorem parse_words (limit : Nat) (w : WordDirective) (hsize : bytes w.text ≤ limit) :
    ∃ t, parse limit (String.ofList w.text) = .ok t ∧ t.statements.map Node.sketch = [w.sketch] ∧
      t.errors = [] := by
  have hlimit : bytes (String.ofList w.text).toList ≤ limit := by rwa [String.toList_ofList]
  obtain ⟨t, hparse⟩ : ∃ t, parse limit (String.ofList w.text) = .ok t := ⟨_, parse_eq_ok hlimit⟩
  have hsketch : t.statements.map Node.sketch = [w.sketch] := by
    rw [statements_of_parse hparse, String.toList_ofList, w.nodesAfter_text, Piece.map_sketch_nodesAfter,
      Piece.sketchesAll, w.sketches_piece]
    rfl
  refine ⟨t, hparse, hsketch, (errors_eq_nil_iff hparse).2 ?_⟩
  rw [hsketch, Sketch.kindsAll_singleton]
  exact w.error_not_mem_sketch

end WordDirective

/-- A directive on five lines, one of them with nothing but a backslash on it, whose words are the
keywords of its clauses and characters of headers and assignments. -/
def wrapped : WordDirective where
  directive := ⟨"addtask", .addTaskStatement, .task⟩
  first := ⟨[.returnFeed, .tab, .feed, .feed], "after".toList, by decide, by decide, by decide⟩
  others :=
    [⟨[.space], "before".toList, by decide, by decide, by decide⟩,
      ⟨[.feed, .space], "\"é=()\x7b".toList, by decide, by decide, by decide⟩,
      ⟨[.tab, .returnFeed], "after".toList, by decide, by decide, by decide⟩]
  directive_mem := by decide
  takes_words := by decide
  not_parenthesis := by decide
  not_operator := by decide

theorem WordDirective.parse_words_wrapped :
    bytes wrapped.text ≤ 64 ∧
      ∃ t, parse 64 "addtask\\\r\n\t\\\n\\\nafter before\\\n \"é=()\x7b\t\\\r\nafter" = .ok t ∧
        t.statements.map Node.sketch = [.branch .addTaskStatement
          [.leaf .keyword "addtask", .leaf .identifier "after", .leaf .keyword "before",
            .leaf .identifier "\"é=()\x7b", .leaf .keyword "after"]] ∧
        t.errors = [] := by
  have hsize : bytes wrapped.text ≤ 64 := by decide
  exact ⟨hsize, wrapped.parse_words 64 hsize⟩

end Recipe.Written
