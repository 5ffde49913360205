import Recipe.Proofs.Grammar.Append
import Recipe.Proofs.Grammar.Keyword
import Recipe.Proofs.Tree.Line

/-!
# Written blocks

A task and a python definition as they are written: a header line and the lines of a body (`Task`,
`Definition`). The header is read back from its line (`Task.read?_header`,
`Definition.definitionHeader?_header`), and the body is not looked into but for where it ends: a task
takes the lines up to its closing brace and leaves what is written after it to be read on its own
(`Task.read_text`).
-/

namespace Recipe.Written

open Grammar
open Text (isBlank)

/-! ## Lines -/

/-- The text of lines, each with its line feed. -/
def linesText (ls : List (List Char)) : List Char :=
  ls.flatMap (· ++ ['\n'])

theorem linesText_cons (l : List Char) (ls : List (List Char)) :
    linesText (l :: ls) = l ++ '\n' :: linesText ls := by
  rw [linesText, List.flatMap_cons, List.append_assoc]
  rfl

theorem linesText_append (ls ms : List (List Char)) :
    linesText (ls ++ ms) = linesText ls ++ linesText ms :=
  List.flatMap_append

theorem textAll_map_ofText (ls : List (List Char)) :
    Line.textAll (ls.map (Line.ofText ['\n'])) = linesText ls := by
  rw [Line.textAll, List.flatMap_map, linesText]
  exact List.flatMap_congr fun l _ => text_ofText ['\n'] l

theorem lines_linesText {ls : List (List Char)} (h : ∀ l ∈ ls, '\n' ∉ l) (cs : List Char) :
    Text.lines (linesText ls ++ cs) = ls ++ Text.lines cs := by
  induction ls with
  | nil => rfl
  | cons l ls ih =>
    obtain ⟨hl, hls⟩ := List.forall_mem_cons.1 h
    rw [linesText_cons, List.append_assoc, List.cons_append, Text.lines_append_lineFeed hl, ih hls,
      List.cons_append]

/-- Lines that are put before a text are physical lines before those of the text. -/
theorem ofTexts_linesText {ls : List (List Char)} (h : ∀ l ∈ ls, '\n' ∉ l) (cs : List Char) :
    Line.ofTexts (Text.lines (linesText ls ++ cs))
      = ls.map (Line.ofText ['\n']) ++ Line.ofTexts (Text.lines cs) := by
  rw [lines_linesText h, ofTexts_append ls (Text.lines_ne_nil cs)]

theorem ofText_of_getLast? {l : List Char} {c : Char} (h : l.getLast? = some c) (hc : c ≠ '\r')
    (feed : List Char) : Line.ofText feed l = ⟨l, feed⟩ := by
  rw [Line.ofText, if_neg (by simpa [h] using hc)]

theorem splitTrim_of_solid {cs : List Char} {c d : Char} (hc : cs.head? = some c)
    (hcb : isBlank c = false) (hd : cs.getLast? = some d) (hdb : isBlank d = false) :
    Text.splitTrim cs = ⟨[], cs, []⟩ := by
  have htrim := Text.trimEnd_of_getLast? hd hdb
  rw [Text.splitTrim_of_head? hc hcb, Text.trailing, htrim, List.drop_length]

theorem exists_cons_of_all {p : Char → Bool} {cs : List Char} (hne : cs ≠ []) (h : cs.all p = true) :
    ∃ c ds, cs = c :: ds ∧ p c = true := by
  obtain ⟨c, ds, hc⟩ := List.exists_cons_of_ne_nil hne
  exact ⟨c, ds, hc, List.all_eq_true.1 h c (hc ▸ List.mem_cons_self)⟩

/-- If a class of characters has neither the space nor the tab nor the carriage return, none of its
characters is an inline blank. -/
theorem not_isInlineBlank {p : Char → Bool} (hp : [' ', '\t', '\r'].any p = false) {c : Char}
    (hc : p c = true) : isInlineBlank c = false := by
  refine Bool.eq_false_iff.2 fun hb => ?_
  have hany : [' ', '\t', '\r'].any p = true := List.any_eq_true.2 ⟨c, List.contains_iff_mem.1 hb, hc⟩
  rw [hp] at hany
  cases hany

/-! ## Headers of tasks -/

/-- The keywords of tasks. -/
def taskKeywords : List String :=
  ["python", "fakeroot"]

theorem all_taskKeywords : ∀ w ∈ taskKeywords, w.toList.all isNameChar = true := by
  decide

theorem taskKeyword?_of_mem {w : String} (hw : w ∈ taskKeywords) {cs : List Char}
    (h : leadingWord cs = w.toList) : taskKeyword? cs = some (w, afterWord cs) := by
  have hkeyword := keyword?_eq (all_taskKeywords w hw) cs
  rw [if_pos h] at hkeyword
  have hcases : w = "python" ∨ w = "fakeroot" := by simpa [taskKeywords] using hw
  unfold taskKeyword?
  rcases hcases with rfl | rfl
  · rw [List.findSome?_cons, hkeyword]
    rfl
  · have hpython := keyword?_eq (all_taskKeywords "python" (by decide)) cs
    rw [if_neg (by rw [h]; decide)] at hpython
    rw [List.findSome?_cons, hpython, Option.map_none, List.findSome?_cons, hkeyword]
    rfl

theorem taskKeyword?_eq_none {cs : List Char} (h : ∀ w ∈ taskKeywords, leadingWord cs ≠ w.toList) :
    taskKeyword? cs = none := by
  refine List.findSome?_eq_none_iff.2 fun w hw => ?_
  have hw : w ∈ taskKeywords := hw
  rw [keyword?_eq (all_taskKeywords w hw), if_neg (h w hw), Option.map_none]

/-- The text of keywords, each with a blank after it. -/
def wordsText (ws : List String) : List Char :=
  ws.flatMap fun w => w.toList ++ [' ']

/-- The pieces of keywords with blanks after them. -/
def wordPieces (ws : List String) : List Piece :=
  ws.flatMap fun w => [.token .keyword w.toList, .gap [' ']]

theorem inlineBlanks_cons {cs : List Char} (h : cs.head?.any isInlineBlank = false) :
    inlineBlanks (' ' :: cs) = ⟨[' '], cs⟩ := by
  have hblank : [' '].all isInlineBlank = true := by decide
  exact span_of_all hblank h

theorem head?_wordsText {ws : List String} (hw : ws ⊆ taskKeywords) {rest : List Char}
    (h : rest.head?.any isInlineBlank = false) :
    (wordsText ws ++ rest).head?.any isInlineBlank = false := by
  cases ws with
  | nil => exact h
  | cons w ws =>
    have hfirst : ∀ w ∈ taskKeywords, ∃ c cs, w.toList = c :: cs ∧ isInlineBlank c = false := by
      simp [taskKeywords]
      decide
    obtain ⟨c, cs, hc, hb⟩ := hfirst w (hw List.mem_cons_self)
    rw [wordsText, List.flatMap_cons, hc]
    simpa using hb

/-- The keywords of a header are read up to a text that begins with none of them. -/
theorem taskWords_text {ws : List String} (hw : ws ⊆ taskKeywords) {rest : List Char}
    (hr : ∀ w ∈ taskKeywords, leadingWord rest ≠ w.toList)
    (hb : rest.head?.any isInlineBlank = false) :
    taskWords (wordsText ws ++ rest) = ⟨ws.contains "python", wordPieces ws, rest⟩ := by
  induction ws with
  | nil =>
    rw [wordsText, List.flatMap_nil, List.nil_append, taskWords]
    split
    · rename_i hk
      rw [taskKeyword?_eq_none hr] at hk
      cases hk
    · rfl
  | cons w ws ih =>
    obtain ⟨hmem, hws⟩ := List.cons_subset.1 hw
    have hall := all_taskKeywords w hmem
    have htext : wordsText (w :: ws) ++ rest = w.toList ++ (' ' :: (wordsText ws ++ rest)) := by
      simp [wordsText]
    have hblank : (' ' :: (wordsText ws ++ rest)).head?.any isNameChar = false := by
      rw [List.head?_cons]
      decide
    have hword : leadingWord (w.toList ++ ' ' :: (wordsText ws ++ rest)) = w.toList := by
      rw [leadingWord_append _ hblank, leadingWord_of_all hall]
    have hkeyword := taskKeyword?_of_mem hmem hword
    rw [afterWord_append hall hblank] at hkeyword
    rw [htext, taskWords]
    split
    · rename_i v after hk
      rw [hkeyword] at hk
      cases hk
      dsimp only
      rw [inlineBlanks_cons (head?_wordsText hws hb)]
      dsimp only
      rw [ih hws, TaskWords.push, List.contains_cons, wordPieces, wordPieces, List.flatMap_cons]
      congr 2
      exact Bool.beq_comm
    · rename_i hk
      rw [hkeyword] at hk
      cases hk

/-! ## Tasks -/

theorem isBlank_of_isTaskNameChar {c : Char} (h : isTaskNameChar c = true) : isBlank c = false := by
  rw [isTaskNameChar, Bool.or_eq_true] at h
  rcases h with h | h
  · exact isBlank_of_startsName (by rw [startsName, h, Bool.true_or])
  · have hmarks : ['$', '{', '}', ':'].all (fun d => !isBlank d) = true := by decide
    simpa using List.all_eq_true.1 hmarks c (List.contains_iff_mem.1 h)

/-- A task as it is written: the keywords and the name of its header, and the lines of its body, none of
which closes it. -/
structure Task where
  words : List String
  name : List Char
  body : List (List Char)
  words_ok : words ⊆ taskKeywords
  name_ne_nil : name ≠ []
  name_ok : name.all isTaskNameChar = true
  name_apart : ∀ w ∈ taskKeywords, ¬w.toList <+: name
  body_ok : ∀ l ∈ body, '\n' ∉ l ∧ Text.trimEnd l ≠ ['}']

namespace Task

variable (t : Task)

/-- The line that begins a task. -/
def header : List Char :=
  wordsText t.words ++ (t.name ++ "() \x7b".toList)

/-- The text of a task: its header, its body and its closing brace, each on lines of their own. -/
def text : List Char :=
  linesText (t.header :: t.body ++ [['}']])

/-- Whether one of the keywords says that the body is python code. -/
def isPython : Bool :=
  t.words.contains "python"

/-- What the header of a task is read as. -/
def taskHeader : TaskHeader :=
  ⟨t.isPython, wordPieces t.words ++ [.token .identifier t.name, .gap []]
    ++ [Piece.mark '(', .gap [], Piece.mark ')', .gap [' ']]⟩

theorem exists_name : ∃ c cs, t.name = c :: cs ∧ isTaskNameChar c = true :=
  exists_cons_of_all t.name_ne_nil t.name_ok

theorem leadingWord_name {w : String} (hw : w ∈ taskKeywords) :
    leadingWord (t.name ++ "() \x7b".toList) ≠ w.toList := by
  intro h
  rw [leadingWord_append t.name (by decide)] at h
  exact t.name_apart w hw (h ▸ List.takeWhile_prefix _)

theorem not_isInlineBlank_name : (t.name ++ "() \x7b".toList).head?.any isInlineBlank = false := by
  obtain ⟨c, cs, hname, hc⟩ := t.exists_name
  rw [hname, List.cons_append, List.head?_cons, Option.any_some]
  exact not_isInlineBlank (by decide) hc

/-- Reading the header of a written task gives its task header. -/
theorem read?_header : TaskHeader.read? t.header = some t.taskHeader := by
  have hwords := taskWords_text t.words_ok (fun w hw => t.leadingWord_name hw) t.not_isInlineBlank_name
  have hname : Cut.span isTaskNameChar (t.name ++ "() \x7b".toList) = ⟨t.name, "() \x7b".toList⟩ :=
    span_of_all t.name_ok (by decide)
  have htoken : Piece.tokens .identifier t.name = [.token .identifier t.name] :=
    if_neg (by simpa using t.name_ne_nil)
  have hempty : ¬(t.name.isEmpty && !t.words.contains "python") = true := by
    simp [t.name_ne_nil]
  have hopening : mark? '(' (inlineBlanks "() \x7b".toList).rest
      = some ⟨[Piece.mark '(', .gap []], ") \x7b".toList⟩ := rfl
  have hclosing : mark? ')' ") \x7b".toList = some ⟨[Piece.mark ')', .gap [' ']], ['{']⟩ := rfl
  rw [TaskHeader.read?, header, hwords]
  dsimp only
  rw [hname]
  dsimp only
  rw [if_neg hempty, hopening, Option.bind_some, hclosing, Option.bind_some, if_pos rfl, htoken]
  simp only [taskHeader, isPython, List.append_assoc]
  rfl

theorem getLast?_header : t.header.getLast? = some '{' := by
  rw [header, ← List.append_assoc, List.getLast?_append]
  rfl

theorem not_mem_header : '\n' ∉ t.header := by
  have hwords : '\n' ∉ wordsText t.words := by
    intro h
    obtain ⟨w, hw, hc⟩ := List.mem_flatMap.1 h
    have hnone : ∀ w ∈ taskKeywords, '\n' ∉ w.toList ++ [' '] := by decide
    exact hnone w (t.words_ok hw) hc
  have hname : '\n' ∉ t.name := fun h =>
    absurd (List.all_eq_true.1 t.name_ok _ h) (by decide)
  have hend : '\n' ∉ "() \x7b".toList := by decide
  rw [header, List.mem_append, List.mem_append]
  exact fun h => h.elim hwords fun h => h.elim hname hend

/-- The header has no blanks around it and is no comment. -/
theorem splitTrim_header : Text.splitTrim t.header = ⟨[], t.header, []⟩ ∧ t.header.head? ≠ some '#' := by
  have hhead : ∃ c, t.header.head? = some c ∧ isTaskNameChar c = true := by
    cases hw : t.words with
    | nil =>
      obtain ⟨c, cs, hname, hc⟩ := t.exists_name
      exact ⟨c, by rw [header, hw, hname]; rfl, hc⟩
    | cons w ws =>
      have hfirst : ∀ w ∈ taskKeywords, w.toList.head?.any isTaskNameChar = true := by decide
      have hany := hfirst w (t.words_ok (hw ▸ List.mem_cons_self))
      obtain ⟨c, hc, hok⟩ := (Option.any_eq_true _ _).1 hany
      refine ⟨c, ?_, hok⟩
      rw [header, hw, wordsText, List.flatMap_cons, List.append_assoc, List.append_assoc,
        List.head?_append, hc]
      rfl
  obtain ⟨c, hc, hok⟩ := hhead
  refine ⟨splitTrim_of_solid hc (isBlank_of_isTaskNameChar hok) t.getLast?_header (by decide), ?_⟩
  rintro hcomment
  rw [hc, Option.some.injEq] at hcomment
  rw [hcomment] at hok
  exact absurd hok (by decide)

/-- What stands between the braces of a task. -/
def inside : List Char :=
  '\n' :: linesText t.body

/-- The pieces that a task is read as. -/
def pieces : List Piece :=
  .gap [] :: closedTask t.taskHeader t.inside ⟨['}'], ['\n']⟩

/-- The lines of the body do not close the task, whatever they look like, and the brace after them
does. -/
theorem taskBlock_body (ls : List Line) :
    taskBlock t.taskHeader ⟨[], t.header, []⟩ ['\n']
        (t.body.map (Line.ofText ['\n']) ++ ⟨['}'], ['\n']⟩ :: ls) = ⟨t.pieces, ls⟩ := by
  have hopen : ∀ l ∈ t.body.map (Line.ofText ['\n']), (!l.closesTask) = true := by
    intro l hl
    obtain ⟨m, hm, rfl⟩ := List.mem_map.1 hl
    have hne : (Text.trimEnd m == ['}']) = false := beq_eq_false_iff_ne.2 (t.body_ok m hm).2
    rw [Line.closesTask, trimEnd_body_ofText, hne]
    rfl
  have hclose : ∀ ls : List Line, (⟨['}'], ['\n']⟩ :: ls).takeWhile (!·.closesTask) = [] ∧
      (⟨['}'], ['\n']⟩ :: ls).dropWhile (!·.closesTask) = ⟨['}'], ['\n']⟩ :: ls := fun ls =>
    ⟨List.takeWhile_cons_of_neg (by decide), List.dropWhile_cons_of_neg (by decide)⟩
  rw [taskBlock, List.takeWhile_append_of_pos hopen, List.dropWhile_append_of_pos hopen,
    (hclose ls).1, (hclose ls).2, List.append_nil, textAll_map_ofText]
  rfl

theorem block_header (ls : List Line) :
    block ⟨t.header, ['\n']⟩ ls = taskBlock t.taskHeader ⟨[], t.header, []⟩ ['\n'] ls := by
  obtain ⟨htrim, hcomment⟩ := t.splitTrim_header
  obtain ⟨c, cs, hname, -⟩ := t.exists_name
  have hne : ¬t.header.isEmpty = true := by simp [header, hname]
  rw [block, htrim]
  dsimp only
  rw [if_neg hne, if_neg hcomment, t.read?_header]

/-- A task and what is written after it are read one after the other. -/
theorem read_text (rest : List Char) :
    Grammar.read (t.text ++ rest) = t.pieces ++ Grammar.read rest := by
  have hfeed : ∀ l ∈ t.header :: t.body ++ [['}']], '\n' ∉ l := by
    refine List.forall_mem_append.2 ⟨List.forall_mem_cons.2 ⟨t.not_mem_header, ?_⟩, by decide⟩
    exact fun l hl => (t.body_ok l hl).1
  have hheader := ofText_of_getLast? t.getLast?_header (by decide) ['\n']
  have hbrace : [['}']].map (Line.ofText ['\n']) = [⟨['}'], ['\n']⟩] := rfl
  rw [Grammar.read, text, ofTexts_linesText hfeed, List.map_append, List.map_cons, hheader, hbrace,
    List.append_assoc, List.cons_append, List.singleton_append, document, t.block_header,
    t.taskBlock_body]
  rfl

end Task

/-! ## Definitions -/

/-- Whether a line can stand in the body of a definition: it is blank, indented or a comment. -/
def standsInDefinition (l : List Char) : Bool :=
  l.all isBlank || l.head?.any [' ', '\t', '#'].contains

/-- A python definition as it is written: the name and the parameters of its header, and the lines of
its body. -/
structure Definition where
  name : List Char
  parameters : List Char
  body : List (List Char)
  name_ne_nil : name ≠ []
  name_ok : name.all isDefinitionNameChar = true
  parameters_ok : '\n' ∉ parameters
  body_ok : ∀ l ∈ body, '\n' ∉ l ∧ standsInDefinition l = true

theorem inDefinition_of_standsInDefinition {l : List Char} (h : standsInDefinition l = true) :
    (Line.ofText ['\n'] l).inDefinition = true := by
  cases hl : l.all isBlank with
  | true => rw [Line.inDefinition, isBlank_ofText, hl, Bool.true_or]
  | false =>
    rw [standsInDefinition, hl, Bool.false_or] at h
    rw [inDefinition_ofText hl, h]

namespace Definition

variable (d : Definition)

/-- The parameters in their parentheses. -/
def arguments : List Char :=
  '(' :: (d.parameters ++ [')'])

/-- The line that begins a definition. -/
def header : List Char :=
  "def ".toList ++ (d.name ++ (d.arguments ++ [':']))

/-- The text of a definition: its header and its body. -/
def text : List Char :=
  linesText (d.header :: d.body)

/-- What the header of a definition is read as. -/
def headerPieces : List Piece :=
  [.token .keyword "def".toList, .gap [' '], .token .identifier d.name, .gap [],
    .token .pythonContent d.arguments, .gap [], Piece.mark ':']

theorem splitTrim_arguments : Text.splitTrim d.arguments = ⟨[], d.arguments, []⟩ :=
  splitTrim_of_solid (c := '(') (d := ')') rfl (by decide)
    (by rw [arguments, ← List.cons_append, List.getLast?_concat]) (by decide)

/-- The header is read back, whatever stands between its parentheses. -/
theorem definitionHeader?_header : definitionHeader? d.header = some d.headerPieces := by
  have hrest : d.header = "def".toList ++ (' ' :: (d.name ++ (d.arguments ++ [':']))) := rfl
  have hblank : (' ' :: (d.name ++ (d.arguments ++ [':']))).head?.any isNameChar = false := by
    rw [List.head?_cons]
    decide
  have hdef : "def".toList.all isNameChar = true := by decide
  have hkeyword : keyword? "def" d.header = some (' ' :: (d.name ++ (d.arguments ++ [':']))) := by
    rw [keyword?_eq hdef, hrest, leadingWord_append _ hblank, if_pos (leadingWord_of_all hdef),
      afterWord_append hdef hblank]
  have hgap : inlineBlanks (' ' :: (d.name ++ (d.arguments ++ [':'])))
      = ⟨[' '], d.name ++ (d.arguments ++ [':'])⟩ := by
    obtain ⟨c, cs, hname, hc⟩ := exists_cons_of_all d.name_ne_nil d.name_ok
    refine inlineBlanks_cons ?_
    rw [hname, List.cons_append, List.head?_cons, Option.any_some]
    exact not_isInlineBlank (by decide) hc
  have hspan : Cut.span isDefinitionNameChar (d.name ++ (d.arguments ++ [':']))
      = ⟨d.name, d.arguments ++ [':']⟩ := by
    have hparenthesis : isDefinitionNameChar '(' = false := by decide
    exact span_of_all d.name_ok hparenthesis
  have hcond : (!d.name.isEmpty && decide ((d.arguments ++ [':']).getLast? = some ':')
      && decide (d.arguments.head? = some '(')) = true := by
    rw [List.getLast?_concat]
    simp [d.name_ne_nil, arguments]
  rw [definitionHeader?, hkeyword, Option.bind_some]
  dsimp only
  rw [hgap]
  dsimp only
  rw [hspan]
  dsimp only
  rw [List.dropLast_concat, d.splitTrim_arguments, if_pos hcond]
  rfl

theorem getLast?_header : d.header.getLast? = some ':' := by
  rw [header, ← List.append_assoc, ← List.append_assoc, List.getLast?_concat]

theorem splitTrim_header : Text.splitTrim d.header = ⟨[], d.header, []⟩ :=
  splitTrim_of_solid (c := 'd') rfl (by decide) d.getLast?_header (by decide)

theorem not_mem_header : '\n' ∉ d.header := by
  have hname : '\n' ∉ d.name := fun h => absurd (List.all_eq_true.1 d.name_ok _ h) (by decide)
  simp [header, arguments, hname, d.parameters_ok]

theorem block_header (ls : List Line) : block ⟨d.header, ['\n']⟩ ls
    = definitionBlock d.headerPieces (Text.splitTrim d.header) ['\n'] ls := by
  have htask : TaskHeader.read? d.header = none := by
    refine Option.eq_none_iff_forall_ne_some.2 fun h hh => ?_
    have hlast := getLast?_of_taskHeader hh
    rw [d.getLast?_header] at hlast
    cases hlast
  have hne : ¬d.header.isEmpty = true := by simp [header]
  have hcomment : d.header.head? ≠ some '#' := by simp [header]
  rw [block, d.splitTrim_header]
  dsimp only
  rw [if_neg hne, if_neg hcomment, htask, d.definitionHeader?_header]

theorem ofTexts_text (rest : List Char) : Line.ofTexts (Text.lines (d.text ++ rest))
    = ⟨d.header, ['\n']⟩ :: (d.body.map (Line.ofText ['\n']) ++ Line.ofTexts (Text.lines rest)) := by
  have hfeed : ∀ l ∈ d.header :: d.body, '\n' ∉ l :=
    List.forall_mem_cons.2 ⟨d.not_mem_header, fun l hl => (d.body_ok l hl).1⟩
  rw [text, ofTexts_linesText hfeed, List.map_cons,
    ofText_of_getLast? d.getLast?_header (by decide), List.cons_append]

end Definition

end Recipe.Written
