import Recipe.Proofs.Grammar.Block
import Recipe.Proofs.Text.Offset

/-!
# Blocks and the lines after them

How far a block looks. A block that has found its end among the lines it is given is read alike
whatever lines follow (`block_append`). The two that have not are a task without its closing brace,
which takes all lines, and a python definition, which takes further blank, indented and comment
lines. If a definition only meets blank lines, its content stays as it is (`content_append_blank`).
-/

namespace Recipe.Grammar

open Text (isBlank endsLine)

/-! ## Logical lines -/

/-- A logical line ends with the first line that is not joined to the next one. -/
theorem logicalLine_append {l : Line} {ls : List Line}
    (h : ((l :: ls).getLast?).any joinsNext = false) (more : List Line) :
    logicalLine l (ls ++ more)
      = { logicalLine l ls with rest := (logicalLine l ls).rest ++ more } := by
  induction ls generalizing l with
  | nil =>
    have hl : joinsNext l = false := by simpa using h
    cases more with
    | nil => rfl
    | cons m more => simp [logicalLine, hl]
  | cons m ls ih =>
    rw [List.cons_append, logicalLine, logicalLine]
    split
    · rw [ih (by rwa [List.getLast?_cons_cons] at h)]
    · rfl

/-- The blanks before a line do not matter to whether it is joined to the next one. -/
theorem joinsNext_core {l : Line} (h : (Text.splitTrim l.body).core ≠ []) :
    joinsNext { l with body := (Text.splitTrim l.body).core ++ (Text.splitTrim l.body).after }
      = joinsNext l := by
  have hcore : Text.trimEnd ((Text.splitTrim l.body).core ++ (Text.splitTrim l.body).after)
      = (Text.splitTrim l.body).core :=
    congrArg Text.trimEnd (Text.trimEnd_append_trailing (Text.trimStart l.body))
  have hbody : Text.trimEnd l.body = (Text.splitTrim l.body).before ++ (Text.splitTrim l.body).core := by
    have ht := Text.trimEnd_append (Text.splitTrim l.body).before (by rwa [hcore])
    rwa [Text.splitTrim_append, hcore] at ht
  obtain ⟨cs, c, hc⟩ := List.eq_nil_or_concat (Text.splitTrim l.body).core |>.resolve_left h
  unfold joinsNext
  rw [hcore, hbody, hc]
  simp

/-! ## Bodies -/

/-- Blanks after a content are not part of it. -/
theorem content_append_blank (kind : Kind) (cs : List Char) {ds : List Char}
    (h : ds.all isBlank = true) : (content kind (cs ++ ds)).1 = (content kind cs).1 := by
  obtain ⟨hc, hb⟩ := Text.splitTrim_append_blank cs h
  unfold content
  dsimp only
  rw [hc]
  split
  · rfl
  · rename_i hne
    rw [hb (fun hn => hne (by rw [hn]; rfl))]

/-- The lines that some test lets through end among the first ones, if it stops one of them. -/
theorem span_append {p : Line → Bool} {ls : List Line} (h : ls.all p = false) (more : List Line) :
    (ls ++ more).takeWhile p = ls.takeWhile p ∧ (ls ++ more).dropWhile p = ls.dropWhile p ++ more := by
  induction ls with
  | nil => cases h
  | cons l ls ih =>
    rw [List.cons_append]
    by_cases hl : p l = true
    · rw [List.all_cons, hl, Bool.true_and] at h
      rw [List.takeWhile_cons_of_pos hl, List.takeWhile_cons_of_pos hl, List.dropWhile_cons_of_pos hl,
        List.dropWhile_cons_of_pos hl]
      exact ⟨congrArg (l :: ·) (ih h).1, (ih h).2⟩
    · rw [List.takeWhile_cons_of_neg hl, List.takeWhile_cons_of_neg hl, List.dropWhile_cons_of_neg hl,
        List.dropWhile_cons_of_neg hl]
      exact ⟨rfl, rfl⟩

/-! ## Blocks -/

/-- Pieces and lines after them, with more lines after those. -/
def Block.append (b : Block) (more : List Line) : Block :=
  { b with rest := b.rest ++ more }

theorem taskBlock_append {ls : List Line} (hc : ls.all (!·.closesTask) = false) (h : TaskHeader)
    (t : Text.Trimmed) (ending : List Char) (more : List Line) :
    taskBlock h t ending (ls ++ more) = (taskBlock h t ending ls).append more := by
  obtain ⟨htake, hdrop⟩ := span_append hc more
  unfold taskBlock
  dsimp only
  rw [htake, hdrop]
  cases hd : ls.dropWhile (!·.closesTask) with
  | nil =>
    have hall := List.takeWhile_append_dropWhile (p := (!·.closesTask)) (l := ls)
    rw [hd, List.append_nil] at hall
    rw [← hall, List.all_takeWhile] at hc
    cases hc
  | cons closing rest => rfl

theorem definitionBlock_append {ls : List Line} (hd : ls.all Line.inDefinition = false)
    (header : List Piece) (t : Text.Trimmed) (ending : List Char) (more : List Line) :
    definitionBlock header t ending (ls ++ more) = (definitionBlock header t ending ls).append more := by
  obtain ⟨htake, hdrop⟩ := span_append hd more
  unfold definitionBlock
  rw [htake, hdrop]
  rfl

/-- A block that ends on a line of its own is read alike whatever follows. The others are a task that
no line closes and a definition that no line ends. -/
theorem block_append {l : Line} {ls : List Line}
    (h : ((l :: ls).getLast?).any joinsNext = false) :
    (∀ more, block l (ls ++ more) = (block l ls).append more) ∨
    (∃ header, TaskHeader.read? (Text.splitTrim l.body).core = some header ∧
      ls.all (!·.closesTask) = true ∧
      ∀ more, block l (ls ++ more) = taskBlock header (Text.splitTrim l.body) l.ending (ls ++ more)) ∨
    (∃ header, definitionHeader? (Text.splitTrim l.body).core = some header ∧
      ls.all Line.inDefinition = true ∧
      ∀ more, block l (ls ++ more)
        = definitionBlock header (Text.splitTrim l.body) l.ending (ls ++ more)) := by
  unfold block
  dsimp only
  split
  · exact .inl fun more => rfl
  rename_i hcore
  split
  · exact .inl fun more => rfl
  split
  · rename_i header hh
    cases hc : ls.all (!·.closesTask) with
    | false => exact .inl fun more => taskBlock_append hc header _ _ more
    | true => exact .inr (.inl ⟨header, hh, rfl, fun more => rfl⟩)
  split
  · rename_i header hh
    cases hd : ls.all Line.inDefinition with
    | false => exact .inl fun more => definitionBlock_append hd header _ _ more
    | true => exact .inr (.inr ⟨header, hh, rfl, fun more => rfl⟩)
  · refine .inl fun more => ?_
    have hj := joinsNext_core fun hn => hcore (by rw [hn]; rfl)
    unfold statementBlock
    dsimp only
    rw [logicalLine_append]
    · rfl
    · cases ls with
      | nil => simpa [hj] using h
      | cons m ls => simpa using h

/-- A definition takes blank lines only, if the first line that is not blank cannot stand in it. -/
theorem span_inDefinition {ls : List Line}
    (h : (ls.find? (!·.isBlank)).any Line.inDefinition = false) :
    ls.takeWhile Line.inDefinition = ls.takeWhile Line.isBlank ∧
      ls.dropWhile Line.inDefinition = ls.dropWhile Line.isBlank := by
  induction ls with
  | nil => exact ⟨rfl, rfl⟩
  | cons l ls ih =>
    by_cases hl : l.isBlank = true
    · have hd : l.inDefinition = true := by rw [Line.inDefinition, hl, Bool.true_or]
      rw [List.find?_cons_of_neg (by rw [hl]; decide)] at h
      rw [List.takeWhile_cons_of_pos hl, List.takeWhile_cons_of_pos hd, List.dropWhile_cons_of_pos hl,
        List.dropWhile_cons_of_pos hd]
      exact ⟨congrArg (l :: ·) (ih h).1, (ih h).2⟩
    · rw [List.find?_cons_of_pos (by rw [Bool.not_eq_true] at hl; rw [hl]; rfl)] at h
      have hd : ¬ l.inDefinition = true := by simpa using h
      rw [List.takeWhile_cons_of_neg hl, List.takeWhile_cons_of_neg hd, List.dropWhile_cons_of_neg hl,
        List.dropWhile_cons_of_neg hd]
      exact ⟨rfl, rfl⟩

/-! ## Lines -/

theorem textAll_append (ls ms : List Line) :
    Line.textAll (ls ++ ms) = Line.textAll ls ++ Line.textAll ms :=
  List.flatMap_append

theorem all_textAll_takeWhile {ls : List Line} (h : Terminated ls) :
    (Line.textAll (ls.takeWhile Line.isBlank)).all isBlank = true := by
  induction ls with
  | nil => rfl
  | cons l ls ih =>
    by_cases hl : l.isBlank = true
    · have hb : l.body.all isBlank = true := hl
      rw [List.takeWhile_cons_of_pos hl, textAll_cons, List.all_append, Line.text, List.all_append, hb,
        h.1, ih h.2.2]
      rfl
    · rw [List.takeWhile_cons_of_neg hl]
      rfl

theorem ofTexts_append (front : List (List Char)) {ts : List (List Char)} (h : ts ≠ []) :
    Line.ofTexts (front ++ ts) = front.map (Line.ofText ['\n']) ++ Line.ofTexts ts := by
  induction front with
  | nil => rfl
  | cons l front ih =>
    obtain ⟨m, ls, hm⟩ := List.exists_cons_of_ne_nil (List.append_ne_nil_of_right_ne_nil front h)
    rw [List.cons_append, hm, Line.ofTexts, ← hm, ih]
    rfl

theorem terminated_map_ofText (ts : List (List Char)) :
    Terminated (ts.map (Line.ofText ['\n'])) := by
  induction ts with
  | nil => trivial
  | cons l ts ih =>
    have he : endsLine (['\n'] ++ Line.textAll (ts.map (Line.ofText ['\n']))) = true := rfl
    obtain ⟨hb, he⟩ := terminated_ofText l (by decide) he
    exact ⟨hb, he, ih⟩

theorem trimEnd_body_ofText (feed l : List Char) :
    Text.trimEnd (Line.ofText feed l).body = Text.trimEnd l := by
  unfold Line.ofText
  split
  · rename_i h
    obtain ⟨ds, rfl⟩ := List.getLast?_eq_some_iff.1 h
    rw [List.dropLast_concat, Text.trimEnd_append_blank ds (by decide)]
  · rfl

theorem isBlank_ofText (feed l : List Char) :
    (Line.ofText feed l).isBlank = l.all isBlank := by
  rw [Line.isBlank, Bool.eq_iff_iff, ← Text.trimEnd_eq_nil, trimEnd_body_ofText, Text.trimEnd_eq_nil]

theorem inDefinition_ofText {feed l : List Char} (h : l.all isBlank = false) :
    (Line.ofText feed l).inDefinition = l.head?.any [' ', '\t', '#'].contains := by
  rw [Line.inDefinition, isBlank_ofText, h, Bool.false_or]
  unfold Line.ofText
  split
  · rename_i hr
    obtain ⟨ds, rfl⟩ := List.getLast?_eq_some_iff.1 hr
    cases ds with
    | nil => exact absurd h (by decide)
    | cons d ds => rw [List.dropLast_concat]; rfl
  · rfl

/-- The first of the texts `ts` that is not blank begins as a line of a python definition does
exactly if the first line that is made of them and is not blank does. -/
theorem find?_ofTexts (ts : List (List Char)) :
    ((Line.ofTexts ts).find? (!·.isBlank)).any Line.inDefinition
      = (ts.find? (!·.all isBlank)).any (·.head?.any [' ', '\t', '#'].contains) := by
  have hline : ∀ (feed l : List Char) (ls : List Line) (ms : List (List Char)),
      (ls.find? (!·.isBlank)).any Line.inDefinition
        = (ms.find? (!·.all isBlank)).any (·.head?.any [' ', '\t', '#'].contains) →
      ((Line.ofText feed l :: ls).find? (!·.isBlank)).any Line.inDefinition
        = ((l :: ms).find? (!·.all isBlank)).any (·.head?.any [' ', '\t', '#'].contains) := by
    intro feed l ls ms h
    rw [List.find?_cons, List.find?_cons, isBlank_ofText]
    cases hl : l.all isBlank with
    | true => exact h
    | false => exact inDefinition_ofText hl
  fun_induction Line.ofTexts ts with
  | case1 => rfl
  | case2 l => exact hline [] l [] [] rfl
  | case3 l m ls ih => exact hline ['\n'] l _ _ ih

/-- The lines of a text that is empty or ends with a line feed all have a line feed, but the last one,
which is empty and gives way to the lines of what is written after the text. -/
theorem exists_lines {cs : List Char} (h : cs = [] ∨ cs.getLast? = some '\n') :
    ∃ front : List (List Char), Text.lines cs = front ++ [[]] ∧
      Line.textAll (front.map (Line.ofText ['\n'])) = cs ∧
      ∀ ds, Line.ofTexts (Text.lines (cs ++ ds))
        = front.map (Line.ofText ['\n']) ++ Line.ofTexts (Text.lines ds) := by
  obtain ⟨front, hfront⟩ := Text.lines_of_endsLine h
  refine ⟨front, hfront, ?_, fun ds => ?_⟩
  · have ht := textAll_ofTexts_lines cs
    have he : Line.textAll (Line.ofTexts [[]]) = [] := rfl
    rwa [hfront, ofTexts_append front (List.cons_ne_nil _ _), textAll_append, he, List.append_nil] at ht
  · obtain ⟨v, back, hback⟩ := List.exists_cons_of_ne_nil (Text.lines_ne_nil ds)
    rw [Text.lines_append hfront hback, List.nil_append, ← hback,
      ofTexts_append front (Text.lines_ne_nil ds)]

end Recipe.Grammar
