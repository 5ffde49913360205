import Recipe.Grammar.Block
import Recipe.Proofs.Grammar.Statement
import Recipe.Proofs.Text.LineTable

/-!
# What a document is read from

Every block reads the lines it takes, header lines and bodies included, and a document is read block
by block until no line is left. `reads_read`: the pieces of a recipe are its whole text, and their
gaps hold nothing but blanks and backslashes that end a line.
-/

namespace Recipe.Grammar

open Text (isBlank endsLine)

/-! ## Header lines -/

theorem eq_append_of_taskKeyword? {cs rest : List Char} {w : String}
    (h : taskKeyword? cs = some (w, rest)) : cs = w.toList ++ rest := by
  obtain ⟨v, _, hv⟩ := List.exists_of_findSome?_eq_some h
  obtain ⟨r, hk, he⟩ := Option.map_eq_some_iff.1 hv
  cases he
  exact eq_append_of_keyword? hk

theorem reads_taskWords (cs post : List Char) :
    Reads (taskWords cs).pieces (cs ++ post) ((taskWords cs).rest ++ post) := by
  fun_induction taskWords cs with
  | case1 cs w rest h _ ih =>
    rw [eq_append_of_taskKeyword? h, List.append_assoc]
    exact .token ((Reads.inlineBlanks rest post).append ih)
  | case2 => exact .nil _

theorem reads_mark? {c : Char} {cs : List Char} {parts : Parts} (h : mark? c cs = some parts)
    (post : List Char) : Reads parts.pieces (cs ++ post) (parts.rest ++ post) := by
  unfold mark? at h
  split at h
  · rename_i d rest
    split at h
    · rename_i hd
      subst hd
      cases h
      exact (Reads.mark c (rest ++ post)).append (Reads.inlineBlanks rest post)
    · cases h
  · cases h

/-- The header of a task is read up to its brace. -/
theorem reads_taskHeader? {cs : List Char} {h : TaskHeader} (hh : TaskHeader.read? cs = some h)
    (post : List Char) : Reads h.front (cs ++ post) ('{' :: post) := by
  unfold TaskHeader.read? at hh
  dsimp only at hh
  split at hh
  · cases hh
  obtain ⟨opening, ho, hh⟩ := Option.bind_eq_some_iff.1 hh
  obtain ⟨closing, hc, hh⟩ := Option.bind_eq_some_iff.1 hh
  split at hh
  · rename_i hb
    cases hh
    have hw := reads_taskWords cs post
    have hn := Reads.tokens .identifier (Cut.span isTaskNameChar (taskWords cs).rest).front
      ((Cut.span isTaskNameChar (taskWords cs).rest).rest ++ post)
    rw [← List.append_assoc, front_append_span] at hn
    have hl := reads_mark? hc post
    rw [hb] at hl
    exact (((hw.append hn).append (Reads.inlineBlanks _ post)).append (reads_mark? ho post)).append hl
  · cases hh

theorem reads_definitionHeader? {cs : List Char} {ps : List Piece}
    (h : definitionHeader? cs = some ps) (post : List Char) : Reads ps (cs ++ post) post := by
  obtain ⟨rest, hk, h⟩ := Option.bind_eq_some_iff.1 h
  dsimp only at h
  split at h
  · rename_i hc
    cases h
    simp only [Bool.and_eq_true, decide_eq_true_eq] at hc
    have hn := Reads.single_token .identifier
      (Cut.span isDefinitionNameChar (inlineBlanks rest).rest).front
      ((Cut.span isDefinitionNameChar (inlineBlanks rest).rest).rest ++ post)
    rw [← List.append_assoc, front_append_span] at hn
    -- What follows the name is trimmed up to its last character, the colon.
    generalize Cut.span isDefinitionNameChar (inlineBlanks rest).rest = name at hc hn ⊢
    obtain ⟨params, hp⟩ := List.getLast?_eq_some_iff.1 hc.1.2
    rw [hp, List.dropLast_concat]
    rw [hp, List.append_assoc] at hn
    have ht := Reads.trimmed .pythonContent params (':' :: post)
    have hg := Reads.gap (skips_of_all_isBlank _ (Text.all_after params)) (Reads.mark ':' post)
    rw [eq_append_of_keyword? hk, List.append_assoc]
    exact .token ((Reads.inlineBlanks rest post).append (hn.append (ht.append hg)))
  · cases h

/-! ## Bodies -/

theorem reads_content (kind : Kind) (cs post : List Char) :
    Reads (content kind cs).1 (cs ++ post) ((content kind cs).2 ++ post) := by
  unfold content
  dsimp only
  split
  · exact .nil _
  · exact Reads.trimmed kind cs post

theorem all_content (kind : Kind) (cs : List Char) : (content kind cs).2.all isBlank = true := by
  unfold content
  dsimp only
  split
  · rename_i h
    exact Text.all_of_core_eq_nil (List.isEmpty_iff.1 h)
  · exact Text.all_after cs

/-! ## Lines -/

/-- Every line ends as lines do: its ending is blank, and a line feed or the end of the text comes
next. -/
def Terminated : List Line → Prop
  | [] => True
  | l :: ls =>
    l.ending.all isBlank = true ∧ endsLine (l.ending ++ Line.textAll ls) = true ∧ Terminated ls

theorem Terminated.of_suffix {ls ms : List Line} (h : Terminated ls) (hs : ms <:+ ls) :
    Terminated ms := by
  induction ls with
  | nil => rwa [List.suffix_nil.1 hs]
  | cons l ls ih =>
    rcases List.suffix_cons_iff.1 hs with rfl | hs
    · exact h
    · exact ih h.2.2 hs

@[simp] theorem textAll_nil : Line.textAll [] = [] := rfl

@[simp] theorem textAll_cons (l : Line) (ls : List Line) :
    Line.textAll (l :: ls) = l.text ++ Line.textAll ls :=
  List.flatMap_cons

theorem text_ofText (feed cs : List Char) : (Line.ofText feed cs).text = cs ++ feed := by
  unfold Line.ofText
  split
  · rename_i h
    obtain ⟨ds, rfl⟩ := List.getLast?_eq_some_iff.1 h
    simp [Line.text]
  · rfl

theorem textAll_ofTexts_cons (l : List Char) (ls : List (List Char)) :
    Line.textAll (Line.ofTexts (l :: ls))
      = l ++ if ls.isEmpty then [] else '\n' :: Line.textAll (Line.ofTexts ls) := by
  cases ls with
  | nil => simp [Line.ofTexts, text_ofText]
  | cons m ls => simp [Line.ofTexts, text_ofText]

/-- The lines of a text are the text. -/
theorem textAll_ofTexts_lines (cs : List Char) :
    Line.textAll (Line.ofTexts (Text.lines cs)) = cs := by
  induction cs with
  | nil => rfl
  | cons c cs ih =>
    rw [Text.lines]
    cases hl : Text.lines cs with
    | nil => exact absurd hl (Text.lines_ne_nil cs)
    | cons l ls =>
      rw [hl] at ih
      split
      · rename_i hc
        rw [textAll_ofTexts_cons, ih, hc]
        rfl
      · rw [List.modifyHead_cons, textAll_ofTexts_cons, List.cons_append, ← textAll_ofTexts_cons, ih]

/-- An ending of a line is blank, and it ends the line if it has a line feed or nothing follows. -/
theorem terminated_ofText {feed rest : List Char} (cs : List Char) (hb : feed.all isBlank = true)
    (he : endsLine (feed ++ rest) = true) :
    (Line.ofText feed cs).ending.all isBlank = true ∧
      endsLine ((Line.ofText feed cs).ending ++ rest) = true := by
  unfold Line.ofText
  split
  · have hr : ['\r'].all isBlank = true := by decide
    have hf : endsLine (['\r'] ++ (feed ++ rest)) = true := Text.endsLine_append hr he
    exact ⟨by rw [List.all_cons, hb]; decide, hf⟩
  · exact ⟨hb, he⟩

theorem terminated_ofTexts (ts : List (List Char)) : Terminated (Line.ofTexts ts) := by
  fun_induction Line.ofTexts ts with
  | case1 => trivial
  | case2 l =>
    have he : endsLine ([] ++ Line.textAll []) = true := rfl
    obtain ⟨hb, he⟩ := terminated_ofText l rfl he
    exact ⟨hb, he, trivial⟩
  | case3 l m ls ih =>
    have he : endsLine (['\n'] ++ Line.textAll (Line.ofTexts (m :: ls))) = true := rfl
    obtain ⟨hb, he⟩ := terminated_ofText l (by decide) he
    exact ⟨hb, he, ih⟩

/-! ## Logical lines -/

theorem trimEnd_append_ending (l : Line) :
    Text.trimEnd l.body ++ (Text.trailing l.body ++ l.ending) = l.text := by
  rw [← List.append_assoc, Text.trimEnd_append_trailing, Line.text]

/-- The blanks at the end of a line, and its ending, end it. -/
theorem endsLine_trailing {l : Line} {ls : List Line} (h : Terminated (l :: ls)) :
    (Text.trailing l.body ++ l.ending).all isBlank = true ∧
      endsLine (Text.trailing l.body ++ l.ending ++ Line.textAll ls) = true := by
  refine ⟨by rw [List.all_append, Text.all_trailing, h.1]; rfl, ?_⟩
  rw [List.append_assoc]
  exact Text.endsLine_append (Text.all_trailing _) h.2.1

/-- A logical line, what is left out after it and the lines that follow are the lines it was made
of. -/
theorem append_logicalLine (l : Line) (ls : List Line) :
    (logicalLine l ls).text ++ ((logicalLine l ls).after ++ Line.textAll (logicalLine l ls).rest)
      = l.text ++ Line.textAll ls := by
  fun_induction logicalLine l ls with
  | case1 l => rw [← List.append_assoc, trimEnd_append_ending]
  | case2 l m ls h tail ih => rw [List.append_assoc, ih, textAll_cons]
  | case3 l m ls h => rw [← List.append_assoc, trimEnd_append_ending]

/-- What is left out after a logical line is blank and ends a line. -/
theorem logicalLine_after {l : Line} {ls : List Line} (h : Terminated (l :: ls)) :
    (logicalLine l ls).after.all isBlank = true ∧
      endsLine ((logicalLine l ls).after ++ Line.textAll (logicalLine l ls).rest) = true := by
  fun_induction logicalLine l ls with
  | case1 l => exact endsLine_trailing h
  | case2 l m ls _ tail ih => exact ih h.2.2
  | case3 l m ls _ => exact endsLine_trailing h

theorem logicalLine_rest_suffix (l : Line) (ls : List Line) : (logicalLine l ls).rest <:+ ls := by
  fun_induction logicalLine l ls with
  | case1 => exact List.suffix_rfl
  | case2 l m ls _ tail ih => exact ih.trans (List.suffix_cons m ls)
  | case3 => exact List.suffix_rfl

/-! ## Blocks -/

/-- What begins on a line is read after the blanks before it. -/
theorem reads_line {l : Line} {ps : List Piece} {cs rest : List Char}
    (h : Reads ps ((Text.splitTrim l.body).core ++ ((Text.splitTrim l.body).after ++ l.ending ++ cs))
      rest) :
    Reads (.gap (Text.splitTrim l.body).before :: ps) (l.text ++ cs) rest := by
  have hr := Reads.gap (skips_of_all_isBlank _ (Text.all_before l.body)) h
  rwa [List.append_assoc, ← List.append_assoc (Text.splitTrim l.body).core, ← List.append_assoc,
    Text.splitTrim_append, ← List.append_assoc] at hr

theorem reads_statementBlock {l : Line} {ls : List Line} (h : Terminated (l :: ls)) :
    Reads (statementBlock (Text.splitTrim l.body) l ls).pieces (l.text ++ Line.textAll ls)
      (Line.textAll (statementBlock (Text.splitTrim l.body) l ls).rest) := by
  -- The line without the blanks before it is terminated as the line is.
  have ht : Terminated ({ l with
    body := (Text.splitTrim l.body).core ++ (Text.splitTrim l.body).after } :: ls) := h
  obtain ⟨hb, he⟩ := logicalLine_after ht
  have hl := append_logicalLine { l with
    body := (Text.splitTrim l.body).core ++ (Text.splitTrim l.body).after } ls
  unfold statementBlock
  dsimp only
  generalize logicalLine _ ls = line at hb he hl ⊢
  obtain ⟨hr, hs⟩ := spells_read line.text _ he
  have hg := Reads.single_gap (skips_append.2 ⟨hs, skips_of_all_isBlank (Line.textAll line.rest) hb⟩)
  rw [List.append_assoc] at hg
  refine reads_line ?_
  rw [Line.text, List.append_assoc, List.append_assoc] at hl
  rw [List.append_assoc, ← hl]
  exact hr.append hg

/-- A closing line is its brace and blanks. -/
theorem body_of_closesTask {l : Line} (h : l.closesTask = true) :
    l.body = '}' :: l.body.drop 1 ∧ (l.body.drop 1).all isBlank = true := by
  have ht : Text.trimEnd l.body = ['}'] := by simpa [Line.closesTask] using h
  have hb := Text.trimEnd_append_trailing l.body
  have hd : l.body.drop 1 = Text.trailing l.body := by rw [Text.trailing, ht]; rfl
  rw [hd]
  rw [ht] at hb
  exact ⟨hb.symm, Text.all_trailing _⟩

theorem reads_closedTask {h : TaskHeader} {cs inside rest : List Char} {closing : Line}
    (hh : TaskHeader.read? cs = some h) (hc : closing.closesTask = true)
    (he : closing.ending.all isBlank = true) :
    Reads (closedTask h inside closing) (cs ++ (inside ++ (closing.text ++ rest))) rest := by
  obtain ⟨hb, ha⟩ := body_of_closesTask hc
  have ht : closing.text ++ rest = '}' :: (closing.body.drop 1 ++ closing.ending ++ rest) := by
    rw [Line.text, hb]
    simp
  rw [ht]
  have hg : Skips rest (closing.body.drop 1 ++ closing.ending) :=
    skips_of_all_isBlank rest (by rw [List.all_append, ha, he]; rfl)
  refine .group ?_ (Reads.single_gap hg)
  refine (((reads_taskHeader? hh _).append (Reads.mark '{' _)).append
    (reads_content h.contentKind inside _)).append ?_
  exact .gap (skips_of_all_isBlank _ (all_content _ _)) (Reads.mark '}' _)

theorem reads_openTask {h : TaskHeader} {cs : List Char} (hh : TaskHeader.read? cs = some h)
    (inside : List Char) : Reads (openTask h inside) (cs ++ inside) [] := by
  have hc := reads_content h.contentKind inside []
  have hg := Reads.single_gap (skips_of_all_isBlank [] (all_content h.contentKind inside))
  rw [List.append_nil] at hc
  exact .group (((reads_taskHeader? hh _).append (Reads.single_token .error ['{'] _)).append hc) hg

theorem textAll_takeWhile_append (p : Line → Bool) (ls : List Line) :
    Line.textAll (ls.takeWhile p) ++ Line.textAll (ls.dropWhile p) = Line.textAll ls := by
  rw [Line.textAll, Line.textAll, ← List.flatMap_append, List.takeWhile_append_dropWhile, Line.textAll]

theorem reads_taskBlock {h : TaskHeader} {l : Line} {ls : List Line}
    (hh : TaskHeader.read? (Text.splitTrim l.body).core = some h) (ht : Terminated (l :: ls)) :
    Reads (taskBlock h (Text.splitTrim l.body) l.ending ls).pieces (l.text ++ Line.textAll ls)
      (Line.textAll (taskBlock h (Text.splitTrim l.body) l.ending ls).rest) := by
  have hsplit := textAll_takeWhile_append (!·.closesTask) ls
  have hsuff := List.dropWhile_suffix (l := ls) (!·.closesTask)
  unfold taskBlock
  dsimp only
  split
  · rename_i closing rest hd
    rw [hd, textAll_cons] at hsplit
    rw [hd] at hsuff
    have hc : closing.closesTask = true := by
      have := List.head?_dropWhile_not (fun l : Line => !l.closesTask) ls
      simpa [hd] using this
    refine reads_line ?_
    rw [← hsplit, ← List.append_assoc (_ ++ l.ending)]
    exact reads_closedTask hh hc (ht.2.2.of_suffix hsuff).1
  · rename_i hd
    rw [hd, textAll_nil, List.append_nil] at hsplit
    refine reads_line ?_
    rw [← hsplit]
    exact reads_openTask hh _

theorem reads_definitionBlock {header : List Piece} {l : Line} {ls : List Line}
    (hh : definitionHeader? (Text.splitTrim l.body).core = some header) :
    Reads (definitionBlock header (Text.splitTrim l.body) l.ending ls).pieces
      (l.text ++ Line.textAll ls)
      (Line.textAll (definitionBlock header (Text.splitTrim l.body) l.ending ls).rest) := by
  refine reads_line ?_
  rw [← textAll_takeWhile_append Line.inDefinition ls, ← List.append_assoc (_ ++ l.ending)]
  refine .group ((reads_definitionHeader? hh _).append (reads_content .pythonContent _ _)) ?_
  exact Reads.single_gap (skips_of_all_isBlank _ (all_content _ _))

/-- A block reads the lines it takes. -/
theorem reads_block {l : Line} {ls : List Line} (h : Terminated (l :: ls)) :
    Reads (block l ls).pieces (l.text ++ Line.textAll ls) (Line.textAll (block l ls).rest) := by
  unfold block
  dsimp only
  split
  · rename_i hc
    have hb := Text.all_of_core_eq_nil (List.isEmpty_iff.1 hc)
    exact Reads.single_gap (skips_of_all_isBlank _ (by rw [Line.text, List.all_append, hb, h.1]; rfl))
  split
  · have hb : ((Text.splitTrim l.body).after ++ l.ending).all isBlank = true := by
      rw [List.all_append, Text.all_after, h.1]
      rfl
    exact reads_line (.token (Reads.single_gap (skips_of_all_isBlank _ hb)))
  split
  · rename_i hh
    exact reads_taskBlock hh h
  split
  · rename_i hh
    exact reads_definitionBlock hh
  · exact reads_statementBlock h

theorem block_rest_suffix (l : Line) (ls : List Line) : (block l ls).rest <:+ ls := by
  unfold block
  dsimp only
  split
  · exact List.suffix_rfl
  split
  · exact List.suffix_rfl
  split
  · have hs := List.dropWhile_suffix (l := ls) (!·.closesTask)
    unfold taskBlock
    dsimp only
    split
    · rename_i closing rest hd
      rw [hd] at hs
      exact (List.suffix_cons closing rest).trans hs
    · exact List.nil_suffix
  split
  · exact List.dropWhile_suffix _
  · exact logicalLine_rest_suffix _ _

/-! ## Documents -/

theorem reads_document {ls : List Line} (h : Terminated ls) :
    Reads (document ls) (Line.textAll ls) [] := by
  fun_induction document ls with
  | case1 => exact .nil []
  | case2 l ls _ ih =>
    rw [textAll_cons]
    exact (reads_block h).append (ih (h.2.2.of_suffix (block_rest_suffix l ls)))

/-- The pieces of a recipe are its whole text. -/
theorem reads_read (cs : List Char) : Reads (read cs) cs [] := by
  have h := reads_document (terminated_ofTexts (Text.lines cs))
  rwa [textAll_ofTexts_lines] at h

end Recipe.Grammar
