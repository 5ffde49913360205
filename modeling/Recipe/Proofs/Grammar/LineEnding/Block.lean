import Recipe.Proofs.Grammar.Block
import Recipe.Proofs.Grammar.LineEnding.Statement

/-!
# Documents with either line ending

The lines of a text without carriage returns have the same bodies with either line ending
(`Line.ofTexts_returned`), and a block looks at bodies to decide what it is. So every block is read alike, and so
is the whole text: its pieces are the same, with a carriage return before every line feed in them
(`read_crlf`).
-/

namespace Recipe.Grammar

open Text (crlf crlf_cons crlf_of_not_mem)
open Piece (crlfAll)

/-! ## Lines -/

namespace Line

/-- The line with a carriage return in its ending. -/
def crlf (l : Line) : Line :=
  ⟨l.body, Text.crlf l.ending⟩

/-- The line has no line feed before its ending, and no carriage return. -/
structure Plain (l : Line) : Prop where
  body : '\n' ∉ l.body
  text : '\r' ∉ l.text

theorem Plain.text_crlf {l : Line} (h : l.Plain) : l.crlf.text = Text.crlf l.text := by
  rw [Line.text, Line.text, Text.crlf_append, crlf_of_not_mem h.body]
  rfl

theorem textAll_crlf {ls : List Line} (h : ∀ l ∈ ls, l.Plain) :
    textAll (ls.map crlf) = Text.crlf (textAll ls) := by
  rw [textAll, List.flatMap_map, textAll, Text.crlf_flatMap, List.flatMap_def, List.flatMap_def]
  exact congrArg List.flatten (List.map_congr_left fun l hl => (h l hl).text_crlf)

theorem ofText_of_not_mem {cs : List Char} (h : '\r' ∉ cs) (feed : List Char) :
    ofText feed cs = ⟨cs, feed⟩ := by
  rw [ofText, if_neg fun hl => h (List.mem_of_getLast? hl)]

theorem ofTexts_returned {ls : List (List Char)} (h : ∀ l ∈ ls, '\r' ∉ l) :
    ofTexts (Text.returned ls) = (ofTexts ls).map crlf := by
  fun_induction Text.returned ls with
  | case1 => rfl
  | case2 l =>
    rw [ofTexts, ofText_of_not_mem (h l List.mem_cons_self)]
    rfl
  | case3 l m ls ih =>
    rw [List.forall_mem_cons] at h
    obtain ⟨n, ns, hn⟩ : ∃ n ns, Text.returned (m :: ls) = n :: ns := by
      cases ls <;> exact ⟨_, _, rfl⟩
    have ih := ih h.2
    rw [hn] at ih ⊢
    rw [ofTexts, ofTexts, List.map_cons, ih, ofText_of_not_mem h.1]
    simp [ofText, crlf]

theorem plain_ofTexts {ls : List (List Char)} (h : ∀ l ∈ ls, '\r' ∉ l ∧ '\n' ∉ l) :
    ∀ l ∈ ofTexts ls, l.Plain := by
  fun_induction ofTexts ls with
  | case1 => exact List.forall_mem_nil _
  | case2 l =>
    rw [List.forall_mem_singleton] at h ⊢
    rw [ofText_of_not_mem h.1]
    exact ⟨h.2, by simpa [text] using h.1⟩
  | case3 l m ls ih =>
    rw [List.forall_mem_cons] at h
    refine List.forall_mem_cons.2 ⟨?_, ih h.2⟩
    rw [ofText_of_not_mem h.1.1]
    exact ⟨h.1.2, by simpa [text] using h.1.1⟩

end Line

/-! ## Logical lines -/

theorem logicalLine_crlf {l : Line} {ls : List Line} (hl : l.Plain) (hls : ∀ m ∈ ls, m.Plain) :
    logicalLine l.crlf (ls.map Line.crlf)
      = ⟨crlf (logicalLine l ls).text, crlf (logicalLine l ls).after,
        (logicalLine l ls).rest.map Line.crlf⟩ := by
  have hends : ∀ {l : Line}, l.Plain → crlf (Text.trimEnd l.body) = Text.trimEnd l.body ∧
      crlf (Text.trailing l.body ++ l.ending) = Text.trailing l.body ++ crlf l.ending := by
    intro l hl
    rw [Text.crlf_append, ← Text.trimEnd_crlf, ← Text.trailing_crlf, crlf_of_not_mem hl.body]
    exact ⟨rfl, rfl⟩
  fun_induction logicalLine l ls with
  | case1 l =>
    rw [(hends hl).1, (hends hl).2]
    rfl
  | case2 l m ls hj tail ih =>
    rw [List.forall_mem_cons] at hls
    rw [List.map_cons, logicalLine, if_pos (by exact hj), ih hls.1 hls.2, hl.text_crlf]
    simp [tail]
  | case3 l m ls hj =>
    rw [List.map_cons, logicalLine, if_neg (by exact hj), (hends hl).1, (hends hl).2]
    rfl

theorem not_mem_logicalLine {l : Line} {ls : List Line} (hl : l.Plain) (hls : ∀ m ∈ ls, m.Plain) :
    '\r' ∉ (logicalLine l ls).text := by
  intro hm
  have htext : '\r' ∈ l.text ++ Line.textAll ls := by
    rw [← append_logicalLine l ls]
    exact List.mem_append_left _ hm
  rcases List.mem_append.1 htext with h | h
  · exact hl.text h
  · obtain ⟨m, hm, h⟩ := List.mem_flatMap.1 h
    exact (hls m hm).text h

/-! ## Blocks -/

/-- A block with carriage returns. -/
def Block.crlf (b : Block) : Block :=
  ⟨crlfAll b.pieces, b.rest.map Line.crlf⟩

theorem content_crlf (k : Kind) (cs : List Char) :
    content k (crlf cs) = (crlfAll (content k cs).1, crlf (content k cs).2) := by
  simp only [content, Text.splitTrim_crlf, Text.Trimmed.crlf, Text.isEmpty_crlf]
  split
  · rfl
  · rfl

/-- The parts of a trimmed text of one line stay as they are. -/
theorem crlf_splitTrim {cs : List Char} (h : '\n' ∉ cs) :
    crlf (Text.splitTrim cs).before = (Text.splitTrim cs).before ∧
      '\n' ∉ (Text.splitTrim cs).core ∧
      crlf (Text.splitTrim cs).after = (Text.splitTrim cs).after := by
  rw [← Text.splitTrim_append cs, List.mem_append, List.mem_append, not_or, not_or] at h
  exact ⟨crlf_of_not_mem h.1, h.2.1, crlf_of_not_mem h.2.2⟩

section

variable {t : Text.Trimmed} (hbefore : crlf t.before = t.before) (hafter : crlf t.after = t.after)
  {ls : List Line} (hls : ∀ l ∈ ls, l.Plain)

include hafter hls in
/-- What follows a header on its line and the lines after it that satisfy `p` are the body of a task
or a definition. With CRLF endings the body is the one with LF endings, its line feeds replaced, and
as many lines are left. -/
theorem body_crlf {p : Line → Bool} (hp : ∀ l : Line, p l.crlf = p l) (ending : List Char) :
    t.after ++ crlf ending ++ Line.textAll ((ls.map Line.crlf).takeWhile p)
        = crlf (t.after ++ ending ++ Line.textAll (ls.takeWhile p)) ∧
      (ls.map Line.crlf).dropWhile p = (ls.dropWhile p).map Line.crlf := by
  have hcomp : p ∘ Line.crlf = p := funext hp
  rw [List.takeWhile_map, List.dropWhile_map, hcomp, Line.textAll_crlf fun l hl =>
    hls l ((List.takeWhile_sublist p).subset hl)]
  exact ⟨by rw [Text.crlf_append, Text.crlf_append, hafter], rfl⟩

include hbefore hafter hls in
theorem taskBlock_crlf {cs : List Char} {h : TaskHeader} (hh : TaskHeader.read? cs = some h)
    (hcs : '\n' ∉ cs) (ending : List Char) :
    taskBlock h t (crlf ending) (ls.map Line.crlf) = (taskBlock h t ending ls).crlf := by
  have hfront : crlfAll h.front = h.front := by
    have htext := (reads_taskHeader? hh []).eq_append
    rw [List.append_nil] at htext
    rw [htext, List.mem_append, not_or] at hcs
    exact Piece.crlfAll_of_not_mem hcs.1
  obtain ⟨hinside, hdrop⟩ := body_crlf hafter hls (p := (!·.closesTask)) (fun _ => rfl) ending
  have hbraces := Piece.crlf_mark (show '{' ≠ '\n' by decide)
  have hbraces' := Piece.crlf_mark (show '}' ≠ '\n' by decide)
  unfold taskBlock
  dsimp only
  rw [hinside, hdrop]
  generalize t.after ++ ending ++ Line.textAll (ls.takeWhile (!·.closesTask)) = inside
  cases hd : ls.dropWhile (!·.closesTask) with
  | nil =>
    simp [Block.crlf, openTask, Piece.crlf, Piece.crlfAll, Piece.crlfAll_append, content_crlf, hfront,
      hbefore, crlf_cons]
  | cons closing rest =>
    have hclosing : '\n' ∉ closing.body.tail := fun hm => (hls closing
      ((List.dropWhile_sublist _).subset (hd ▸ List.mem_cons_self))).body (List.mem_of_mem_tail hm)
    simp [Block.crlf, closedTask, Piece.crlf, Piece.crlfAll, Piece.crlfAll_append, content_crlf,
      hfront, hbefore, hbraces, hbraces', Line.crlf, crlf_of_not_mem hclosing]

include hbefore hafter hls in
theorem definitionBlock_crlf {cs : List Char} {header : List Piece}
    (hh : definitionHeader? cs = some header) (hcs : '\n' ∉ cs) (ending : List Char) :
    definitionBlock header t (crlf ending) (ls.map Line.crlf)
      = (definitionBlock header t ending ls).crlf := by
  have hheader : crlfAll header = header := by
    have htext := (reads_definitionHeader? hh []).eq_append
    rw [List.append_nil, List.append_nil] at htext
    exact Piece.crlfAll_of_not_mem (htext ▸ hcs)
  obtain ⟨hinside, hdrop⟩ := body_crlf hafter hls (p := Line.inDefinition) (fun _ => rfl) ending
  unfold definitionBlock
  dsimp only
  rw [hinside, hdrop, content_crlf]
  simp [Block.crlf, Piece.crlf, Piece.crlfAll, Piece.crlfAll_append, hheader, hbefore]

end

theorem statementBlock_crlf {l : Line} {ls : List Line} (hl : l.Plain) (hls : ∀ m ∈ ls, m.Plain) :
    statementBlock (Text.splitTrim l.body) l.crlf (ls.map Line.crlf)
      = (statementBlock (Text.splitTrim l.body) l ls).crlf := by
  obtain ⟨hbefore, -, -⟩ := crlf_splitTrim hl.body
  have hsplit := Text.splitTrim_append l.body
  -- The line without the blanks before it.
  have htail : Line.Plain { l with
      body := (Text.splitTrim l.body).core ++ (Text.splitTrim l.body).after } := by
    refine ⟨fun hm => hl.body ?_, fun hm => hl.text ?_⟩
    · rw [← hsplit]
      exact List.mem_append_right _ hm
    · rw [Line.text, ← hsplit, List.append_assoc]
      exact List.mem_append_right _ hm
  unfold statementBlock
  dsimp only
  have hline := logicalLine_crlf htail hls
  have hread := statement_crlf (not_mem_logicalLine htail hls)
  rw [Line.crlf] at hline ⊢
  rw [hline]
  dsimp only
  rw [hread]
  simp [Block.crlf, Piece.crlf, Piece.crlfAll, hbefore, Statement.crlf]

theorem block_crlf {l : Line} {ls : List Line} (hl : l.Plain) (hls : ∀ m ∈ ls, m.Plain) :
    block l.crlf (ls.map Line.crlf) = (block l ls).crlf := by
  obtain ⟨hbefore, hcore, hafter⟩ := crlf_splitTrim hl.body
  have hbody : l.crlf.body = l.body := rfl
  have hending : l.crlf.ending = crlf l.ending := rfl
  unfold block
  rw [hbody, hending]
  dsimp only
  split
  · rw [hl.text_crlf]
    rfl
  split
  · simp [Block.crlf, Piece.crlf, Piece.crlfAll, hbefore, hafter, crlf_of_not_mem hcore]
  cases hh : TaskHeader.read? (Text.splitTrim l.body).core with
  | some h => exact taskBlock_crlf hbefore hafter hls hh hcore l.ending
  | none =>
    cases hd : definitionHeader? (Text.splitTrim l.body).core with
    | some header => exact definitionBlock_crlf hbefore hafter hls hd hcore l.ending
    | none => exact statementBlock_crlf hl hls

theorem document_crlf {ls : List Line} (h : ∀ l ∈ ls, l.Plain) :
    document (ls.map Line.crlf) = crlfAll (document ls) := by
  fun_induction document ls with
  | case1 => rw [List.map_nil, document]; rfl
  | case2 l ls _ ih =>
    rw [List.forall_mem_cons] at h
    rw [List.map_cons, document, block_crlf h.1 h.2, Piece.crlfAll_append]
    dsimp only [Block.crlf]
    rw [ih fun m hm => h.2 m ((block_rest_suffix l ls).subset hm)]

/-- A text without carriage returns is read into the same pieces with CRLF endings as with LF
endings, the line feeds inside them replaced. -/
theorem read_crlf {cs : List Char} (h : '\r' ∉ cs) : read (crlf cs) = crlfAll (read cs) := by
  have hlines : ∀ l ∈ Text.lines cs, '\r' ∉ l := fun l hl hm => h (Text.subset_of_mem_lines hl hm)
  rw [read, Text.lines_crlf, Line.ofTexts_returned hlines, document_crlf]
  · rfl
  · exact Line.plain_ofTexts fun l hl => ⟨hlines l hl, Text.not_mem_of_mem_lines hl⟩

end Recipe.Grammar
