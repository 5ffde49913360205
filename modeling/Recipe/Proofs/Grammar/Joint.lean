import Recipe.Proofs.Grammar.Continuation
import Recipe.Proofs.Tree.Coverage
import Recipe.Proofs.Tree.Line

/-!
# Joints

The places at which the lines of a text are joined to statements (`joints`). A joint is known by the text
before its backslash, what is left of its line after the backslash, and what its statement goes on with.
The scanner of the statement sees the backslash and all of the statement after it (`Joint.window`), and
tells the backslash to continue its line just if no blank stands before the end of the line, but for the
carriage return that belongs to it (`continues_window_iff`). No joint is left out: every line feed inside
a logical line is the end of a joint's line (`Joint.exists_of_lineFeed`).
-/

namespace Recipe.Grammar

open Text (bytes isBlank)
open Piece (nodesAfter textAll)

instance (core : List Char) : Decidable (StartsStatement core) :=
  decidable_of_iff (core ≠ [] ∧ core.head? ≠ some '#' ∧ (TaskHeader.read? core).isNone = true ∧
      (definitionHeader? core).isNone = true)
    ⟨fun h => ⟨h.1, h.2.1, Option.isNone_iff_eq_none.1 h.2.2.1, Option.isNone_iff_eq_none.1 h.2.2.2⟩,
      fun h => ⟨h.ne_nil, h.not_comment, Option.isNone_iff_eq_none.2 h.not_task,
        Option.isNone_iff_eq_none.2 h.not_definition⟩⟩

/-- The line without the blanks before what begins on it. -/
def Line.unindented (l : Line) : Line :=
  { l with body := (Text.splitTrim l.body).core ++ (Text.splitTrim l.body).after }

theorem Line.before_append_text_unindented (l : Line) :
    (Text.splitTrim l.body).before ++ l.unindented.text = l.text := by
  rw [text, text, ← List.append_assoc]
  exact congrArg (· ++ l.ending) (Text.splitTrim_append l.body)

/-- A backslash that joins its line to the next one. -/
structure Joint where
  /-- The text before the backslash. -/
  before : List Char
  /-- What stands after the backslash on its line, the end of the line included. -/
  lineEnd : List Char
  /-- What the statement goes on with on the next lines. -/
  rest : List Char
deriving DecidableEq, Repr

namespace Joint

/-- What is left of the statement from the backslash on. -/
def window (j : Joint) : List Char :=
  '\\' :: (j.lineEnd ++ j.rest)

/-- The joints of the logical line that begins with a line, after the text `pre`. -/
def ofLine (pre : List Char) (l : Line) : List Line → List Joint
  | [] => []
  | m :: ls =>
    if joinsNext l then
      ⟨pre ++ (Text.trimEnd l.body).dropLast, Text.trailing l.body ++ l.ending, (logicalLine m ls).text⟩
        :: ofLine (pre ++ l.text) m ls
    else []

/-- The joints of lines after the text `pre`, statement by statement. -/
def ofLines (pre : List Char) (ls : List Line) : List Joint :=
  match ls with
  | [] => []
  | l :: ls =>
    have := length_block_rest_le l ls
    let t := Text.splitTrim l.body
    (if StartsStatement t.core then ofLine (pre ++ t.before) l.unindented ls else [])
      ++ ofLines (pre ++ textAll (block l ls).pieces) (block l ls).rest
termination_by ls.length

end Joint

/-- The joints of a text. -/
def joints (cs : List Char) : List Joint :=
  Joint.ofLines [] (Line.ofTexts (Text.lines cs))

/-! ## Lines with an end -/

/-- A line ends with a line feed, and has no other. -/
def Line.IsFed (l : Line) : Prop :=
  '\n' ∉ l.body ∧ (l.ending = ['\n'] ∨ l.ending = ['\r', '\n'])

theorem not_mem_body_ofText (feed : List Char) {t : List Char} (h : '\n' ∉ t) :
    '\n' ∉ (Line.ofText feed t).body := by
  unfold Line.ofText
  split
  · exact fun hmem => h (List.mem_of_mem_dropLast hmem)
  · exact h

theorem isFed_ofText {t : List Char} (h : '\n' ∉ t) : (Line.ofText ['\n'] t).IsFed := by
  refine ⟨not_mem_body_ofText ['\n'] h, ?_⟩
  unfold Line.ofText
  split
  · exact .inr rfl
  · exact .inl rfl

/-- Every line but the last one ends with a line feed. -/
theorem isFed_of_mem_dropLast {cs : List Char} {l : Line}
    (h : l ∈ (Line.ofTexts (Text.lines cs)).dropLast) : l.IsFed := by
  obtain ⟨front, u, hfront⟩ :=
    List.eq_nil_or_concat (Text.lines cs) |>.resolve_left (Text.lines_ne_nil cs)
  rw [List.concat_eq_append] at hfront
  rw [hfront, ofTexts_append front (List.cons_ne_nil _ _), Line.ofTexts, List.dropLast_concat] at h
  obtain ⟨t, ht, rfl⟩ := List.mem_map.1 h
  have hline : t ∈ Text.lines cs := hfront ▸ List.mem_append_left _ ht
  exact isFed_ofText (Text.not_mem_of_mem_lines hline)

theorem Line.not_mem_body_unindented {l : Line} (h : '\n' ∉ l.body) : '\n' ∉ l.unindented.body := by
  intro hmem
  refine h ?_
  rw [← Text.splitTrim_append l.body]
  exact List.mem_append_right _ hmem

theorem Line.IsFed.unindented {l : Line} (h : l.IsFed) : l.unindented.IsFed :=
  ⟨not_mem_body_unindented h.1, h.2⟩

/-- The lines that a statement may be joined from end with line feeds, but for the last one. -/
theorem isFed_of_suffix {cs : List Char} {l : Line} {ms : List Line}
    (h : (l :: ms) <:+ Line.ofTexts (Text.lines cs)) : ∀ m ∈ (l.unindented :: ms).dropLast, m.IsFed := by
  obtain ⟨front, hfront⟩ := h
  have hfed : ∀ m ∈ (l :: ms).dropLast, m.IsFed := fun m hm => by
    have hlines : m ∈ (Line.ofTexts (Text.lines cs)).dropLast := by
      rw [← hfront, List.dropLast_append_of_ne_nil (List.cons_ne_nil _ _)]
      exact List.mem_append_right _ hm
    exact isFed_of_mem_dropLast hlines
  cases ms with
  | nil => exact List.forall_mem_nil _
  | cons m ms =>
    rw [List.dropLast_cons_cons] at hfed ⊢
    obtain ⟨hl, hms⟩ := List.forall_mem_cons.1 hfed
    exact List.forall_mem_cons.2 ⟨hl.unindented, hms⟩

theorem Line.IsFed.exists_text {l : Line} (h : l.IsFed) : ∃ w, '\n' ∉ w ∧ l.text = w ++ ['\n'] := by
  obtain ⟨hbody, hending | hending⟩ := h
  · exact ⟨l.body, hbody, by rw [text, hending]⟩
  · refine ⟨l.body ++ ['\r'], ?_, by rw [text, hending, List.append_assoc]; rfl⟩
    rw [List.mem_append]
    exact fun hmem => hmem.elim hbody (by decide)

theorem not_mem_body {ts : List (List Char)} (h : ∀ t ∈ ts, '\n' ∉ t) :
    ∀ l ∈ Line.ofTexts ts, '\n' ∉ l.body := by
  fun_induction Line.ofTexts ts with
  | case1 => exact List.forall_mem_nil _
  | case2 t => exact List.forall_mem_singleton.2 (not_mem_body_ofText [] (h t List.mem_cons_self))
  | case3 t u ts ih =>
    obtain ⟨ht, hts⟩ := List.forall_mem_cons.1 h
    exact List.forall_mem_cons.2 ⟨not_mem_body_ofText ['\n'] ht, ih hts⟩

theorem trimEnd_ne_of_not_mem {cs : List Char} (h : '\n' ∉ cs) (x y : List Char) :
    Text.trimEnd cs ≠ x ++ '\n' :: y := by
  intro heq
  refine h ?_
  rw [← Text.trimEnd_append_trailing cs, heq]
  exact List.mem_append_left _ (List.mem_append_right x List.mem_cons_self)

theorem continues_backslash_iff {blanks : List Char} (h : '\n' ∉ blanks) (rest : List Char) :
    continues ('\\' :: (blanks ++ '\n' :: rest)) = true ↔ blanks = [] ∨ blanks = ['\r'] := by
  cases blanks with
  | nil => exact ⟨fun _ => .inl rfl, fun _ => rfl⟩
  | cons c blanks =>
    obtain ⟨hc, hblanks⟩ := not_or.1 (mt List.mem_cons.2 h)
    by_cases hr : c = '\r'
    · subst hr
      cases blanks with
      | nil => exact ⟨fun _ => .inr rfl, fun _ => rfl⟩
      | cons d blanks =>
        have hd : '\n' ≠ d := fun heq => hblanks (heq ▸ List.mem_cons_self)
        have hstops : continues ('\\' :: '\r' :: d :: (blanks ++ '\n' :: rest)) = false := by
          simp [continues, hd.symm]
        simp [hstops]
    · have hstops : continues ('\\' :: c :: (blanks ++ '\n' :: rest)) = false := by
        simp [continues, hr, Ne.symm hc]
      simp [hstops, hr]

namespace Joint

theorem text_of_joinsNext {l : Line} (h : joinsNext l = true) :
    l.text = (Text.trimEnd l.body).dropLast ++ '\\' :: (Text.trailing l.body ++ l.ending) := by
  have hlast : (Text.trimEnd l.body).getLast? = some '\\' := by simpa [joinsNext] using h
  obtain ⟨ds, hds⟩ := List.getLast?_eq_some_iff.1 hlast
  have hbody := Text.trimEnd_append_trailing l.body
  rw [hds] at hbody
  have htext : l.text = ds ++ ['\\'] ++ Text.trailing l.body ++ l.ending :=
    congrArg (· ++ l.ending) hbody.symm
  rw [htext, hds, List.dropLast_concat]
  simp only [List.append_assoc, List.cons_append, List.nil_append]

theorem exists_of_mem_ofLine {pre : List Char} {l : Line} {ls : List Line} {j : Joint}
    (h : j ∈ ofLine pre l ls) :
    ∃ x, j.before = pre ++ x ∧ (logicalLine l ls).text = x ++ j.window := by
  induction ls generalizing pre l with
  | nil => cases h
  | cons m ls ih =>
    rw [ofLine] at h
    rw [logicalLine]
    split at h
    · rename_i hjoins
      rw [if_pos hjoins]
      dsimp only
      rcases List.mem_cons.1 h with rfl | h
      · refine ⟨_, rfl, ?_⟩
        rw [text_of_joinsNext hjoins, List.append_assoc]
        rfl
      · obtain ⟨x, hbefore, htext⟩ := ih h
        refine ⟨l.text ++ x, ?_, ?_⟩
        · rw [hbefore, List.append_assoc]
        · rw [htext, List.append_assoc]
    · cases h

/-- A joint is at the end of a line that is not the last one. -/
theorem exists_line_of_mem_ofLine {pre : List Char} {l : Line} {ls : List Line} {j : Joint}
    (h : j ∈ ofLine pre l ls) :
    ∃ m ∈ (l :: ls).dropLast, j.lineEnd = Text.trailing m.body ++ m.ending := by
  induction ls generalizing pre l with
  | nil => cases h
  | cons m ls ih =>
    rw [ofLine] at h
    rw [List.dropLast_cons_cons]
    split at h
    · rcases List.mem_cons.1 h with rfl | h
      · exact ⟨l, List.mem_cons_self, rfl⟩
      · obtain ⟨n, hn, hend⟩ := ih h
        exact ⟨n, List.mem_cons_of_mem _ hn, hend⟩
    · cases h

/-- Every line feed inside a logical line is the end of a joint's line. -/
theorem exists_of_lineFeed {pre x y : List Char} {l : Line} {ls : List Line}
    (hbody : ∀ m ∈ l :: ls, '\n' ∉ m.body) (hfed : ∀ m ∈ (l :: ls).dropLast, m.IsFed)
    (h : (logicalLine l ls).text = x ++ '\n' :: y) :
    ∃ j ∈ ofLine pre l ls, j.before ++ '\\' :: j.lineEnd = pre ++ (x ++ ['\n']) := by
  induction ls generalizing pre x l with
  | nil => exact absurd h (trimEnd_ne_of_not_mem (hbody l List.mem_cons_self) x y)
  | cons m ls ih =>
    rw [logicalLine] at h
    rw [List.dropLast_cons_cons] at hfed
    split at h
    · rename_i hjoins
      rw [ofLine, if_pos hjoins]
      obtain ⟨-, hbody⟩ := List.forall_mem_cons.1 hbody
      obtain ⟨hl, hfed⟩ := List.forall_mem_cons.1 hfed
      rcases append_eq_append_cons h with ⟨d, hd, -⟩ | ⟨d, rfl, htail⟩
      · -- The line feed is in the first line, and so at its end.
        obtain ⟨w, hw, htext⟩ := hl.exists_text
        have hx : x = w := by
          rw [htext] at hd
          rcases append_eq_append_cons hd with ⟨e, rfl, -⟩ | ⟨e, hx, he⟩
          · exact absurd (List.mem_append_right x List.mem_cons_self) hw
          · cases e with
            | nil => rw [hx, List.append_nil]
            | cons c e => simp at he
        refine ⟨_, List.mem_cons_self, ?_⟩
        rw [hx, ← htext, text_of_joinsNext hjoins, List.append_assoc]
      · obtain ⟨j, hj, heq⟩ : ∃ j ∈ ofLine (pre ++ l.text) m ls, _ := ih hbody hfed htail
        refine ⟨j, List.mem_cons_of_mem _ hj, ?_⟩
        rw [heq, List.append_assoc, List.append_assoc]
    · exact absurd h (trimEnd_ne_of_not_mem (hbody l List.mem_cons_self) x y)

/-- The scanner tells the backslash of a joint to continue its line just if its line ends right there. -/
theorem continues_window_iff {pre : List Char} {l : Line} {ls : List Line} {j : Joint}
    (hfed : ∀ m ∈ (l :: ls).dropLast, m.IsFed) (h : j ∈ ofLine pre l ls) :
    continues j.window = true ↔ j.lineEnd = ['\n'] ∨ j.lineEnd = ['\r', '\n'] := by
  obtain ⟨m, hm, hend⟩ := exists_line_of_mem_ofLine h
  obtain ⟨hbody, hending⟩ := hfed m hm
  have htrailing : '\n' ∉ Text.trailing m.body := fun hmem => by
    have hsplit := Text.trimEnd_append_trailing m.body
    exact hbody (hsplit ▸ List.mem_append_right _ hmem)
  -- What is left of the line are blanks and a line feed.
  obtain ⟨blanks, hblanks, hline⟩ : ∃ blanks, '\n' ∉ blanks ∧ j.lineEnd = blanks ++ ['\n'] := by
    rcases hending with hending | hending
    · exact ⟨_, htrailing, by rw [hend, hending]⟩
    · refine ⟨Text.trailing m.body ++ ['\r'], ?_, by rw [hend, hending, List.append_assoc]; rfl⟩
      rw [List.mem_append]
      exact fun hmem => hmem.elim htrailing (by decide)
  have hreturn : ['\r', '\n'] = ['\r'] ++ ['\n'] := rfl
  rw [window, hline, List.append_assoc, List.singleton_append, continues_backslash_iff hblanks, hreturn,
    List.append_left_inj, List.append_left_eq_self]

/-- A joint of lines is one of a logical line that begins with one of them. -/
theorem exists_ofLine_of_mem_ofLines {pre : List Char} {ls : List Line} {j : Joint} (ht : Terminated ls)
    (h : j ∈ ofLines pre ls) :
    ∃ front l ms, (l :: ms) <:+ ls ∧ front ++ Line.textAll (l :: ms) = pre ++ Line.textAll ls ∧
      j ∈ ofLine (front ++ (Text.splitTrim l.body).before) l.unindented ms := by
  fun_induction ofLines pre ls with
  | case1 => cases h
  | case2 pre l ls _ t ih =>
    rcases List.mem_append.1 h with h | h
    · split at h
      · exact ⟨pre, l, ls, List.suffix_rfl, rfl, h⟩
      · cases h
    · have hsuffix := block_rest_suffix l ls
      obtain ⟨front, m, ms, hlines, htext, hmem⟩ := ih (ht.2.2.of_suffix hsuffix) h
      refine ⟨front, m, ms, (hlines.trans hsuffix).trans (List.suffix_cons l ls), ?_, hmem⟩
      rw [htext, List.append_assoc, textAll_cons, (reads_block ht).eq_append]

theorem prefix_of_mem_ofLines {pre : List Char} {ls : List Line} {j : Joint} (h : j ∈ ofLines pre ls) :
    pre <+: j.before := by
  fun_induction ofLines pre ls with
  | case1 => cases h
  | case2 pre l ls _ t ih =>
    rcases List.mem_append.1 h with h | h
    · split at h
      · obtain ⟨x, hbefore, -⟩ := exists_of_mem_ofLine h
        rw [hbefore, List.append_assoc]
        exact List.prefix_append _ _
      · cases h
    · exact (List.prefix_append _ _).trans (ih h)

end Joint

section Joints

variable {cs : List Char} {j : Joint}

/-- A joint is at its place in the text. -/
theorem prefix_of_mem_joints (h : j ∈ joints cs) : j.before ++ j.window <+: cs := by
  obtain ⟨front, l, ms, -, htext, hmem⟩ :=
    Joint.exists_ofLine_of_mem_ofLines (terminated_ofTexts (Text.lines cs)) h
  obtain ⟨x, hbefore, hline⟩ := Joint.exists_of_mem_ofLine hmem
  have hlogical := append_logicalLine l.unindented ms
  rw [textAll_ofTexts_lines, List.nil_append, textAll_cons] at htext
  refine ⟨(logicalLine l.unindented ms).after ++ Line.textAll (logicalLine l.unindented ms).rest, ?_⟩
  rw [← htext, ← l.before_append_text_unindented, List.append_assoc _ l.unindented.text, ← hlogical,
    hline, hbefore]
  simp only [List.append_assoc]

theorem continues_iff_of_mem_joints (h : j ∈ joints cs) :
    continues j.window = true ↔ j.lineEnd = ['\n'] ∨ j.lineEnd = ['\r', '\n'] := by
  obtain ⟨front, l, ms, hlines, -, hmem⟩ :=
    Joint.exists_ofLine_of_mem_ofLines (terminated_ofTexts (Text.lines cs)) h
  exact Joint.continues_window_iff (isFed_of_suffix hlines) hmem

end Joints

end Recipe.Grammar
