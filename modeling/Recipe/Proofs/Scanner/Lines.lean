import Recipe.Proofs.Scanner.Place
import Recipe.Proofs.Text.LineSpan

/-!
# Lines by offsets

A reader by offsets has the spans of the lines of a text, without their line feeds and carriage returns,
and stands at the number of one of them. `LineReader.At r n pre ls` says that it stands where the lines
`ls` are left and `pre` is what stands before them. What it looks up there are the bodies of these lines,
and the end that it finds for a logical line is the one that the grammar gives (`LineReader.At.logicalLine`).
-/

namespace Recipe

open Text (bytes)
open Checked (Round loop)
open Grammar (Line)

/-- A text and the spans of its lines. -/
structure LineReader where
  text : List Char
  lines : List Span

/-- Takes a carriage return off the end of a line. -/
def Span.stripReturn (text : List Char) (span : Span) : Checked Span := do
  if (Text.slice text span.start span.stop).any (·.getLast? == some '\r') then
    let stop ← Checked.sub span.stop 1
    .ok ⟨span.start, stop⟩
  else .ok span

namespace LineReader

/-- The reader of a text. -/
def ofText (text : List Char) : Checked LineReader := do
  let table := LineTable.ofText text
  let lines ← ((List.range table.lineCount).filterMap table.lineSpan).mapM (Span.stripReturn text)
  .ok ⟨text, lines⟩

variable (r : LineReader)

/-- The text of line `n`. -/
def lineText (n : Nat) : Checked (List Char) := do
  let span ← Checked.get r.lines n
  .ok ((Text.slice r.text span.start span.stop).getD [])

/-- Looks whether a logical line goes on after line `n`. If not, it ends after that line's last
character that is not blank. -/
def logicalRound (n : Nat) : Checked (Round Nat (Nat × Nat)) := do
  let span ← Checked.get r.lines n
  let line ← r.lineText n
  let content := Text.trimEnd line
  .ok (if content.getLast? == some '\\' && decide (n + 1 < r.lines.length) then .again (n + 1)
    else .done (span.start + bytes content, n + 1))

/-- The end of the logical line that begins with line `n`, and the number of the line after it. -/
def logicalLine (n : Nat) : Checked (Nat × Nat) :=
  loop (r.lines.length - ·) r.logicalRound n

end LineReader

/-! ## Spans of lines -/

namespace Grammar.Line

/-- The spans of the bodies of lines that begin at an offset. -/
def spans (start : Nat) : List Line → List Span
  | [] => []
  | l :: ls => ⟨start, start + bytes l.body⟩ :: spans (start + bytes l.text) ls

theorem length_spans (start : Nat) (ls : List Line) : (spans start ls).length = ls.length := by
  induction ls generalizing start with
  | nil => rfl
  | cons l ls ih => exact congrArg (· + 1) (ih _)

end Grammar.Line

/-- The spans of texts that line feeds separate. -/
def LineTable.spansFrom (start : Nat) : List (List Char) → List Span
  | [] => []
  | l :: ls => ⟨start, start + bytes l⟩ :: spansFrom (start + bytes l + 1) ls

theorem LineTable.filterMap_spans (o : Nat) (ls : List (List Char)) :
    (List.range ls.length).filterMap (fun n => ls[n]?.map fun l =>
      (⟨o + bytesOfFirst n ls, o + bytesOfFirst n ls + bytes l⟩ : Span)) = spansFrom o ls := by
  induction ls generalizing o with
  | nil => rfl
  | cons l ls ih =>
    have hrest := ih (o + bytes l + 1)
    rw [List.length_cons, List.range_succ_eq_map, List.filterMap_cons, List.filterMap_map, spansFrom, ← hrest]
    simp only [Function.comp_def, List.getElem?_cons_zero, List.getElem?_cons_succ, Option.map_some,
      bytesOfFirst, Nat.add_zero, Nat.add_assoc]

theorem Span.stripReturn_append (pre feed l post : List Char) :
    Span.stripReturn (pre ++ (l ++ post)) ⟨bytes pre, bytes pre + bytes l⟩
      = .ok ⟨bytes pre, bytes pre + bytes (Line.ofText feed l).body⟩ := by
  rw [stripReturn, Text.slice_append, Option.any_some, Line.ofText]
  by_cases hl : l.getLast? = some '\r'
  · obtain ⟨m, rfl⟩ := List.getLast?_eq_some_iff.1 hl
    have hm : bytes pre + bytes (m ++ ['\r']) = bytes pre + bytes m + 1 := by
      rw [Text.bytes_append, ← Nat.add_assoc]
      rfl
    rw [hl, if_pos (beq_self_eq_true _), Checked.sub_of_eq_add hm, if_pos rfl, List.dropLast_concat]
    rfl
  · rw [beq_eq_false_iff_ne.2 hl, if_neg Bool.false_ne_true, if_neg hl]

theorem LineTable.mapM_stripReturn (pre : List Char) (ts : List (List Char)) :
    (spansFrom (bytes pre) ts).mapM (Span.stripReturn (pre ++ Line.textAll (Line.ofTexts ts)))
      = .ok (Line.spans (bytes pre) (Line.ofTexts ts)) := by
  fun_induction Line.ofTexts ts generalizing pre with
  | case1 => rfl
  | case2 l =>
    have hl := Span.stripReturn_append pre [] l []
    rw [spansFrom, spansFrom, Grammar.textAll_cons, Grammar.text_ofText, Grammar.textAll_nil,
      List.append_assoc, List.append_nil, List.mapM_cons, hl]
    rfl
  | case3 l m ls ih =>
    have hl := Span.stripReturn_append pre ['\n'] l ('\n' :: Line.textAll (Line.ofTexts (m :: ls)))
    have hrest := ih (pre ++ (l ++ ['\n']))
    have hbytes : bytes (pre ++ (l ++ ['\n'])) = bytes pre + bytes l + 1 := by
      rw [Text.bytes_append, Text.bytes_append, ← Nat.add_assoc]
      rfl
    have htext : pre ++ (l ++ ['\n']) ++ Line.textAll (Line.ofTexts (m :: ls))
        = pre ++ (l ++ '\n' :: Line.textAll (Line.ofTexts (m :: ls))) := by simp
    rw [hbytes, htext] at hrest
    rw [spansFrom, Grammar.textAll_cons, Grammar.text_ofText, ← List.append_assoc pre, htext,
      List.mapM_cons, hl, Checked.ok_bind, hrest, Line.spans, Grammar.text_ofText, Text.bytes_append,
      ← Nat.add_assoc]
    rfl

theorem LineReader.ofText_eq (cs : List Char) :
    ofText cs = .ok ⟨cs, Line.spans 0 (Line.ofTexts (Text.lines cs))⟩ := by
  have hspans := LineTable.filterMap_spans 0 (Text.lines cs)
  have hstrip := LineTable.mapM_stripReturn [] (Text.lines cs)
  simp only [Nat.zero_add] at hspans
  rw [Grammar.textAll_ofTexts_lines, List.nil_append, Text.bytes_nil, ← hspans] at hstrip
  have hlines : ((List.range (LineTable.ofText cs).lineCount).filterMap (LineTable.ofText cs).lineSpan).mapM
      (Span.stripReturn cs) = .ok (Line.spans 0 (Line.ofTexts (Text.lines cs))) := hstrip
  rw [ofText, hlines]
  rfl

/-! ## Where a reader stands -/

namespace LineReader

/-- The reader stands at line `n`, with `pre` before it and the lines `ls` left. -/
structure At (r : LineReader) (n : Nat) (pre : List Char) (ls : List Line) : Prop where
  text_eq : r.text = pre ++ Line.textAll ls
  drop_eq : r.lines.drop n = Line.spans (bytes pre) ls
  terminated : Grammar.Terminated ls

theorem at_ofText (cs : List Char) :
    At ⟨cs, Line.spans 0 (Line.ofTexts (Text.lines cs))⟩ 0 [] (Line.ofTexts (Text.lines cs)) where
  text_eq := (Grammar.textAll_ofTexts_lines cs).symm
  drop_eq := rfl
  terminated := Grammar.terminated_ofTexts _

namespace At

variable {r : LineReader} {n : Nat} {pre : List Char} {l : Line} {ls ms : List Line}

theorem length_sub (h : At r n pre ls) : r.lines.length - n = ls.length := by
  rw [← List.length_drop, h.drop_eq, Line.length_spans]

theorem get (h : At r n pre (l :: ls)) :
    Checked.get r.lines n = .ok ⟨bytes pre, bytes pre + bytes l.body⟩ := by
  refine Checked.get_of_getElem? ?_
  rw [← Nat.add_zero n, ← List.getElem?_drop, h.drop_eq]
  rfl

theorem next (h : At r n pre (l :: ls)) : At r (n + 1) (pre ++ l.text) ls where
  text_eq := by rw [h.text_eq, Grammar.textAll_cons, List.append_assoc]
  drop_eq := by rw [← List.drop_drop, h.drop_eq, Text.bytes_append]; rfl
  terminated := h.terminated.2.2

theorem skip (h : At r n pre (ls ++ ms)) : At r (n + ls.length) (pre ++ Line.textAll ls) ms := by
  induction ls generalizing n pre with
  | nil => simpa using h
  | cons l ls ih =>
    have hrest := ih h.next
    rwa [List.append_assoc, ← Grammar.textAll_cons, Nat.add_assoc, Nat.add_comm 1] at hrest

/-- The text of the reader is what stands before the line it is at, the body and the ending of this
line, and the lines after it. -/
theorem text_cons (h : At r n pre (l :: ls)) :
    r.text = pre ++ (l.body ++ (l.ending ++ Line.textAll ls)) := by
  rw [h.text_eq, Grammar.textAll_cons, Line.text, List.append_assoc]

theorem lineText (h : At r n pre (l :: ls)) : r.lineText n = .ok l.body := by
  rw [LineReader.lineText, h.get, Checked.ok_bind, h.text_cons, Text.slice_append]
  rfl

theorem logicalRound (h : At r n pre (l :: ls)) :
    r.logicalRound n = .ok (if Grammar.joinsNext l = true ∧ ls ≠ [] then .again (n + 1)
      else .done (bytes pre + bytes (Text.trimEnd l.body), n + 1)) := by
  have hlt : n + 1 < r.lines.length ↔ ls ≠ [] := by
    have hlen := h.length_sub
    rw [List.length_cons] at hlen
    rw [← List.length_pos_iff]
    omega
  rw [LineReader.logicalRound, h.get, Checked.ok_bind, h.lineText, Checked.ok_bind]
  simp only [Bool.and_eq_true, decide_eq_true_eq, hlt]
  rfl

/-- A logical line ends where the grammar ends it. -/
theorem logicalLine (h : At r n pre (l :: ls)) :
    ∃ next, r.logicalLine n = .ok (bytes pre + bytes (Grammar.logicalLine l ls).text, next) ∧
      At r next (pre ++ ((Grammar.logicalLine l ls).text ++ (Grammar.logicalLine l ls).after))
        (Grammar.logicalLine l ls).rest := by
  fun_induction Grammar.logicalLine l ls generalizing n pre with
  | case1 l =>
    have hround := h.logicalRound
    rw [if_neg fun hj => hj.2 rfl] at hround
    refine ⟨n + 1, Checked.loop_done hround, ?_⟩
    rw [Grammar.trimEnd_append_ending]
    exact h.next
  | case2 l m ls hj =>
    rename_i tail ih
    obtain ⟨next, hloop, hat⟩ := ih h.next
    have hround := h.logicalRound
    rw [if_pos ⟨hj, List.cons_ne_nil m ls⟩] at hround
    have hlt : r.lines.length - (n + 1) < r.lines.length - n := by
      rw [h.length_sub, h.next.length_sub]
      exact Nat.lt_succ_self _
    refine ⟨next, ?_, ?_⟩
    · rw [LineReader.logicalLine, Checked.loop_again hround hlt, ← LineReader.logicalLine, hloop,
        Text.bytes_append, Text.bytes_append, Nat.add_assoc]
    · rwa [List.append_assoc, ← List.append_assoc l.text] at hat
  | case3 l m ls hj =>
    have hround := h.logicalRound
    rw [if_neg fun hj' => hj hj'.1] at hround
    refine ⟨n + 1, Checked.loop_done hround, ?_⟩
    rw [Grammar.trimEnd_append_ending]
    exact h.next

end At

end LineReader

end Recipe
