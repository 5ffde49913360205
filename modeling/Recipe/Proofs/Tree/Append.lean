import Recipe.Proofs.Grammar.Append
import Recipe.Proofs.Tree.Layout

/-!
# Trees of texts put together

The statements of a text that ends with a line are there, as they are, whatever is written after it,
and what is written after it is read as if it stood alone, further down (`parse_append`). So an error
stays where it is made. What the first text must not do is end in a backslash, leave a task open, or
end with a python definition that the second text goes on with.
-/

namespace Recipe

open Text (bytes)

/-! ## Further down -/

/-- The place some bytes and lines further down. -/
def Cursor.shift (bytes lines : Nat) (c : Cursor) : Cursor :=
  ⟨c.offset + bytes, ⟨c.position.line + lines, c.position.column⟩⟩

/-- The range some bytes and lines further down. -/
def Range.shift (bytes lines : Nat) (r : Range) : Range :=
  ⟨⟨r.span.start + bytes, r.span.stop + bytes⟩, ⟨r.start.line + lines, r.start.column⟩,
    ⟨r.stop.line + lines, r.stop.column⟩⟩

namespace Node

mutual

/-- The node, with all nodes below it, some bytes and lines further down. -/
def shift (bytes lines : Nat) : Node → Node
  | leaf k r t => leaf k (r.shift bytes lines) t
  | branch k r cs => branch k (r.shift bytes lines) (shiftAll bytes lines cs)

/-- Several nodes further down. -/
def shiftAll (bytes lines : Nat) : List Node → List Node
  | [] => []
  | n :: ns => n.shift bytes lines :: shiftAll bytes lines ns

end

theorem shiftAll_eq_map (bytes lines : Nat) (ns : List Node) :
    shiftAll bytes lines ns = ns.map (shift bytes lines) := by
  induction ns with
  | nil => rfl
  | cons n ns ih => rw [shiftAll, ih, List.map_cons]

/-- Whether the node is a task whose brace no line closes. -/
def isOpenTask (n : Node) : Bool :=
  (n.kind == .functionDefinition || n.kind == .pythonFunctionDefinition) &&
    n.children.any fun c => c.isError && c.text? == some "\x7b"

end Node

theorem Cursor.advance_shift (o n : Nat) (c : Cursor) (cs : List Char) :
    (c.shift o n).advance cs = (c.advance cs).shift o n := by
  induction cs generalizing c with
  | nil => rfl
  | cons d cs ih =>
    have hstep : (c.shift o n).step d = (c.step d).shift o n := by
      unfold step shift
      split <;> simp only [Nat.add_right_comm]
    rw [advance_cons, advance_cons, hstep, ih]

namespace Piece

mutual

theorem locate_shift (o n : Nat) (c : Cursor) : ∀ p : Piece,
    p.locate (c.shift o n) = ⟨Node.shiftAll o n (p.locate c).nodes, (p.locate c).stop.shift o n⟩
  | token k t => by
    rw [locate, locate]
    dsimp only
    rw [Cursor.advance_shift]
    rfl
  | gap g => by
    rw [locate, locate]
    dsimp only
    rw [Cursor.advance_shift]
    rfl
  | group k ps => by
    rw [locate, locate]
    dsimp only
    rw [locateAll_shift o n c ps]
    rfl

/-- Pieces are laid out alike wherever they begin. -/
theorem locateAll_shift (o n : Nat) (c : Cursor) : ∀ ps : List Piece,
    locateAll (c.shift o n) ps
      = ⟨Node.shiftAll o n (locateAll c ps).nodes, (locateAll c ps).stop.shift o n⟩
  | [] => rfl
  | p :: ps => by
    rw [locateAll, locateAll]
    dsimp only
    rw [locate_shift o n c p, locateAll_shift o n _ ps]
    simp only [Node.shiftAll_eq_map, List.map_append]

end

/-- The nodes that pieces after `pre` are laid out to. -/
def nodesAfter (pre : List Char) (ps : List Piece) : List Node :=
  (locateAll (.after pre) ps).nodes

theorem nodesAfter_nil (pre : List Char) : nodesAfter pre [] = [] := rfl

theorem nodesAfter_gap (pre : List Char) (ps : List Piece) (g : List Char) :
    nodesAfter pre (.gap g :: ps) = nodesAfter (pre ++ g) ps :=
  nodes_gap ..

theorem nodesAfter_append (pre : List Char) (ps qs : List Piece) :
    nodesAfter pre (ps ++ qs) = nodesAfter pre ps ++ nodesAfter (pre ++ textAll ps) qs := by
  induction ps generalizing pre with
  | nil => simp [nodesAfter, locateAll, textAll]
  | cons p ps ih =>
    have hp := ih (pre ++ p.text)
    unfold nodesAfter at hp ⊢
    rw [List.cons_append, locateAll, locateAll, stop_locate, textAll]
    dsimp only
    rw [hp, List.append_assoc, List.append_assoc]

end Piece

/-! ## Lines that are put after others -/

namespace Grammar

open Piece (nodesAfter nodesAfter_append)

/-- The line after the last line feed of a text that ends with one. -/
def Line.empty : Line :=
  ⟨[], []⟩

theorem nodesAfter_nil (pre : List Char) : nodesAfter pre (document []) = [] := by
  rw [document]
  rfl

theorem nodesAfter_block (pre : List Char) (l : Line) (ls : List Line) :
    nodesAfter pre (document (l :: ls)) = nodesAfter pre (block l ls).pieces
      ++ nodesAfter (pre ++ Piece.textAll (block l ls).pieces) (document (block l ls).rest) := by
  rw [document, nodesAfter_append]

/-- Blank lines at the beginning of `ls` have no nodes: they only move the nodes of the lines after
them. -/
theorem nodesAfter_dropWhile (pre : List Char) (ls : List Line) :
    nodesAfter pre (document ls)
      = nodesAfter (pre ++ Line.textAll (ls.takeWhile Line.isBlank))
          (document (ls.dropWhile Line.isBlank)) := by
  induction ls generalizing pre with
  | nil => rw [List.takeWhile_nil, List.dropWhile_nil, nodesAfter_nil, nodesAfter_nil]
  | cons l ls ih =>
    by_cases hl : l.isBlank = true
    · have hb : block l ls = ⟨[.gap l.text], ls⟩ := by
        rw [block, Text.core_eq_nil hl]
        rfl
      rw [nodesAfter_block, hb, List.takeWhile_cons_of_pos hl, List.dropWhile_cons_of_pos hl,
        textAll_cons, ← List.append_assoc, ih]
      simp [nodesAfter, Piece.locateAll, Piece.locate, Piece.textAll, Piece.text]
    · rw [List.takeWhile_cons_of_neg hl, List.dropWhile_cons_of_neg hl, textAll_nil, List.append_nil]

theorem any_getLast?_append {α : Type} {p : α → Bool} {xs : List α} (front : List α)
    (h : xs.getLast?.any p = true) : (front ++ xs).getLast?.any p = true := by
  rw [List.getLast?_append]
  cases hx : xs.getLast? with
  | none =>
    rw [hx] at h
    cases h
  | some x =>
    rw [hx] at h
    exact h

/-- A task that no line closes is seen in the tree. -/
theorem exists_isOpenTask (pre : List Char) {ls : List Line} (hall : ls.all (!·.closesTask) = true)
    (h : TaskHeader) (t : Text.Trimmed) (ending : List Char) :
    ∃ n ∈ nodesAfter pre (taskBlock h t ending ls).pieces, n.isOpenTask = true := by
  have hdrop : ls.dropWhile (!·.closesTask) = [] := by
    rw [← List.append_nil ls, List.dropWhile_append_of_pos (List.all_eq_true.1 hall)]
    rfl
  have hk : (h.kind == .functionDefinition || h.kind == .pythonFunctionDefinition) = true := by
    unfold TaskHeader.kind
    split <;> decide
  have hbrace : ∀ pre, nodesAfter pre [.token .error ['{']]
      = [.leaf .error ((Cursor.after pre).rangeTo ((Cursor.after pre).advance ['{'])) "\x7b"] :=
    fun pre => rfl
  rw [taskBlock, hdrop]
  dsimp only
  rw [openTask, nodesAfter, Piece.nodes_gap, Piece.nodes_group]
  refine ⟨_, List.mem_cons_self, ?_⟩
  rw [Node.isOpenTask, Node.kind, hk, Bool.true_and, Node.children, ← nodesAfter, nodesAfter_append,
    nodesAfter_append, hbrace, List.any_append, List.any_append]
  simp [Node.isError, Node.kind, Node.text?]

/-- A definition that goes up to the last line takes no more than the blank lines of those that are
put after it, and has the same nodes. -/
theorem definitionBlock_append_blank (pre : List Char) {header : List Piece} {l : Line}
    {ls more : List Line} (hh : definitionHeader? (Text.splitTrim l.body).core = some header)
    (hall : ls.all Line.inDefinition = true) (hm : Terminated more)
    (hf : (more.find? (!·.isBlank)).any Line.inDefinition = false) :
    let b := definitionBlock header (Text.splitTrim l.body) l.ending
    nodesAfter pre (b (ls ++ more)).pieces = nodesAfter pre (b (ls ++ [.empty])).pieces ∧
      (b (ls ++ more)).rest = more.dropWhile Line.isBlank ∧
      Piece.textAll (b (ls ++ more)).pieces
        = Line.textAll (l :: ls) ++ Line.textAll (more.takeWhile Line.isBlank) := by
  intro b
  obtain ⟨htake, hdrop⟩ := span_inDefinition hf
  have htakes : ∀ ms, (ls ++ ms).takeWhile Line.inDefinition = ls ++ ms.takeWhile Line.inDefinition :=
    fun ms => List.takeWhile_append_of_pos (List.all_eq_true.1 hall)
  have hrest : (b (ls ++ more)).rest = more.dropWhile Line.isBlank :=
    (List.dropWhile_append_of_pos (List.all_eq_true.1 hall)).trans hdrop
  refine ⟨?_, hrest, ?_⟩
  · have hc : ∀ ms : List Line, (Line.textAll (ms.takeWhile Line.inDefinition)).all Text.isBlank = true →
        nodesAfter pre (b (ls ++ ms)).pieces = nodesAfter pre [.gap (Text.splitTrim l.body).before,
          .group .pythonDefinition (header ++ (content .pythonContent
            ((Text.splitTrim l.body).after ++ l.ending ++ Line.textAll ls)).1)] := by
      intro ms hb
      show nodesAfter pre (definitionBlock _ _ _ _).pieces = _
      rw [definitionBlock, htakes, textAll_append, ← List.append_assoc, content_append_blank _ _ hb]
      simp [nodesAfter, Piece.locateAll, Piece.locate]
    rw [hc more (by rw [htake]; exact all_textAll_takeWhile hm), hc [.empty] rfl]
  · have hr : l.text ++ Line.textAll (ls ++ more)
        = Piece.textAll (b (ls ++ more)).pieces ++ Line.textAll (b (ls ++ more)).rest :=
      (reads_definitionBlock hh).eq_append
    rw [hrest, textAll_append, ← textAll_takeWhile_append Line.isBlank more, ← List.append_assoc,
      ← List.append_assoc, ← textAll_cons] at hr
    exact (List.append_cancel_right hr).symm

/-- The nodes of lines that are put together: those of the first lines, as if an empty line came
after them, and those of the others. -/
theorem nodesAfter_document_append (pre : List Char) {ls more : List Line}
    (hl : Terminated ls) (hm : Terminated more) (hj : ls.getLast?.any joinsNext = false)
    (ht : ∀ n ∈ nodesAfter pre (document (ls ++ [.empty])), n.isOpenTask = false)
    (hd : (nodesAfter pre (document (ls ++ [.empty]))).getLast?.any (·.kind == .pythonDefinition)
        = true → (more.find? (!·.isBlank)).any Line.inDefinition = false) :
    nodesAfter pre (document (ls ++ more)) = nodesAfter pre (document (ls ++ [.empty]))
      ++ nodesAfter (pre ++ Line.textAll ls) (document more) := by
  fun_induction document ls generalizing pre with
  | case1 =>
    have he : nodesAfter pre (document [.empty]) = [] :=
      (nodesAfter_dropWhile pre [.empty]).trans (nodesAfter_nil _)
    rw [List.nil_append, List.nil_append, he, textAll_nil, List.append_nil]
    rfl
  | case2 l ls _ ih =>
    rw [List.cons_append, nodesAfter_block] at ht hd
    rw [List.cons_append, List.cons_append, nodesAfter_block,
      nodesAfter_block pre l (ls ++ [Line.empty])]
    rcases block_append hj with hb | ⟨header, hh, hall, hb⟩ | ⟨header, hh, hall, hb⟩
    · -- The block ends among the first lines.
      rw [hb] at ht hd
      rw [hb, hb]
      dsimp only [Block.append] at ht hd ⊢
      have htext : l.text ++ Line.textAll ls
          = Piece.textAll (block l ls).pieces ++ Line.textAll (block l ls).rest :=
        (reads_block hl).eq_append
      obtain ⟨front, hfront⟩ := block_rest_suffix l ls
      rw [ih (pre ++ Piece.textAll (block l ls).pieces) (hl.2.2.of_suffix ⟨front, hfront⟩) ?_ ?_ ?_,
        ← List.append_assoc, List.append_assoc pre, ← htext, ← textAll_cons]
      · refine Bool.eq_false_iff.2 fun hlast => ?_
        have hjoins := any_getLast?_append (l :: front) hlast
        rw [List.cons_append, hfront, hj] at hjoins
        cases hjoins
      · exact fun n hn => ht n (List.mem_append_right _ hn)
      · exact fun hlast => hd (any_getLast?_append _ hlast)
    · -- No line closes the task, and the tree shows it.
      have hopen : (ls ++ [Line.empty]).all (!·.closesTask) = true := by
        rw [List.all_append, hall]
        rfl
      obtain ⟨n, hn, ho⟩ := exists_isOpenTask pre hopen header (Text.splitTrim l.body) l.ending
      rw [hb] at ht
      rw [ht n (List.mem_append_left _ hn)] at ho
      cases ho
    · -- The definition goes up to the last line.
      have hnone : (definitionBlock header (Text.splitTrim l.body) l.ending
          (ls ++ [Line.empty])).rest = [] :=
        List.dropWhile_append_of_pos (List.all_eq_true.1 hall)
      rw [hb, hnone, nodesAfter_nil, List.append_nil] at hd
      have hfirst := hd (by
        rw [definitionBlock, nodesAfter, Piece.nodes_gap, Piece.nodes_group]
        rfl)
      obtain ⟨hnodes, hrest, htext⟩ := definitionBlock_append_blank pre hh hall hm hfirst
      rw [hb, hb, hnone, nodesAfter_nil, List.append_nil, hnodes, hrest, htext, ← List.append_assoc,
        ← nodesAfter_dropWhile]

end Grammar

/-! ## Trees -/

/-- Pieces at the beginning of a line are laid out as at the beginning of a text, further down. -/
theorem Piece.nodesAfter_eq_map_shift {cs : List Char} (h : cs = [] ∨ cs.getLast? = some '\n')
    (ps : List Piece) :
    nodesAfter cs ps = (nodesAfter [] ps).map (Node.shift (bytes cs) (cs.count '\n')) := by
  have hposition : (Cursor.after cs).position = ⟨0 + cs.count '\n', 0⟩ := by
    rcases h with rfl | h
    · rfl
    · exact Cursor.start.position_advance_of_getLast? h
  have hafter : Cursor.after cs = Cursor.start.shift (bytes cs) (cs.count '\n') := by
    have heta : Cursor.after cs = ⟨(Cursor.after cs).offset, (Cursor.after cs).position⟩ := rfl
    rw [heta, Cursor.offset_after, hposition]
    simp [Cursor.shift, Cursor.start]
  rw [nodesAfter, hafter, locateAll_shift, Node.shiftAll_eq_map]
  rfl

theorem statements_of_parse {limit : Nat} {source : String} {t : Tree}
    (h : parse limit source = .ok t) :
    t.statements = Piece.nodesAfter [] (Grammar.read source.toList) := by
  unfold parse at h
  dsimp only at h
  split at h
  · cases h
  · cases h
    rfl

/-- Two texts put together, of which the first one is empty or ends with a line feed and does not end
in a backslash, have the statements of the first one and then those of the second one, further down by
the bytes and lines of the first one: if no task of the first one is open, and it does not end with a
definition that the first line of the second one that is not blank could stand in. -/
theorem parse_append (limit : Nat) (a b : String)
    (hsize : bytes a.toList + bytes b.toList ≤ limit)
    (hend : a.toList = [] ∨ a.toList.getLast? = some '\n')
    (hjoin : ∀ l, (Text.lines a.toList).dropLast.getLast? = some l →
      (Text.trimEnd l).getLast? ≠ some '\\') :
    ∃ ta tb tab, parse limit a = .ok ta ∧ parse limit b = .ok tb ∧ parse limit (a ++ b) = .ok tab ∧
      ((∀ n ∈ ta.statements, n.isOpenTask = false) →
        (ta.statements.getLast?.any (·.kind == .pythonDefinition) = true →
          ∀ l, (Text.lines b.toList).find? (!·.all Text.isBlank) = some l →
            l.head?.any [' ', '\t', '#'].contains = false) →
        tab.statements = ta.statements
          ++ tb.statements.map (Node.shift (bytes a.toList) (a.toList.count '\n'))) := by
  have hparse : ∀ s : String, bytes s.toList ≤ limit → ∃ t, parse limit s = .ok t := fun s hs =>
    ⟨_, parse_eq_ok hs⟩
  obtain ⟨ta, hta⟩ := hparse a (by omega)
  obtain ⟨tb, htb⟩ := hparse b (by omega)
  obtain ⟨tab, htab⟩ := hparse (a ++ b) (by rw [String.toList_append, Text.bytes_append]; exact hsize)
  refine ⟨ta, tb, tab, hta, htb, htab, ?_⟩
  rw [statements_of_parse hta, statements_of_parse htb, statements_of_parse htab]
  intro htask hdef
  obtain ⟨front, hfront, htext, hlines⟩ := Grammar.exists_lines hend
  have hread : Grammar.read a.toList
      = Grammar.document (front.map (Grammar.Line.ofText ['\n']) ++ [.empty]) := by
    have h := hlines []
    rw [List.append_nil] at h
    rw [Grammar.read, h]
    rfl
  have hlast : ((front.map (Grammar.Line.ofText ['\n'])).getLast?).any Grammar.joinsNext = false := by
    rw [List.getLast?_map]
    cases hl : front.getLast? with
    | none => rfl
    | some l =>
      have hne := hjoin l (by rw [hfront, List.dropLast_concat, hl])
      rw [Option.map_some, Option.any_some, Grammar.joinsNext, Grammar.trimEnd_body_ofText]
      exact beq_eq_false_iff_ne.2 hne
  rw [hread] at htask hdef ⊢
  rw [Grammar.read, String.toList_append, hlines, Grammar.nodesAfter_document_append []
    (Grammar.terminated_map_ofText front) (Grammar.terminated_ofTexts _) hlast htask, htext,
    List.nil_append, ← Grammar.read, Piece.nodesAfter_eq_map_shift hend]
  intro hd
  rw [Grammar.find?_ofTexts]
  cases hl : (Text.lines b.toList).find? (!·.all Text.isBlank) with
  | none => rfl
  | some l => exact hdef hd l hl

/-- An unterminated value, a task, and a definition with a blank line after it. -/
def endsWithDefinition : String :=
  "A = \"ä\ndo_x() \x7b\n\x7d\ndef f():\n  x\n\n"

/-- Blank lines, and a word that no rule fits. -/
def beginsWithBlanks : String :=
  "\n \n?= 1\n"

theorem parse_append_definition :
    ∃ ta tb tab, parse 64 endsWithDefinition = .ok ta ∧ parse 64 beginsWithBlanks = .ok tb ∧
      parse 64 (endsWithDefinition ++ beginsWithBlanks) = .ok tab ∧
      ta.statements.getLast?.any (·.kind == .pythonDefinition) = true ∧
      tab.statements = ta.statements ++ tb.statements.map (Node.shift 33 6) := by
  have hlast : (Text.lines endsWithDefinition.toList).dropLast.getLast? = some [] := by decide
  obtain ⟨ta, tb, tab, ha, hb, hab, h⟩ :=
    parse_append 64 endsWithDefinition beginsWithBlanks (by decide) (.inr (by decide))
      fun l hl => by rw [hlast] at hl; cases hl; decide
  have hstatements := statements_of_parse ha
  have hfirst : (Text.lines beginsWithBlanks.toList).find? (!·.all Text.isBlank)
      = some "?= 1".toList := by decide
  refine ⟨ta, tb, tab, ha, hb, hab, ?_, h ?_ fun _ l hl => ?_⟩
  · rw [hstatements]
    decide +kernel
  · rw [hstatements]
    have : (Piece.nodesAfter [] (Grammar.read endsWithDefinition.toList)).all
        (!·.isOpenTask) = true := by
      decide +kernel
    simpa using this
  · rw [hfirst] at hl
    cases hl
    decide

end Recipe
