import Recipe.Proofs.Tree.Append
import Recipe.Proofs.Tree.Content

/-!
# Texts of one line

The tree of a text without line feeds has at most one statement. It is read from the line without the
blanks around it, unless the line is a comment or a header (`nodesAfter_line`), and what is no comment,
task or definition comes from there (`startsStatement_of_mem`).
-/

namespace Recipe

namespace Text

theorem getLast?_of_suffix {α : Type} {xs ys : List α} (h : xs <:+ ys) {x : α}
    (hx : xs.getLast? = some x) : ys.getLast? = some x := by
  obtain ⟨front, rfl⟩ := h
  rw [List.getLast?_append, hx]
  rfl

theorem trimEnd_of_getLast? {cs : List Char} {c : Char} (h : cs.getLast? = some c)
    (hc : isBlank c = false) : trimEnd cs = cs := by
  have hsplit := trimEnd_append_trailing cs
  cases ht : (trailing cs).getLast? with
  | none => rwa [List.getLast?_eq_none_iff.1 ht, List.append_nil] at hsplit
  | some d =>
    have hd : isBlank d = true := List.all_eq_true.1 (all_trailing cs) d (List.mem_of_getLast? ht)
    have hlast := getLast?_of_suffix ⟨_, hsplit⟩ ht
    rw [h, Option.some.injEq] at hlast
    rw [hlast, hd] at hc
    cases hc

theorem splitTrim_of_head? {cs : List Char} {c : Char} (h : cs.head? = some c)
    (hc : isBlank c = false) : splitTrim cs = ⟨[], trimEnd cs, trailing cs⟩ := by
  obtain ⟨rest, rfl⟩ := List.head?_eq_some_iff.1 h
  have hneg : ¬isBlank c = true := by simp [hc]
  rw [splitTrim, trimStart, List.dropWhile_cons_of_neg hneg, List.takeWhile_cons_of_neg hneg]

end Text

/-- A piece that is no gap becomes one node of its kind. -/
theorem Piece.exists_node {p : Piece} {k : Kind} (h : p.kind? = some k) (pre : List Char) :
    ∃ n, nodesAfter pre [p] = [n] ∧ n.kind = k := by
  cases p with
  | token j t =>
    cases h
    exact ⟨_, rfl, rfl⟩
  | gap g => cases h
  | group j ps =>
    cases h
    exact ⟨_, rfl, rfl⟩

namespace Grammar

open Piece (nodesAfter)

/-- Whether a trimmed line begins a statement: it is not empty, no comment and no header. -/
structure StartsStatement (core : List Char) : Prop where
  ne_nil : core ≠ []
  not_comment : core.head? ≠ some '#'
  not_task : TaskHeader.read? core = none
  not_definition : definitionHeader? core = none

theorem getLast?_of_taskHeader {cs : List Char} {h : TaskHeader}
    (hh : TaskHeader.read? cs = some h) : cs.getLast? = some '{' := by
  have htext := (reads_taskHeader? hh []).eq_append
  rw [List.append_nil] at htext
  rw [htext, List.getLast?_concat]

theorem getLast?_of_definitionHeader {cs : List Char} {ps : List Piece}
    (h : definitionHeader? cs = some ps) : cs.getLast? = some ':' := by
  obtain ⟨rest, hk, h⟩ := Option.bind_eq_some_iff.1 h
  dsimp only at h
  split at h
  · rename_i hc
    simp only [Bool.and_eq_true, decide_eq_true_eq] at hc
    have hrest : rest <:+ cs := ⟨_, (eq_append_of_keyword? hk).symm⟩
    have hsuffix := (List.dropWhile_suffix isDefinitionNameChar).trans
      ((List.dropWhile_suffix isInlineBlank).trans hrest)
    exact Text.getLast?_of_suffix hsuffix hc.1.2
  · cases h

/-- The header of a task ends with a brace and the one of a definition with a colon. -/
theorem startsStatement_of_getLast? {core : List Char} {c : Char} (hl : core.getLast? = some c)
    (hc : c ≠ '{' ∧ c ≠ ':') (hh : core.head? ≠ some '#') : StartsStatement core where
  ne_nil := by
    rintro rfl
    cases hl
  not_comment := hh
  not_task := by
    refine Option.eq_none_iff_forall_ne_some.2 fun h heq => hc.1 ?_
    exact Option.some.inj (hl.symm.trans (getLast?_of_taskHeader heq))
  not_definition := by
    refine Option.eq_none_iff_forall_ne_some.2 fun ps heq => hc.2 ?_
    exact Option.some.inj (hl.symm.trans (getLast?_of_definitionHeader heq))

theorem block_of_startsStatement {l : Line} (h : StartsStatement (Text.splitTrim l.body).core)
    (ls : List Line) : block l ls = statementBlock (Text.splitTrim l.body) l ls := by
  rw [block, if_neg (by simpa using h.ne_nil), if_neg h.not_comment, h.not_task, h.not_definition]

theorem read_line {cs : List Char} (h : '\n' ∉ cs) :
    read cs = (block (Line.ofText [] cs) []).pieces := by
  have hrest : (block (Line.ofText [] cs) []).rest = [] :=
    List.suffix_nil.1 (block_rest_suffix _ [])
  rw [read, Text.lines_of_not_mem h, Line.ofTexts, document, hrest, document, List.append_nil]

/-- A carriage return at the end of a line is a blank at its end. -/
theorem splitTrim_ofText (feed cs : List Char) :
    (Text.splitTrim (Line.ofText feed cs).body).core = (Text.splitTrim cs).core ∧
      ((Text.splitTrim cs).core ≠ [] →
        (Text.splitTrim (Line.ofText feed cs).body).before = (Text.splitTrim cs).before) := by
  unfold Line.ofText
  split
  · rename_i h
    obtain ⟨ds, rfl⟩ := List.getLast?_eq_some_iff.1 h
    rw [List.dropLast_concat]
    have hblank : ['\r'].all Text.isBlank = true := by decide
    obtain ⟨hcore, hbefore⟩ := Text.splitTrim_append_blank ds hblank
    exact ⟨hcore.symm, fun hne => (hbefore (hcore ▸ hne)).symm⟩
  · exact ⟨rfl, fun _ => rfl⟩

theorem nodesAfter_between (pre before after : List Char) (p : Piece) :
    nodesAfter pre [.gap before, p, .gap after] = nodesAfter (pre ++ before) [p] := by
  have hpre : pre ++ Piece.textAll [.gap before] = pre ++ before :=
    congrArg (pre ++ ·) (List.append_nil before)
  calc nodesAfter pre ([.gap before] ++ ([p] ++ [.gap after]))
    _ = nodesAfter (pre ++ Piece.textAll [.gap before]) ([p] ++ [.gap after]) :=
      Piece.nodesAfter_append ..
    _ = nodesAfter (pre ++ before) [p]
        ++ nodesAfter (pre ++ before ++ Piece.textAll [p]) [.gap after] := by
      rw [hpre, Piece.nodesAfter_append]
    _ = nodesAfter (pre ++ before) [p] := List.append_nil _

/-- A line that begins a statement is the statement. -/
theorem nodesAfter_line {cs : List Char} (hline : '\n' ∉ cs)
    (h : StartsStatement (Text.splitTrim cs).core) :
    nodesAfter [] (read cs)
      = nodesAfter (Text.splitTrim cs).before [(Statement.read (Text.splitTrim cs).core).piece] := by
  obtain ⟨hcore, hbefore⟩ := splitTrim_ofText [] cs
  have hbefore := hbefore h.ne_nil
  rw [read_line hline]
  generalize Line.ofText [] cs = l at hcore hbefore
  have htrim : Text.trimEnd ((Text.splitTrim l.body).core ++ (Text.splitTrim l.body).after)
      = (Text.splitTrim l.body).core :=
    congrArg Text.trimEnd (Text.trimEnd_append_trailing (Text.trimStart l.body))
  rw [← hcore] at h
  rw [block_of_startsStatement h, statementBlock, logicalLine, htrim, hcore, hbefore]
  exact nodesAfter_between ..

theorem kinds_taskBlock (h : TaskHeader) (t : Text.Trimmed) (ending : List Char) (ls : List Line) :
    Piece.kinds (taskBlock h t ending ls).pieces = [h.kind] := by
  unfold taskBlock
  dsimp only
  split
  · rfl
  · rfl

theorem kinds_block {l : Line} (h : ¬StartsStatement (Text.splitTrim l.body).core) (ls : List Line) :
    Piece.kinds (block l ls).pieces ⊆
      [.comment, .functionDefinition, .pythonFunctionDefinition, .pythonDefinition] := by
  unfold block
  dsimp only
  split
  · exact List.nil_subset _
  rename_i hne
  split
  · simp
  rename_i hcomment
  split
  · rw [kinds_taskBlock]
    unfold TaskHeader.kind
    split
    · simp
    · simp
  rename_i htask
  split
  · simp [definitionBlock]
  rename_i hdefinition
  exact absurd ⟨by simpa using hne, hcomment, htask, hdefinition⟩ h

/-- A line that begins no statement is blank, a comment, a task or a definition. -/
theorem startsStatement_of_mem {cs : List Char} (hline : '\n' ∉ cs) {n : Node}
    (hn : n ∈ nodesAfter [] (read cs))
    (hk : n.kind ∉ [.comment, .functionDefinition, .pythonFunctionDefinition, .pythonDefinition]) :
    StartsStatement (Text.splitTrim cs).core := by
  by_contra h
  rw [← (splitTrim_ofText [] cs).1] at h
  have hkind : n.kind ∈ (nodesAfter [] (read cs)).map Node.kind := List.mem_map_of_mem hn
  rw [nodesAfter, Piece.map_kind_nodes, read_line hline] at hkind
  exact hk (kinds_block h [] hkind)

end Grammar

end Recipe
