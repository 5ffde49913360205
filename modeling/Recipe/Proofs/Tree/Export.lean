import Recipe.Proofs.Grammar.Export
import Recipe.Proofs.Tree.Line
import Recipe.Proofs.Tree.Sketch
import Recipe.Symbol

/-!
# Trees of exported assignments

With `export` in front, the line of an assignment without a flag is an export of the same assignment,
which stands further to the right and declares the same name. With a flag the line is refused
(`parse_export`).
-/

namespace Recipe

open Text (bytes isBlank)

/-! ## Nodes further to the right on their line -/

/-- The place some bytes further on the same line. -/
def Cursor.right (k : Nat) (c : Cursor) : Cursor :=
  ⟨c.offset + k, ⟨c.position.line, c.position.column + k⟩⟩

/-- The range some bytes further on the same line. -/
def Range.right (k : Nat) (r : Range) : Range :=
  ⟨⟨r.span.start + k, r.span.stop + k⟩, ⟨r.start.line, r.start.column + k⟩,
    ⟨r.stop.line, r.stop.column + k⟩⟩

namespace Node

mutual

/-- The node some bytes further on the same line. -/
def right (k : Nat) : Node → Node
  | leaf kind r t => leaf kind (r.right k) t
  | branch kind r cs => branch kind (r.right k) (rightAll k cs)

/-- Several nodes further on the same line. -/
def rightAll (k : Nat) : List Node → List Node
  | [] => []
  | n :: ns => n.right k :: rightAll k ns

end

theorem rightAll_eq_map (k : Nat) (ns : List Node) : rightAll k ns = ns.map (right k) := by
  induction ns with
  | nil => rfl
  | cons n ns ih => rw [rightAll, ih, List.map_cons]

@[simp] theorem kind_right (k : Nat) (n : Node) : (n.right k).kind = n.kind := by
  cases n with
  | leaf kind r t => rfl
  | branch kind r cs => rfl

theorem children_right (k : Nat) (n : Node) : (n.right k).children = n.children.map (right k) := by
  cases n with
  | leaf kind r t => rfl
  | branch kind r cs => exact rightAll_eq_map k cs

theorem child?_right (k : Nat) (n : Node) (kind : Kind) :
    (n.right k).child? kind = (n.child? kind).map (right k) := by
  rw [child?, child?, children_right, List.find?_map]
  congr 2
  funext m
  simp

mutual

theorem sketch_right (k : Nat) : ∀ n : Node, (n.right k).sketch = n.sketch
  | leaf _ _ _ => rfl
  | branch _ _ cs => by rw [right, sketch, sketch, sketchAll_rightAll k cs]

theorem sketchAll_rightAll (k : Nat) : ∀ ns : List Node, sketchAll (rightAll k ns) = sketchAll ns
  | [] => rfl
  | n :: ns => by rw [rightAll, sketchAll, sketchAll, sketch_right k n, sketchAll_rightAll k ns]

end

end Node

theorem Cursor.advance_right (k : Nat) (c : Cursor) {cs : List Char} (h : '\n' ∉ cs) :
    (c.right k).advance cs = (c.advance cs).right k := by
  induction cs generalizing c with
  | nil => rfl
  | cons d cs ih =>
    rw [List.mem_cons, not_or] at h
    have hstep : (c.right k).step d = (c.step d).right k := by
      unfold step right
      rw [if_neg (Ne.symm h.1), if_neg (Ne.symm h.1)]
      simp only [Nat.add_right_comm]
    rw [advance_cons, advance_cons, hstep, ih _ h.2]

namespace Piece

mutual

theorem locate_right (k : Nat) (c : Cursor) : ∀ p : Piece, '\n' ∉ p.text →
    p.locate (c.right k) = ⟨Node.rightAll k (p.locate c).nodes, (p.locate c).stop.right k⟩
  | token kind t, h => by
    rw [text] at h
    rw [locate, locate]
    dsimp only
    rw [Cursor.advance_right k c h]
    rfl
  | gap g, h => by
    rw [text] at h
    rw [locate, locate]
    dsimp only
    rw [Cursor.advance_right k c h]
    rfl
  | group kind ps, h => by
    rw [locate, locate]
    dsimp only
    rw [locateAll_right k c ps h]
    rfl

/-- Pieces without line feeds are laid out alike wherever they begin on a line. -/
theorem locateAll_right (k : Nat) (c : Cursor) : ∀ ps : List Piece, '\n' ∉ textAll ps →
    locateAll (c.right k) ps
      = ⟨Node.rightAll k (locateAll c ps).nodes, (locateAll c ps).stop.right k⟩
  | [], _ => rfl
  | p :: ps, h => by
    rw [textAll, List.mem_append, not_or] at h
    rw [locateAll, locateAll]
    dsimp only
    rw [locate_right k c p h.1, locateAll_right k _ ps h.2]
    simp only [Node.rightAll_eq_map, List.map_append]

end

end Piece

/-! ## The export of a statement -/

/-- The export of a statement that begins a text: the keyword, and the statement after a blank. -/
def Node.exported (n : Node) : Node :=
  .branch .exportStatement ⟨⟨0, n.range.span.stop + 7⟩, ⟨0, 0⟩, (n.right 7).range.stop⟩
    [.leaf .keyword ⟨⟨0, 6⟩, ⟨0, 0⟩, ⟨0, 6⟩⟩ "export", n.right 7]

/-- An export declares what the assignment declares. -/
theorem Node.declaredName?_exported {n : Node} (h : n.kind = .variableAssignment) :
    n.exported.declaredName? = n.declaredName?.map fun d => (d.1.right 7, d.2) := by
  have hchild : n.exported.child? .variableAssignment = some (n.right 7) := by
    show List.find? _ [_, n.right 7] = _
    rw [List.find?_cons_of_neg (by decide), List.find?_cons_of_pos (by simp [h])]
  unfold declaredName?
  rw [h]
  show ((n.exported.child? .variableAssignment).bind assignedName?).map _ = _
  rw [hchild, Option.bind_some, assignedName?, child?_right, Option.map_map, Option.map_map]
  rfl

theorem Piece.nodesAfter_export {k : Kind} {inside : List Piece} (h : '\n' ∉ textAll inside)
    {n : Node} (hn : nodesAfter [] [.group k inside] = [n]) :
    nodesAfter [] [.group .exportStatement
      [.token .keyword "export".toList, .gap [' '], .group k inside]] = [n.exported] := by
  have hright := locate_right 7 .start (.group k inside) h
  have hlayout : nodesAfter [] [.group .exportStatement
      [.token .keyword "export".toList, .gap [' '], .group k inside]]
      = [.branch .exportStatement
          (Cursor.start.rangeTo ((group k inside).locate (Cursor.start.right 7)).stop)
          (.leaf .keyword ⟨⟨0, 6⟩, ⟨0, 0⟩, ⟨0, 6⟩⟩ "export"
            :: (((group k inside).locate (Cursor.start.right 7)).nodes ++ []))] := rfl
  obtain rfl : Node.branch k (Cursor.start.rangeTo (locateAll .start inside).stop)
      (locateAll .start inside).nodes = n := List.singleton_inj.1 hn
  rw [hlayout, hright]
  rfl

/-! ## The line of an export -/

namespace Grammar

open Piece (nodesAfter)

/-- A line that is an assignment is one without the blanks at its end. -/
theorem exists_assignment_of_line {cs : List Char} {n : Node} (hline : '\n' ∉ cs)
    (hhead : ∀ c, cs.head? = some c → isBlank c = false) (hn : nodesAfter [] (read cs) = [n])
    (hk : n.kind = .variableAssignment) :
    ∃ s, assignment? (Text.trimEnd cs) = some s ∧ nodesAfter [] [s.piece] = [n] := by
  have hstarts : StartsStatement (Text.splitTrim cs).core :=
    startsStatement_of_mem hline (hn ▸ List.mem_singleton_self n) (by rw [hk]; decide)
  cases hc : cs.head? with
  | none =>
    obtain rfl := List.head?_eq_none_iff.1 hc
    exact absurd rfl hstarts.ne_nil
  | some c =>
    have hnodes := nodesAfter_line hline hstarts
    rw [Text.splitTrim_of_head? hc (hhead c hc), hn] at hnodes
    obtain ⟨k, -, hkind⟩ := List.mem_map.1 (kind?_read (Text.trimEnd cs))
    obtain ⟨m, hm, hmk⟩ := Piece.exists_node hkind.symm []
    obtain rfl : n = m := List.singleton_inj.1 (hnodes.trans hm)
    refine ⟨_, Statement.assignment?_of_kind? ?_, hm⟩
    rw [← hkind, ← hmk, hk]

theorem not_mem_of_assignment? {cs : List Char} {s : Statement} (h : assignment? cs = some s)
    (hline : '\n' ∉ cs) : '\n' ∉ s.piece.text := by
  have htext := ((spells_assignment? h) [] rfl).1.eq_append
  rw [List.append_nil, List.append_nil] at htext
  intro hm
  rw [htext, Piece.textAll, Piece.textAll, List.append_nil] at hline
  exact hline (List.mem_append_left _ hm)

/-- A line of `export`, a blank and the start of a name is no task header, since that would go on
with a parenthesis. -/
theorem taskHeader_export {c : Char} (hc : startsName c = true) (rest : List Char) :
    TaskHeader.read? ("export ".toList ++ c :: rest) = none := by
  have hwords : taskWords ("export ".toList ++ c :: rest)
      = ⟨false, [], "export ".toList ++ c :: rest⟩ := by
    have hnone : taskKeyword? ("export ".toList ++ c :: rest) = none := rfl
    rw [taskWords]
    split
    · rename_i heq
      rw [hnone] at heq
      cases heq
    · rfl
  have hname : Cut.span isTaskNameChar ("export ".toList ++ c :: rest)
      = ⟨"export".toList, ' ' :: c :: rest⟩ := rfl
  have hblank : ¬isInlineBlank c = true := by
    intro h
    exact absurd (isBlank_of_isInlineBlank h) (by simp [isBlank_of_startsName hc])
  have hgap : inlineBlanks (' ' :: c :: rest) = ⟨[' '], c :: rest⟩ := by
    rw [inlineBlanks, Cut.span, List.takeWhile_cons_of_pos (by decide),
      List.dropWhile_cons_of_pos (by decide), List.takeWhile_cons_of_neg hblank,
      List.dropWhile_cons_of_neg hblank]
  have hmark : mark? '(' (c :: rest) = none := by
    refine if_neg ?_
    rintro rfl
    exact absurd hc (by decide)
  rw [TaskHeader.read?, hwords]
  dsimp only
  rw [hname, if_neg (by simp)]
  dsimp only
  rw [hgap, hmark, Option.bind_none]

theorem startsStatement_export {c : Char} (hc : startsName c = true) (rest : List Char) :
    StartsStatement ("export ".toList ++ c :: rest) where
  ne_nil := by simp
  not_comment := by simp
  not_task := taskHeader_export hc rest
  not_definition := rfl

/-- With `export` in front, the line of an assignment is read as an export. -/
theorem nodesAfter_exportLine {cs : List Char} {s : Statement} (hline : '\n' ∉ cs)
    (h : assignment? (Text.trimEnd cs) = some s) :
    nodesAfter [] (read ("export ".toList ++ cs)) = nodesAfter [] [(Statement.readExport
      ("export ".toList ++ Text.trimEnd cs) (' ' :: Text.trimEnd cs)).piece] := by
  obtain ⟨c, rest, hcons, hc⟩ := exists_cons_of_assignment? h
  have hcore : Text.trimEnd ("export ".toList ++ cs) = "export ".toList ++ Text.trimEnd cs :=
    Text.trimEnd_append _ (by rw [hcons]; exact List.cons_ne_nil c rest)
  have htrim : Text.splitTrim ("export ".toList ++ cs)
      = ⟨[], "export ".toList ++ Text.trimEnd cs, Text.trailing ("export ".toList ++ cs)⟩ := by
    have hhead : ("export ".toList ++ cs).head? = some 'e' := rfl
    rw [Text.splitTrim_of_head? hhead (by decide), hcore]
  have hstarts : StartsStatement (Text.splitTrim ("export ".toList ++ cs)).core := by
    rw [htrim, hcons]
    exact startsStatement_export hc rest
  have hnewline : '\n' ∉ "export ".toList ++ cs := by simpa using hline
  rw [nodesAfter_line hnewline hstarts, htrim]
  rfl

end Grammar

/-- An export has two kinds more than the statement. -/
theorem Node.kinds_exported (n : Node) :
    n.exported.sketch.kinds = .exportStatement :: .keyword :: n.sketch.kinds := by
  rw [exported, sketch, sketchAll, sketchAll, sketchAll, sketch_right, Sketch.kinds, Sketch.kindsAll,
    Sketch.kindsAll_singleton]
  rfl

theorem Node.child?_eq_none_iff {k j : Kind} {inside : List Piece} {n : Node}
    (hn : Piece.nodesAfter [] [.group k inside] = [n]) :
    n.child? j = none ↔ j ∉ Piece.kinds inside := by
  obtain rfl : Node.branch k (Cursor.start.rangeTo (Piece.locateAll .start inside).stop)
      (Piece.locateAll .start inside).nodes = n := List.singleton_inj.1 hn
  have hkinds : (Piece.locateAll .start inside).nodes.map Node.kind = Piece.kinds inside :=
    Piece.map_kind_nodes [] inside
  rw [← hkinds, child?, List.find?_eq_none, List.mem_map]
  simp [children]

/-- With `export` in front, the line of an assignment is an export of the assignment or, where it has a
flag, an error. -/
theorem statements_export {limit : Nat} {s : String} {u : Tree} {n : Node} (hline : '\n' ∉ s.toList)
    (hhead : ∀ c, s.toList.head? = some c → isBlank c = false)
    (hn : Piece.nodesAfter [] (Grammar.read s.toList) = [n]) (hk : n.kind = .variableAssignment)
    (hu : parse limit ("export " ++ s) = .ok u) :
    (n.child? .variableFlag = none ∧ u.statements = [n.exported]) ∨
      (n.child? .variableFlag ≠ none ∧ ∃ e, u.statements = [e] ∧ e.kind = .error) := by
  obtain ⟨st, hst, hnode⟩ := Grammar.exists_assignment_of_line hline hhead hn hk
  obtain ⟨inside, hpiece, hflag⟩ := Grammar.exists_inside hst
  have hstatements := statements_of_parse hu
  rw [String.toList_append, Grammar.nodesAfter_exportLine hline hst,
    Grammar.Statement.readExport_eq _ hst] at hstatements
  rw [hpiece] at hnode
  rw [ne_eq, Node.child?_eq_none_iff hnode, hflag]
  by_cases hf : Grammar.HasFlag (Text.trimEnd s.toList)
  · rw [if_pos hf] at hstatements
    exact .inr ⟨not_not_intro hf, _, hstatements, rfl⟩
  · have htext := Grammar.not_mem_of_assignment? hst
      (fun hm => hline (Text.trimEnd_append_trailing s.toList ▸ List.mem_append_left _ hm))
    rw [if_neg hf, hpiece] at hstatements
    rw [hpiece] at htext
    exact .inl ⟨hf, hstatements.trans (Piece.nodesAfter_export htext hnode)⟩

/-- With `export` in front, a line that is an assignment without an error is the export of that
assignment, and declares the same name, if and only if the assignment has no flag. With a flag the line
is an error. -/
theorem parse_export {limit : Nat} {s : String} {t : Tree} {n : Node} (hline : '\n' ∉ s.toList)
    (hhead : ∀ c, s.toList.head? = some c → isBlank c = false) (h : parse limit s = .ok t)
    (hn : t.statements = [n]) (hk : n.kind = .variableAssignment) (he : t.errors = [])
    (hsize : bytes s.toList + 7 ≤ limit) :
    ∃ u, parse limit ("export " ++ s) = .ok u ∧
      (u.statements = [n.exported] ∧ u.errors = [] ∧
          n.exported.declaredName? = n.declaredName?.map (fun d => (d.1.right 7, d.2))
        ↔ n.child? .variableFlag = none) ∧
      (n.child? .variableFlag ≠ none → ∃ e, u.statements = [e] ∧ e.kind = .error) := by
  have hbytes : bytes ("export " ++ s).toList ≤ limit := by
    rw [String.toList_append, Text.bytes_append]
    have : bytes "export ".toList = 7 := by decide
    omega
  have hu := parse_eq_ok hbytes
  rw [statements_of_parse h] at hn
  refine ⟨_, hu, ?_⟩
  rcases statements_export hline hhead hn hk hu with ⟨hflag, hstatements⟩ | ⟨hflag, e, hstatements, hek⟩
  · refine ⟨iff_of_true ⟨hstatements, (errors_eq_nil_iff hu).2 ?_, Node.declaredName?_exported hk⟩
      hflag, fun hne => absurd hflag hne⟩
    have herror := (errors_eq_nil_iff h).1 he
    rw [statements_of_parse h, hn, List.map_singleton, Sketch.kindsAll_singleton] at herror
    rw [hstatements, List.map_singleton, Sketch.kindsAll_singleton, Node.kinds_exported]
    simp [herror]
  · refine ⟨iff_of_false ?_ hflag, fun _ => ⟨e, hstatements, hek⟩⟩
    rintro ⟨hexported, -⟩
    rw [hexported, List.singleton_inj] at hstatements
    rw [← hstatements] at hek
    cases hek

/-- An assignment with an override and an expansion in its name, and a blank at its end. -/
def overridden : String :=
  "$\x7bA\x7d-b:c ??= 'x' "

theorem parse_export_overridden :
    ∃ t n u, parse 64 overridden = .ok t ∧ t.statements = [n] ∧ n.kind = .variableAssignment ∧
      t.errors = [] ∧ n.child? .variableFlag = none ∧ parse 64 ("export " ++ overridden) = .ok u ∧
      u.statements = [n.exported] ∧ u.errors = [] := by
  have ht := parse_eq_ok (show bytes overridden.toList ≤ 64 by decide)
  generalize htree : ({ source := overridden, root? := some (rootNode overridden.toList) } : Tree) = t
    at ht
  have hkinds : t.statements.map (fun n => (n.kind, (n.child? .variableFlag).isNone))
      = [(.variableAssignment, true)] := by
    rw [← htree]
    decide +kernel
  have herrors : t.errors = [] := by
    rw [← htree]
    exact List.isEmpty_iff.1 (by decide +kernel)
  obtain ⟨n, hn, hk⟩ := List.map_eq_singleton_iff.1 hkinds
  obtain ⟨hkind, hflag⟩ := Prod.mk.inj hk
  rw [Option.isNone_iff_eq_none] at hflag
  have hhead : ∀ c, overridden.toList.head? = some c → isBlank c = false := by
    rintro c hc
    cases hc
    decide
  obtain ⟨u, hu, hiff, -⟩ := parse_export (by decide) hhead ht hn hkind herrors (by decide)
  obtain ⟨hstatements, hnone, -⟩ := hiff.2 hflag
  exact ⟨t, n, u, ht, hn, hkind, herrors, hflag, hu, hstatements, hnone⟩

/-- An assignment to a flag. -/
def flagged : String :=
  "A[doc] = \"x\""

/-- An assignment to a flag is refused after `export`. -/
theorem export_flag_refused :
    ∃ t u, parse 64 flagged = .ok t ∧ t.statements.map Node.kind = [.variableAssignment] ∧
      t.errors = [] ∧ parse 64 ("export " ++ flagged) = .ok u ∧
      u.statements.map (fun e => (e.kind, e.text?)) = [(.error, some ("export " ++ flagged))] := by
  refine ⟨_, _, parse_eq_ok (by decide), ?_, ?_, parse_eq_ok (by decide), ?_⟩
  · decide +kernel
  · exact List.isEmpty_iff.1 (by decide +kernel)
  · decide +kernel

end Recipe
