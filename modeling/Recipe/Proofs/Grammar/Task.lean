import Recipe.Grammar.Block
import Recipe.Proofs.Text.Blank

/-!
# Bodies of python tasks

A python task has its body as one token without blanks at its end (`solidTask_read`): its header
has no content, only tasks have the kind of a python task (`kind?_read`), and the body is trimmed.
-/

namespace Recipe

/-- The kind of the node that a piece becomes. -/
def Piece.kind? : Piece → Option Kind
  | token k _ => some k
  | gap _ => none
  | group k _ => some k

/-- Whether a text ends with a character that is not blank. -/
def Text.EndsSolid (cs : List Char) : Prop :=
  ∃ c, cs.getLast? = some c ∧ isBlank c = false

namespace Grammar

open Piece (kind?)

/-! ## Statements -/

theorem kind?_close (k : Kind) (parts : List Piece) (last : Cut) :
    kind? (Statement.close k parts last).piece = some k := by
  unfold Statement.close
  split
  · rfl
  · rfl

theorem kind?_assigned (before : List Piece) (op : Cut) :
    kind? (assigned before op).piece = some .variableAssignment := by
  unfold assigned
  dsimp only
  split
  · rfl
  · split
    · exact kind?_close ..
    · rfl

theorem kind?_assignment? {cs : List Char} {s : Statement} (h : assignment? cs = some s) :
    kind? s.piece = some .variableAssignment := by
  obtain ⟨target, -, h⟩ := Option.bind_eq_some_iff.1 h
  obtain ⟨op, -, rfl⟩ := Option.map_eq_some_iff.1 h
  exact kind?_assigned ..

theorem kind?_readAssignment (cs : List Char) :
    kind? (Statement.readAssignment cs).piece ∈ [some .error, some .variableAssignment] := by
  unfold Statement.readAssignment
  cases h : assignment? cs with
  | none => exact List.mem_cons_self
  | some s => simp [kind?_assignment? h]

theorem kind?_readExport (cs rest : List Char) :
    kind? (Statement.readExport cs rest).piece ∈ [some .error, some .exportStatement] := by
  unfold Statement.readExport
  dsimp only
  split
  · exact List.mem_cons_self
  split
  · split
    · exact List.mem_cons_of_mem _ List.mem_cons_self
    · exact List.mem_cons_self
  split
  · exact List.mem_cons_of_mem _ List.mem_cons_self
  · exact List.mem_cons_self

theorem kind?_ofWords (d : Directive) (cs : List Char) (ws : Words) (pieces : List Piece) :
    kind? (d.ofWords cs ws pieces).piece ∈ [some .error, some d.kind] := by
  unfold Directive.ofWords
  split
  · exact List.mem_cons_self
  · simp [kind?_close]

theorem kind?_directive (d : Directive) (cs rest : List Char) :
    kind? (d.read cs rest).piece ∈ [some .error, some d.kind] := by
  unfold Directive.read
  split
  · unfold Directive.readPath
    dsimp only
    split
    · exact List.mem_cons_self
    · exact List.mem_cons_of_mem _ List.mem_cons_self
  · unfold Directive.readVariableFlag
    dsimp only
    split
    · exact List.mem_cons_self
    split
    · simp [kind?_close]
    · exact List.mem_cons_self
  · exact kind?_ofWords ..
  · exact kind?_ofWords ..
  · exact kind?_ofWords ..

/-- The kinds of statements: those of directives, exports and assignments, and errors. -/
def statementKinds : List Kind :=
  [.error, .variableAssignment, .exportStatement, Directive.exportFunctions.kind]
    ++ Directive.table.map (·.kind)

theorem kind?_read (cs : List Char) :
    kind? (Statement.read cs).piece ∈ statementKinds.map some := by
  unfold Statement.read
  split
  · exact (by decide : [some Kind.error, some .exportStatement] ⊆ statementKinds.map some)
      (kind?_readExport ..)
  have hassign := (by decide : [some Kind.error, some .variableAssignment] ⊆ statementKinds.map some)
    (kind?_readAssignment cs)
  split
  · exact (by decide : [some Kind.error, some Directive.exportFunctions.kind] ⊆
      statementKinds.map some) (kind?_directive ..)
  split
  · rename_i d rest hd
    split
    · exact hassign
    · have hk : ∀ d ∈ Directive.table, [some Kind.error, some d.kind] ⊆ statementKinds.map some := by
        decide
      obtain ⟨e, he, hr⟩ := List.exists_of_findSome?_eq_some hd
      obtain ⟨_, _, hde⟩ := Option.map_eq_some_iff.1 hr
      cases hde
      exact hk d he (kind?_directive ..)
  · exact hassign

/-! ## Tasks -/

/-- A piece is no python content, or a token that does not end with a blank. -/
def SolidContent (p : Piece) : Prop :=
  kind? p = some .pythonContent → ∃ t, p = .token .pythonContent t ∧ Text.EndsSolid t

/-- A piece is no python task, or one whose content does not end with a blank. -/
def SolidTask (p : Piece) : Prop :=
  ∀ parts, p = .group .pythonFunctionDefinition parts → ∀ q ∈ parts, SolidContent q

theorem solidTask_of_kind? {p : Piece} (h : kind? p ≠ some .pythonFunctionDefinition) :
    SolidTask p := by
  rintro parts rfl
  exact absurd rfl h

theorem solidTask_group {k : Kind} {ps : List Piece} (h : ∀ q ∈ ps, SolidContent q) :
    SolidTask (.group k ps) := by
  intro parts hp
  obtain ⟨-, rfl⟩ := Piece.group.inj hp
  exact h

/-- The kinds of what stands in the header of a task. -/
def headerKinds : List (Option Kind) :=
  [none, some .keyword, some .identifier, some .punctuation]

theorem kind?_taskWords (cs : List Char) : ∀ q ∈ (taskWords cs).pieces, kind? q ∈ headerKinds := by
  fun_induction taskWords cs with
  | case1 cs w rest h _ ih =>
    intro q hq
    simp only [TaskWords.push, List.cons_append, List.nil_append, List.mem_cons] at hq
    rcases hq with rfl | rfl | hq
    · simp [kind?, headerKinds]
    · simp [kind?, headerKinds]
    · exact ih q hq
  | case2 cs h => exact fun q hq => nomatch hq

theorem kind?_mark? {c : Char} {cs : List Char} {ps : Parts} (h : mark? c cs = some ps) :
    ∀ q ∈ ps.pieces, kind? q ∈ headerKinds := by
  unfold mark? at h
  split at h
  · split at h
    · cases h
      simp [kind?, Piece.mark, headerKinds]
    · cases h
  · cases h

/-- The pieces of a task header are of the kinds in `headerKinds`, none of which is a content. -/
theorem kind?_taskHeader {cs : List Char} {h : TaskHeader} (hh : TaskHeader.read? cs = some h) :
    ∀ q ∈ h.front, kind? q ∈ headerKinds := by
  unfold TaskHeader.read? at hh
  dsimp only at hh
  split at hh
  · cases hh
  obtain ⟨opening, ho, hh⟩ := Option.bind_eq_some_iff.1 hh
  obtain ⟨closing, hc, hh⟩ := Option.bind_eq_some_iff.1 hh
  split at hh
  · cases hh
    intro q hq
    simp only [List.mem_append, List.mem_singleton] at hq
    rcases hq with (((hq | hq) | rfl) | hq) | hq
    · exact kind?_taskWords cs q hq
    · unfold Piece.tokens at hq
      split at hq
      · cases hq
      · rw [List.mem_singleton.1 hq]
        simp [kind?, headerKinds]
    · simp [kind?, headerKinds]
    · exact kind?_mark? ho q hq
    · exact kind?_mark? hc q hq
  · cases hh

theorem solidContent_content (k : Kind) (cs : List Char) :
    ∀ q ∈ (content k cs).1, SolidContent q := by
  unfold content
  dsimp only
  split
  · exact fun q hq => nomatch hq
  · rename_i hc
    have hne : (Text.splitTrim cs).core ≠ [] := by simpa using hc
    have hl := List.getLast?_eq_some_getLast hne
    intro q hq hk
    rcases List.mem_cons.1 hq with rfl | hq
    · cases hk
    · rw [List.mem_singleton.1 hq] at hk ⊢
      cases hk
      exact ⟨_, rfl, _, hl, Text.getLast?_core hl⟩

theorem solidTask_taskBlock {cs : List Char} {h : TaskHeader} (hh : TaskHeader.read? cs = some h)
    (t : Text.Trimmed) (ending : List Char) (ls : List Line) :
    ∀ p ∈ (taskBlock h t ending ls).pieces, SolidTask p := by
  have hother : ∀ q, kind? q ≠ some .pythonContent → SolidContent q := fun q hq hk => absurd hk hq
  have hfront : ∀ q ∈ h.front, SolidContent q := fun q hq =>
    hother q (ne_of_mem_of_not_mem (kind?_taskHeader hh q hq) (by decide))
  have hgap : ∀ g, SolidTask (.gap g) := fun g => solidTask_of_kind? (by simp [kind?])
  unfold taskBlock
  dsimp only
  split
  · refine List.forall_mem_cons.2 ⟨hgap _, List.forall_mem_cons.2 ⟨?_, ?_⟩⟩
    · refine solidTask_group ?_
      simp only [List.forall_mem_append]
      exact ⟨⟨⟨hfront, by simp [SolidContent, kind?, Piece.mark]⟩, solidContent_content _ _⟩,
        by simp [SolidContent, kind?, Piece.mark]⟩
    · simpa using hgap _
  · refine List.forall_mem_cons.2 ⟨hgap _, List.forall_mem_cons.2 ⟨?_, ?_⟩⟩
    · refine solidTask_group ?_
      simp only [List.forall_mem_append]
      exact ⟨⟨hfront, by simp [SolidContent, kind?]⟩, solidContent_content _ _⟩
    · simpa using hgap _

theorem solidTask_block (l : Line) (ls : List Line) :
    ∀ p ∈ (block l ls).pieces, SolidTask p := by
  unfold block
  dsimp only
  split
  · exact List.forall_mem_singleton.2 (solidTask_of_kind? (by simp [kind?]))
  split
  · intro p hp
    simp only [List.mem_cons, List.not_mem_nil, or_false] at hp
    rcases hp with rfl | rfl | rfl <;> exact solidTask_of_kind? (by simp [kind?])
  split
  · rename_i hh
    exact solidTask_taskBlock hh _ _ _
  split
  · intro p hp
    simp only [definitionBlock, List.mem_cons, List.not_mem_nil, or_false] at hp
    rcases hp with rfl | rfl | rfl <;> exact solidTask_of_kind? (by simp [kind?])
  · intro p hp
    simp only [statementBlock, List.mem_cons, List.not_mem_nil, or_false] at hp
    rcases hp with rfl | rfl | rfl
    · exact solidTask_of_kind? (by simp [kind?])
    · have hs : some Kind.pythonFunctionDefinition ∉ statementKinds.map some := by decide
      exact solidTask_of_kind? fun hk => hs (hk ▸ kind?_read _)
    · exact solidTask_of_kind? (by simp [kind?])

theorem solidTask_document (ls : List Line) : ∀ p ∈ document ls, SolidTask p := by
  fun_induction document ls with
  | case1 => exact fun p hp => nomatch hp
  | case2 l ls _ ih => exact List.forall_mem_append.2 ⟨solidTask_block l ls, ih⟩

/-- No python task of a recipe ends its content with a blank. -/
theorem solidTask_read {cs : List Char} {p : Piece} (h : p ∈ read cs) : SolidTask p :=
  solidTask_document _ p h

end Grammar

end Recipe
