import Recipe.Proofs.Grammar.Continuation
import Recipe.Proofs.Grammar.Task

/-!
# Names of declarations

The names of assignments, tasks and definitions have backslashes in brace groups only (`BracedName`), other
than the names in directives and expansions. Each reader of a statement that declares a name says so of its
pieces, and `declares_block` of all that begins on a line.
-/

namespace Recipe

open Piece (kind?)

namespace Grammar

theorem Braced.getLast?_ne {cs : List Char} (h : Braced cs) : cs.getLast? ≠ some '\\' := by
  intro hlast
  obtain ⟨a, rfl⟩ := List.getLast?_eq_some_iff.1 hlast
  obtain ⟨-, -, v, back, -, hnil, -⟩ := h a [] rfl
  simp at hnil

/-- A piece is no name, or one in which backslashes stand in brace groups only. -/
def BracedName (p : Piece) : Prop :=
  kind? p = some .identifier → ∃ t, p = .token .identifier t ∧ Braced t

theorem bracedName_tokens {k : Kind} {cs : List Char} (h : Braced cs) :
    ∀ p ∈ Piece.tokens k cs, BracedName p := by
  unfold Piece.tokens
  split
  · exact List.forall_mem_nil _
  · refine List.forall_mem_singleton.2 fun hp => ?_
    obtain rfl : k = .identifier := Option.some.inj hp
    exact ⟨cs, rfl, h⟩

/-- The kinds of statements that declare the name they begin with. -/
def namedKinds : List Kind :=
  [.variableAssignment, .functionDefinition, .pythonFunctionDefinition, .pythonDefinition]

/-- The names in a piece that declares one are braced. -/
def Named (p : Piece) : Prop :=
  ∀ k ps, p = .group k ps → k ∈ namedKinds → ∀ q ∈ ps, BracedName q

/-- The names in a piece that declares one are braced, and so are those in the pieces that it
exports. -/
structure Declares (p : Piece) : Prop where
  named : Named p
  exported : ∀ ps, p = .group .exportStatement ps → ∀ q ∈ ps, Named q

theorem named_of_kind? {p : Piece} {k : Option Kind} (h : kind? p = k) (hk : k ∉ namedKinds.map some) :
    Named p := by
  rintro j ps rfl hj
  exact absurd (h ▸ List.mem_map_of_mem hj) hk

theorem named_group {k : Kind} {ps : List Piece} (h : ∀ q ∈ ps, BracedName q) : Named (.group k ps) := by
  rintro j qs hp -
  cases hp
  exact h

theorem declares_of_kind? {p : Piece} {ks : List (Option Kind)} (h : kind? p ∈ ks)
    (hks : ∀ k ∈ ks, k ∉ namedKinds.map some ∧ k ≠ some .exportStatement) : Declares p := by
  obtain ⟨hnamed, hexport⟩ := hks _ h
  refine ⟨named_of_kind? rfl hnamed, ?_⟩
  rintro ps rfl
  exact absurd rfl hexport

theorem declares_of_named {p : Piece} (h : Named p) (hp : kind? p ≠ some .exportStatement) : Declares p := by
  refine ⟨h, ?_⟩
  rintro ps rfl
  exact absurd rfl hp

theorem named_close {k : Kind} {parts : List Piece} (h : ∀ q ∈ parts, BracedName q) (last : Cut) :
    Named (Statement.close k parts last).piece := by
  unfold Statement.close
  split
  · exact named_group h
  · refine named_group (List.forall_mem_append.2 ⟨h, ?_⟩)
    simp [BracedName, kind?]

theorem bracedName_optionalFlag {cs : List Char} {flag : Parts} (h : optionalFlag cs = some flag) :
    ∀ q ∈ flag.pieces, BracedName q := by
  unfold optionalFlag flag? at h
  split at h
  · split at h
    · dsimp only at h
      split at h
      · cases h
        simp [BracedName, kind?]
      · cases h
    · cases h
  · cases h
    exact List.forall_mem_nil _

theorem bracedName_target? {cs : List Char} {target : Parts} (h : target? cs = some target) :
    ∀ q ∈ target.pieces, BracedName q := by
  unfold target? at h
  dsimp only at h
  split at h
  · cases h
  · obtain ⟨flag, hflag, rfl⟩ := Option.map_eq_some_iff.1 h
    refine List.forall_mem_cons.2 ⟨fun _ => ⟨_, rfl, braced_baseName cs⟩, ?_⟩
    refine List.forall_mem_append.2 ⟨fun q hq => ?_, bracedName_optionalFlag hflag⟩
    obtain ⟨name, -, rfl⟩ := List.mem_map.1 hq
    simp [BracedName, overridePiece, kind?]

theorem named_assignment? {cs : List Char} {s : Statement} (h : assignment? cs = some s) :
    Named s.piece := by
  obtain ⟨target, htarget, h⟩ := Option.bind_eq_some_iff.1 h
  obtain ⟨op, -, rfl⟩ := Option.map_eq_some_iff.1 h
  have hbefore : ∀ q ∈ target.pieces ++ [Piece.gap (spacing target.rest).front], BracedName q :=
    List.forall_mem_append.2 ⟨bracedName_target? htarget, by simp [BracedName, kind?]⟩
  unfold assigned
  dsimp only
  split
  · exact named_group (List.forall_mem_append.2 ⟨hbefore, by simp [BracedName, kind?]⟩)
  · have hfront := List.forall_mem_append.2 ⟨hbefore, (by simp [BracedName, kind?] :
      ∀ q ∈ [Piece.token .operator op.front, .gap (spacing op.rest).front], BracedName q)⟩
    split
    · refine named_close (List.forall_mem_append.2 ⟨hfront, ?_⟩) _
      simp [BracedName, Value.piece, kind?]
    · exact named_group (List.forall_mem_append.2 ⟨hfront, by simp [BracedName, kind?]⟩)

theorem declares_readAssignment (cs : List Char) : Declares (Statement.readAssignment cs).piece := by
  unfold Statement.readAssignment
  cases h : assignment? cs with
  | none => exact declares_of_kind? (List.mem_singleton_self (some Kind.error)) (by decide)
  | some s => exact declares_of_named (named_assignment? h) (by simp [kind?_assignment? h])

theorem declares_readExport (cs rest : List Char) : Declares (Statement.readExport cs rest).piece := by
  refine ⟨?_, fun ps hp => ?_⟩
  · exact named_of_kind? rfl
      ((by decide : ∀ k ∈ [some Kind.error, some .exportStatement], k ∉ namedKinds.map some) _
        (kind?_readExport cs rest))
  · unfold Statement.readExport at hp
    dsimp only at hp
    split at hp
    · cases hp
    split at hp
    · split at hp
      · rename_i s hs
        cases hp
        simpa [named_of_kind?, Named] using named_assignment? hs
      · cases hp
    split at hp
    · cases hp
      simp [Named]
    · cases hp

theorem declares_read (cs : List Char) : Declares (Statement.read cs).piece := by
  unfold Statement.read
  split
  · exact declares_readExport ..
  split
  · exact declares_of_kind? (kind?_directive ..) (by decide)
  split
  · rename_i d rest hd
    split
    · exact declares_readAssignment cs
    · have hk : ∀ d ∈ Directive.table, ∀ k ∈ [some Kind.error, some d.kind],
          k ∉ namedKinds.map some ∧ k ≠ some .exportStatement := by decide
      obtain ⟨e, he, hr⟩ := List.exists_of_findSome?_eq_some hd
      obtain ⟨_, -, hde⟩ := Option.map_eq_some_iff.1 hr
      cases hde
      exact declares_of_kind? (kind?_directive ..) (hk d he)
  · exact declares_readAssignment cs

theorem bracedName_taskHeader {cs : List Char} {h : TaskHeader} (hh : TaskHeader.read? cs = some h) :
    ∀ q ∈ h.front, BracedName q := by
  have hmark : ∀ {c : Char} {cs : List Char} {ps : Parts}, mark? c cs = some ps →
      ∀ q ∈ ps.pieces, BracedName q := by
    intro c cs ps h
    unfold mark? at h
    split at h
    · split at h
      · cases h
        simp [BracedName, Piece.mark, kind?]
      · cases h
    · cases h
  have hwords : ∀ cs, ∀ q ∈ (taskWords cs).pieces, BracedName q := by
    intro cs
    fun_induction taskWords cs with
    | case1 cs w rest _ _ ih =>
      simp only [TaskWords.push, List.cons_append, List.nil_append, List.forall_mem_cons]
      exact ⟨by simp [BracedName, kind?], by simp [BracedName, kind?], ih⟩
    | case2 => exact List.forall_mem_nil _
  unfold TaskHeader.read? at hh
  dsimp only at hh
  split at hh
  · cases hh
  obtain ⟨opening, ho, hh⟩ := Option.bind_eq_some_iff.1 hh
  obtain ⟨closing, hc, hh⟩ := Option.bind_eq_some_iff.1 hh
  split at hh
  · cases hh
    have hname : Braced (Cut.span isTaskNameChar (taskWords cs).rest).front :=
      braced_of_not_mem fun hmem => absurd (List.all_eq_true.1 List.all_takeWhile _ hmem) (by decide)
    simp only [List.forall_mem_append]
    exact ⟨⟨⟨⟨hwords cs, bracedName_tokens hname⟩, by simp [BracedName, kind?]⟩, hmark ho⟩, hmark hc⟩
  · cases hh

theorem bracedName_content {k : Kind} (hk : k ≠ .identifier) (cs : List Char) :
    ∀ q ∈ (content k cs).1, BracedName q := by
  unfold content
  dsimp only
  split
  · exact List.forall_mem_nil _
  · simp [BracedName, kind?, hk]

theorem declares_taskBlock {cs : List Char} {h : TaskHeader} (hh : TaskHeader.read? cs = some h)
    (t : Text.Trimmed) (ending : List Char) (ls : List Line) :
    ∀ p ∈ (taskBlock h t ending ls).pieces, Declares p := by
  have hgap : ∀ g, Declares (.gap g) := fun g =>
    declares_of_kind? (List.mem_singleton_self none) (by decide)
  have hgroup : ∀ ps, (∀ q ∈ ps, BracedName q) → Declares (.group h.kind ps) := by
    intro ps hps
    refine declares_of_named (named_group hps) ?_
    unfold TaskHeader.kind
    split <;> simp [kind?]
  have hcontent : h.contentKind ≠ .identifier := by
    unfold TaskHeader.contentKind
    split <;> decide
  have hfront := bracedName_taskHeader hh
  unfold taskBlock
  dsimp only
  split
  · refine List.forall_mem_cons.2 ⟨hgap _, List.forall_mem_cons.2 ⟨hgroup _ ?_, by simpa using hgap _⟩⟩
    simp only [List.forall_mem_append]
    exact ⟨⟨⟨hfront, by simp [BracedName, Piece.mark, kind?]⟩, bracedName_content hcontent _⟩,
      by simp [BracedName, Piece.mark, kind?]⟩
  · refine List.forall_mem_cons.2 ⟨hgap _, List.forall_mem_cons.2 ⟨hgroup _ ?_, by simpa using hgap _⟩⟩
    simp only [List.forall_mem_append]
    exact ⟨⟨hfront, by simp [BracedName, kind?]⟩, bracedName_content hcontent _⟩

theorem bracedName_definitionHeader {cs : List Char} {header : List Piece}
    (hh : definitionHeader? cs = some header) : ∀ q ∈ header, BracedName q := by
  obtain ⟨rest, -, hh⟩ := Option.bind_eq_some_iff.1 hh
  dsimp only at hh
  split at hh
  · cases hh
    have hname : Braced (Cut.span isDefinitionNameChar (inlineBlanks rest).rest).front :=
      braced_of_not_mem fun hmem => absurd (List.all_eq_true.1 List.all_takeWhile _ hmem) (by decide)
    simpa [BracedName, Piece.mark, kind?] using hname
  · cases hh

/-- The names that the statements of a block declare are braced. -/
theorem declares_block (l : Line) (ls : List Line) : ∀ p ∈ (block l ls).pieces, Declares p := by
  have hgap : ∀ g, Declares (.gap g) := fun g =>
    declares_of_kind? (List.mem_singleton_self none) (by decide)
  unfold block
  dsimp only
  split
  · simpa using hgap _
  split
  · have hcomment : Declares (.token .comment (Text.splitTrim l.body).core) :=
      declares_of_kind? (List.mem_singleton_self (some Kind.comment)) (by decide)
    simpa using ⟨hgap _, hcomment, hgap _⟩
  split
  · rename_i h hh
    exact declares_taskBlock hh _ _ _
  split
  · rename_i header hh
    have hdefinition : ∀ cs, Declares (.group .pythonDefinition (header ++ (content .pythonContent cs).1)) :=
      fun cs => declares_of_named (named_group (List.forall_mem_append.2
        ⟨bracedName_definitionHeader hh, bracedName_content (by decide) cs⟩)) (by simp [kind?])
    simpa [definitionBlock] using ⟨hgap _, hdefinition _, hgap _⟩
  · simpa [statementBlock] using ⟨hgap _, declares_read _, hgap _⟩

end Grammar

end Recipe
