import Recipe.Grammar.Block
import Recipe.Proofs.Grammar.Task

/-!
# Where inline code stands

Inline code is an expansion whose inside begins with an at sign, and nothing else: no reader of
statements gives a piece of this kind but through `expansionPiece` (`inlines_read`). In particular
inline code has no inline code inside it.
-/

namespace Recipe.Grammar

/-- The piece of inline code. -/
def inlinePiece (code : List Char) : Piece :=
  expansionPiece ('@' :: code)

/-- Inline code stands among pieces, at any depth, only as an expansion. -/
inductive Inlines : List Piece → Prop where
  | nil : Inlines []
  | token {k : Kind} {t : List Char} {ps : List Piece} :
    k ≠ .inlinePython → Inlines ps → Inlines (.token k t :: ps)
  | gap {g : List Char} {ps : List Piece} : Inlines ps → Inlines (.gap g :: ps)
  | group {k : Kind} {inside ps : List Piece} :
    k ≠ .inlinePython → Inlines inside → Inlines ps → Inlines (.group k inside :: ps)
  | inline {code : List Char} {ps : List Piece} : Inlines ps → Inlines (inlinePiece code :: ps)

namespace Inlines

theorem append {ps qs : List Piece} (hp : Inlines ps) (hq : Inlines qs) : Inlines (ps ++ qs) := by
  induction hp with
  | nil => exact hq
  | token hk _ ih => exact .token hk ih
  | gap _ ih => exact .gap ih
  | group hk hi _ _ ih => exact .group hk hi ih
  | inline _ ih => exact .inline ih

theorem flatMap {α : Type} {f : α → List Piece} (h : ∀ x, Inlines (f x)) (xs : List α) :
    Inlines (xs.flatMap f) := by
  induction xs with
  | nil => exact .nil
  | cons x xs ih => exact (h x).append ih

theorem map {α : Type} {f : α → Piece} (h : ∀ x, Inlines [f x]) (xs : List α) :
    Inlines (xs.map f) :=
  List.map_eq_flatMap ▸ flatMap h xs

theorem single_token {k : Kind} (hk : k ≠ .inlinePython) (t : List Char) : Inlines [.token k t] :=
  .token hk .nil

theorem mark (c : Char) : Inlines [Piece.mark c] :=
  single_token (by decide) [c]

theorem tokens {k : Kind} (hk : k ≠ .inlinePython) (t : List Char) : Inlines (Piece.tokens k t) := by
  unfold Piece.tokens
  split
  · exact .nil
  · exact single_token hk t

end Inlines

/-! ## Assignments -/

theorem inlines_expansionPiece (inside : List Char) : Inlines [expansionPiece inside] := by
  unfold expansionPiece
  split
  · exact .inline .nil
  · refine .group (by decide) ?_ .nil
    exact .token (by decide) ((Inlines.tokens (by decide) inside).append (.mark '}'))

theorem inlines_valuePiece (quote : Char) (v : Value) : Inlines [v.piece quote] := by
  have hsegment : ∀ s : Segment, Inlines [s.piece] := by
    intro s
    cases s with
    | plain t => exact .token (by decide) .nil
    | expansion inside => exact inlines_expansionPiece inside
  exact .group (by decide) (.token (by decide) ((Inlines.map hsegment _).append (.mark quote))) .nil

theorem inlines_optionalFlag {cs : List Char} {flag : Parts} (h : optionalFlag cs = some flag) :
    Inlines flag.pieces := by
  unfold optionalFlag flag? at h
  split at h
  · split at h
    · dsimp only at h
      split at h
      · cases h
        refine .group (by decide) ?_ .nil
        exact .token (by decide) ((Inlines.tokens (by decide) _).append (.mark ']'))
      · cases h
    · cases h
  · cases h
    exact .nil

theorem inlines_target? {cs : List Char} {target : Parts} (h : target? cs = some target) :
    Inlines target.pieces := by
  unfold target? at h
  dsimp only at h
  split at h
  · cases h
  · obtain ⟨flag, hf, rfl⟩ := Option.map_eq_some_iff.1 h
    have hoverride : ∀ name, Inlines [overridePiece name] := fun name =>
      .group (by decide) (.token (by decide) (.token (by decide) .nil)) .nil
    exact .token (by decide) ((Inlines.map hoverride _).append (inlines_optionalFlag hf))

theorem inlines_close {k : Kind} (hk : k ≠ .inlinePython) {parts : List Piece} (hp : Inlines parts)
    (last : Cut) : Inlines [(Statement.close k parts last).piece] := by
  unfold Statement.close
  split
  · exact .group hk hp .nil
  · exact .group hk (hp.append (.gap (.token (by decide) .nil))) .nil

theorem inlines_assigned {before : List Piece} (hb : Inlines before) (op : Cut) :
    Inlines [(assigned before op).piece] := by
  have hfront : ∀ gap, Inlines (before ++ [.token .operator op.front, .gap gap]) := fun gap =>
    hb.append (.token (by decide) (.gap .nil))
  unfold assigned
  dsimp only
  split
  · exact .group (by decide) (hb.append (.token (by decide) .nil)) .nil
  · split
    · exact inlines_close (by decide) ((hfront _).append (inlines_valuePiece _ _)) _
    · exact .group (by decide) ((hfront _).append (.token (by decide) .nil)) .nil

theorem inlines_refused (cs : List Char) : Inlines [(Statement.refused cs).piece] :=
  .token (by decide) .nil

theorem inlines_assignment? {cs : List Char} {s : Statement} (h : assignment? cs = some s) :
    Inlines [s.piece] := by
  obtain ⟨target, ht, h⟩ := Option.bind_eq_some_iff.1 h
  obtain ⟨op, -, rfl⟩ := Option.map_eq_some_iff.1 h
  exact inlines_assigned ((inlines_target? ht).append (.gap .nil)) op

theorem inlines_readAssignment (cs : List Char) : Inlines [(Statement.readAssignment cs).piece] := by
  unfold Statement.readAssignment
  cases h : assignment? cs with
  | none => exact inlines_refused cs
  | some s => exact inlines_assignment? h

/-! ## Exports and directives -/

theorem inlines_readExport (cs rest : List Char) :
    Inlines [(Statement.readExport cs rest).piece] := by
  unfold Statement.readExport
  dsimp only
  split
  · exact inlines_refused cs
  split
  · split
    · rename_i s hs
      exact .group (by decide) (.token (by decide) (.gap (inlines_assignment? hs))) .nil
    · exact inlines_refused cs
  split
  · exact .group (by decide) (.token (by decide) (.gap (.token (by decide) .nil))) .nil
  · exact inlines_refused cs

theorem inlines_word {k : Kind} (hk : k ≠ .inlinePython) (w : SpacedWord) : Inlines (w.pieces k) :=
  .gap (.token hk .nil)

theorem inlines_taskPieces (ws : List SpacedWord) : Inlines (taskPieces ws) := by
  have hclause : ∀ w, clauseKind w ≠ .inlinePython := by
    intro w
    unfold clauseKind
    split <;> decide
  cases ws with
  | nil => exact .nil
  | cons w ws => exact (inlines_word (by decide) w).append (.flatMap (fun v => inlines_word (hclause v) v) ws)

section Directive

variable {d : Directive} (hd : d.kind ≠ .inlinePython)

include hd

theorem inlines_ofWords (cs : List Char) (ws : Words) {pieces : List Piece} (hp : Inlines pieces) :
    Inlines [(d.ofWords cs ws pieces).piece] := by
  unfold Directive.ofWords
  split
  · exact inlines_refused cs
  · exact inlines_close hd (.token (by decide) hp) _

theorem inlines_readPath (cs rest : List Char) : Inlines [(d.readPath cs rest).piece] := by
  unfold Directive.readPath
  dsimp only
  split
  · exact inlines_refused cs
  · exact .group hd (.token (by decide) (.gap (.token (by decide) .nil))) .nil

theorem inlines_readVariableFlag (cs rest : List Char) :
    Inlines [(d.readVariableFlag cs rest).piece] := by
  unfold Directive.readVariableFlag
  dsimp only
  split
  · exact inlines_refused cs
  split
  · rename_i flag hf
    refine inlines_close hd (Inlines.append ?_ (inlines_optionalFlag hf)) _
    exact .token (by decide) (.gap (.token (by decide) .nil))
  · exact inlines_refused cs

theorem inlines_directive (cs rest : List Char) : Inlines [(d.read cs rest).piece] := by
  unfold Directive.read
  split
  · exact inlines_readPath hd cs rest
  · exact inlines_readVariableFlag hd cs rest
  · exact inlines_ofWords hd cs _ (.flatMap (inlines_word (by decide)) _)
  · exact inlines_ofWords hd cs _ (.flatMap (inlines_word (by decide)) _)
  · exact inlines_ofWords hd cs _ (inlines_taskPieces _)

end Directive

/-- Every statement has inline code in expansions only. -/
theorem inlines_read (cs : List Char) : Inlines [(Statement.read cs).piece] := by
  unfold Statement.read
  split
  · exact inlines_readExport ..
  split
  · exact inlines_directive (by decide) ..
  split
  · rename_i d rest hd
    split
    · exact inlines_readAssignment cs
    · have hk : ∀ d ∈ Directive.table, d.kind ≠ .inlinePython := by decide
      obtain ⟨e, he, hr⟩ := List.exists_of_findSome?_eq_some hd
      obtain ⟨_, _, hde⟩ := Option.map_eq_some_iff.1 hr
      cases hde
      exact inlines_directive (hk d he) ..
  · exact inlines_readAssignment cs

end Recipe.Grammar
