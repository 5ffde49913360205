import Recipe.Proofs.Grammar.Content
import Recipe.Proofs.Grammar.Keyword
import Recipe.Proofs.Grammar.Written

/-!
# Exports of assignments

An export looks for the operator of an assignment after a name with its overrides, where an assignment
also takes a flag. So an assignment can be exported if and only if what it assigns to has no flag
(`Statement.readExport_eq`).
-/

namespace Recipe.Grammar

/-- Whether a bracket follows the name at the beginning of a text and its overrides. -/
def HasFlag (cs : List Char) : Prop :=
  (overrides (baseName cs).rest).2.head? = some '['

instance (cs : List Char) : Decidable (HasFlag cs) :=
  inferInstanceAs (Decidable (_ = _))

/-! ## What an assignment is made of -/

theorem kinds_flag? {cs : List Char} {flag : Parts} (h : flag? cs = some flag) :
    Piece.kinds flag.pieces = [.variableFlag] := by
  unfold flag? at h
  split at h
  · dsimp only at h
    split at h
    · cases h
      rfl
    · cases h
  · cases h

theorem kinds_overrides (names : List (List Char)) :
    Piece.kinds (names.map overridePiece) = names.map fun _ => .override :=
  Piece.kinds_map (fun _ => rfl) names

/-- What is assigned to begins with a name, and there is a flag in it where a bracket follows. -/
theorem of_target? {cs : List Char} {target : Parts} (h : target? cs = some target) :
    (baseName cs).front ≠ [] ∧ (.variableFlag ∈ Piece.kinds target.pieces ↔ HasFlag cs) ∧
      (¬HasFlag cs → target.rest = (overrides (baseName cs).rest).2) := by
  unfold target? at h
  dsimp only at h
  split at h
  · cases h
  rename_i hne
  obtain ⟨flag, hflag, rfl⟩ := Option.map_eq_some_iff.1 h
  have hkinds : Kind.variableFlag ∈ Piece.kinds (.token .identifier (baseName cs).front
      :: (overrides (baseName cs).rest).1.map overridePiece ++ flag.pieces)
      ↔ .variableFlag ∈ Piece.kinds flag.pieces := by
    simp [kinds_overrides]
  refine ⟨by simpa using hne, hkinds.trans ?_, fun hnot => ?_⟩
  · unfold optionalFlag at hflag
    unfold HasFlag
    split at hflag
    · rename_i hb
      simp [kinds_flag? hflag, hb]
    · rename_i hb
      cases hflag
      simp [hb]
  · unfold HasFlag at hnot
    rw [optionalFlag, if_neg hnot] at hflag
    cases hflag
    rfl

theorem exists_assigned (before : List Piece) (op : Cut) :
    ∃ tail, (assigned before op).piece = .group .variableAssignment (before ++ tail) ∧
      .variableFlag ∉ Piece.kinds tail := by
  unfold assigned
  dsimp only
  split
  · exact ⟨_, rfl, by simp⟩
  · split
    · rename_i v _
      unfold Statement.close
      split
      · exact ⟨_, by rw [List.append_assoc], by simp [Value.piece]⟩
      · exact ⟨_, by rw [List.append_assoc, List.append_assoc], by simp [Value.piece]⟩
    · exact ⟨_, by rw [List.append_assoc], by simp⟩

/-- An assignment has a flag among its parts where a bracket follows its name. -/
theorem exists_inside {cs : List Char} {s : Statement} (h : assignment? cs = some s) :
    ∃ inside, s.piece = .group .variableAssignment inside ∧
      (.variableFlag ∈ Piece.kinds inside ↔ HasFlag cs) := by
  obtain ⟨target, htarget, h⟩ := Option.bind_eq_some_iff.1 h
  obtain ⟨op, -, rfl⟩ := Option.map_eq_some_iff.1 h
  obtain ⟨tail, hpiece, htail⟩ :=
    exists_assigned (target.pieces ++ [.gap (spacing target.rest).front]) op
  refine ⟨_, hpiece, ?_⟩
  rw [← (of_target? htarget).2.1]
  simp [htail]

/-! ## Where an assignment begins -/

theorem startsName_of_baseName {c : Char} {rest : List Char} (h : (baseName (c :: rest)).front ≠ []) :
    startsName c = true := by
  by_contra hc
  rw [startsName, Bool.or_eq_true, beq_iff_eq, not_or, Bool.not_eq_true] at hc
  rw [baseName_of_stops hc.1 fun hd => absurd hd hc.2] at h
  exact h rfl

theorem exists_cons_of_assignment? {cs : List Char} {s : Statement} (h : assignment? cs = some s) :
    ∃ c rest, cs = c :: rest ∧ startsName c = true := by
  obtain ⟨target, htarget, -⟩ := Option.bind_eq_some_iff.1 h
  obtain ⟨hne, -⟩ := of_target? htarget
  cases cs with
  | nil =>
    rw [baseName] at hne
    exact absurd rfl hne
  | cons c rest => exact ⟨c, rest, rfl, startsName_of_baseName hne⟩

theorem startsSpacing_of_startsName {c : Char} (h : startsName c = true) (cs : List Char) :
    startsSpacing (c :: cs) = false := by
  refine Written.startsSpacing_cons ?_ ?_ cs
  · by_contra hs
    rw [Bool.not_eq_false] at hs
    exact absurd (isBlank_of_isSpacingChar hs) (by simp [isBlank_of_startsName h])
  · rintro rfl
    exact absurd h (by decide)

namespace Statement

theorem assignment?_of_readAssignment {cs : List Char}
    (h : Piece.kind? (readAssignment cs).piece = some .variableAssignment) :
    assignment? cs = some (readAssignment cs) := by
  unfold readAssignment at h ⊢
  cases hs : assignment? cs with
  | none =>
    rw [hs] at h
    cases h
  | some s => rfl

/-- If the statement read from `cs` is of the kind of assignments, then `assignment?` reads it from
`cs`. -/
theorem assignment?_of_kind? {cs : List Char}
    (h : Piece.kind? (read cs).piece = some .variableAssignment) :
    assignment? cs = some (read cs) := by
  unfold read at h ⊢
  split at h
  · exact absurd h (kind?_readExport_ne _ _)
  split at h
  · exact absurd h (kind?_directive_ne List.mem_cons_self _ _)
  split at h
  · rename_i d rest hfind
    split at h
    · rename_i hop
      rw [if_pos hop]
      exact assignment?_of_readAssignment h
    · obtain ⟨e, he, hr⟩ := List.exists_of_findSome?_eq_some hfind
      obtain ⟨_, _, hde⟩ := Option.map_eq_some_iff.1 hr
      cases hde
      exact absurd h (kind?_directive_ne (List.mem_cons_of_mem _ he) _ _)
  · exact assignment?_of_readAssignment h

/-- An assignment after `export` is read as one if it has no flag. Otherwise the line is refused. -/
theorem readExport_eq (cs : List Char) {core : List Char} {s : Statement}
    (h : assignment? core = some s) :
    readExport cs (' ' :: core) = if HasFlag core then refused cs
      else ⟨.group .exportStatement [.token .keyword "export".toList, .gap [' '], s.piece],
        s.after⟩ := by
  obtain ⟨c, rest, hcons, hc⟩ := exists_cons_of_assignment? h
  have hgap : spacing (' ' :: core) = ⟨[' '], core⟩ :=
    Written.spacing_append (show [' '].all isInlineBlank = true by decide)
      (hcons ▸ startsSpacing_of_startsName hc rest)
  obtain ⟨target, htarget, hop⟩ := Option.bind_eq_some_iff.1 h
  obtain ⟨op, hop, -⟩ := Option.map_eq_some_iff.1 hop
  obtain ⟨hname, -, hrest⟩ := of_target? htarget
  have hfront : (fullName core).front ≠ [] := by simp [fullName, hname]
  have hfull : (fullName core).rest = (overrides (baseName core).rest).2 := rfl
  rw [readExport, hgap]
  dsimp only
  rw [if_neg (by simpa using hfront), hfull]
  by_cases hflag : HasFlag core
  · obtain ⟨after, hafter⟩ := List.head?_eq_some_iff.1 hflag
    have hspacing : startsSpacing ('[' :: after) = false :=
      Written.startsSpacing_cons (by decide) (by decide) after
    rw [if_pos hflag, hafter, Written.spacing_of_not_startsSpacing hspacing]
    rfl
  · rw [if_neg hflag, ← hrest hflag, hop, if_pos Option.isSome_some, h]
    rfl

end Statement

end Recipe.Grammar
