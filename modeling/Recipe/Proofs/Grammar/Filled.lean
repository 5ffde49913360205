import Recipe.Proofs.Grammar.Block
import Recipe.Proofs.Grammar.Written

/-!
# Tokens without text

A name ends before an operator that begins with a character of names (`nameOperators`), while an override
is expected after a colon before any such character. So a colon right before one of these operators
begins an override without a name, and this is the only token that a reader leaves empty: `Filled` says
so of pieces, one lemma for each reader says that its pieces are filled, and `filled_read` that those of
a whole text are.
-/

namespace Recipe

open Piece (textAll)

namespace Grammar

/-! ## Operators that end a name -/

/-- The operators that begin with a character of names. -/
def nameOperators : List String :=
  [".=", "+="]

/-- The text begins with an operator that begins with a character of names. -/
def StartsNameOperator (cs : List Char) : Prop :=
  ∃ op ∈ nameOperators, op.toList <+: cs

theorem startsNameOperator_cons {c : Char} {cs : List Char} :
    StartsNameOperator (c :: cs) ↔ beginsOperator c cs = true := by
  constructor
  · rintro ⟨op, hop, rest, hrest⟩
    simp only [nameOperators, List.mem_cons, List.not_mem_nil, or_false] at hop
    rcases hop with rfl | rfl <;> (cases hrest; rfl)
  · intro h
    rw [beginsOperator, Bool.and_eq_true, Bool.or_eq_true, beq_iff_eq, beq_iff_eq, beq_iff_eq] at h
    obtain ⟨hc, hcs⟩ := h
    obtain ⟨rest, rfl⟩ := List.head?_eq_some_iff.1 hcs
    rcases hc with rfl | rfl
    · exact ⟨".=", by decide, rest, rfl⟩
    · exact ⟨"+=", by decide, rest, rfl⟩

/-- If `u ++ v` starts with one of the operators `.=` and `+=`, so does `u`, if it has the two
characters of an operator. -/
theorem StartsNameOperator.of_append {u v : List Char} (h : StartsNameOperator (u ++ v))
    (hu : 2 ≤ u.length) : StartsNameOperator u := by
  obtain ⟨op, hop, hprefix⟩ := h
  have hlength : ∀ op ∈ nameOperators, op.toList.length = 2 := by decide
  refine ⟨op, hop, List.prefix_of_prefix_length_le hprefix (List.prefix_append u v) ?_⟩
  rw [hlength op hop]
  exact hu

theorem StartsNameOperator.mono {u v : List Char} (h : StartsNameOperator u) (hv : u <+: v) :
    StartsNameOperator v := by
  obtain ⟨op, hop, hprefix⟩ := h
  exact ⟨op, hop, hprefix.trans hv⟩

theorem not_startsNameOperator_of_baseName {cs : List Char} (h : (baseName cs).front ≠ []) :
    ¬StartsNameOperator cs := by
  cases cs with
  | nil =>
    rw [baseName] at h
    exact absurd rfl h
  | cons c cs =>
    rw [startsNameOperator_cons]
    intro hop
    rw [baseName, if_pos hop] at h
    exact h rfl

/-- A character that may begin a name begins none only if it begins an operator or is a dollar sign
without a brace group. -/
theorem startsNameOperator_of_baseName {c : Char} {cs : List Char} (hc : startsName c = true)
    (h : (baseName (c :: cs)).front = []) : StartsNameOperator (c :: cs) ∨ c = '$' := by
  rw [startsNameOperator_cons]
  by_contra hnot
  rw [not_or] at hnot
  rw [startsName, Bool.or_eq_true, beq_iff_eq] at hc
  rw [baseName, if_neg hnot.1, if_pos (hc.resolve_right hnot.2)] at h
  exact List.cons_ne_nil c _ h

end Grammar

open Grammar (StartsNameOperator nameOperators overridePiece)

/-! ## Filled pieces -/

namespace Piece

/-- At any depth, tokens of a group of some kind have text. The one exception is the name of an override
right before an operator, in an assignment; where an override has a name, no such operator stands. -/
inductive Filled : Kind → List Piece → Prop where
  | nil {k : Kind} : Filled k []
  | token {k j : Kind} {t : List Char} {ps : List Piece} :
    t ≠ [] → Filled k ps → Filled k (.token j t :: ps)
  | gap {k : Kind} {g : List Char} {ps : List Piece} : Filled k ps → Filled k (.gap g :: ps)
  | group {k j : Kind} {inside ps : List Piece} :
    j ≠ .override → Filled j inside → Filled k ps → Filled k (.group j inside :: ps)
  | override {k : Kind} {name : List Char} {ps : List Piece} :
    name ≠ [] → (∀ post, ¬StartsNameOperator (name ++ (textAll ps ++ post))) → Filled k ps →
      Filled k (overridePiece name :: ps)
  | bare {j : Kind} {op : String} {ps : List Piece} :
    op ∈ nameOperators → Filled .variableAssignment ps →
      Filled .variableAssignment (overridePiece [] :: .gap [] :: .token j op.toList :: ps)

namespace Filled

variable {k : Kind}

theorem append {ps qs : List Piece} (hp : Filled k ps) (hq : Filled k qs) : Filled k (ps ++ qs) := by
  induction hp with
  | nil => exact hq
  | token ht _ ih => exact .token ht (ih hq)
  | gap _ ih => exact .gap (ih hq)
  | group hj hi _ _ ih => exact .group hj hi (ih hq)
  | override hn hnot _ ih =>
    rw [List.cons_append]
    refine .override hn (fun post => ?_) (ih hq)
    rw [textAll_append, List.append_assoc]
    exact hnot _
  | bare hop _ ih => exact .bare hop (ih hq)

theorem flatMap {α : Type} {f : α → List Piece} {xs : List α} (h : ∀ x ∈ xs, Filled k (f x)) :
    Filled k (xs.flatMap f) := by
  induction xs with
  | nil => exact .nil
  | cons x xs ih =>
    obtain ⟨hx, hxs⟩ := List.forall_mem_cons.1 h
    exact hx.append (ih hxs)

theorem mark (c : Char) : Filled k [Piece.mark c] :=
  .token (List.cons_ne_nil c []) .nil

theorem tokens (j : Kind) (cs : List Char) : Filled k (Piece.tokens j cs) := by
  unfold Piece.tokens
  split
  · exact .nil
  · rename_i hne
    exact .token (by simpa using hne) .nil

end Filled

end Piece

namespace Grammar

open Piece (Filled)
open Written (spacing_of_not_startsSpacing startsSpacing_cons)

variable {k : Kind}

/-! ## Assignments -/

/-- A group is filled that holds an opening token, the text `cs` as one token unless it is empty,
and a closing mark. -/
theorem filled_between {j content : Kind} {opening : List Char} (c : Char) (hj : j ≠ .override)
    (ho : opening ≠ []) (cs : List Char) :
    Filled k [.group j (.token .punctuation opening :: Piece.tokens content cs ++ [Piece.mark c])] :=
  .group hj (.token ho ((Filled.tokens content cs).append (.mark c))) .nil

theorem filled_expansionPiece (inside : List Char) : Filled k [expansionPiece inside] := by
  unfold expansionPiece
  split
  · exact filled_between '}' (by decide) (List.cons_ne_nil _ _) _
  · exact filled_between '}' (by decide) (List.cons_ne_nil _ _) _

/-- Plain text of a value is not empty. -/
def Segment.HasText : Segment → Prop
  | plain t => t ≠ []
  | expansion _ => True

theorem filled_segment {s : Segment} (h : s.HasText) : Filled k [s.piece] := by
  cases s with
  | plain t => exact .token h .nil
  | expansion inside => exact filled_expansionPiece inside

theorem hasText_addPlain {v : Value} {cs : List Char} (hcs : cs ≠ [])
    (h : ∀ s ∈ v.segments, s.HasText) : ∀ s ∈ (v.addPlain cs).segments, s.HasText := by
  unfold Value.addPlain
  split
  · rename_i u ss hs
    rw [hs, List.forall_mem_cons] at h
    exact List.forall_mem_cons.2 ⟨List.append_ne_nil_of_left_ne_nil hcs u, h.2⟩
  · exact List.forall_mem_cons.2 ⟨hcs, h⟩

theorem hasText_of_read? {quote : Char} {cs : List Char} {v : Value}
    (h : Value.read? quote cs = some v) : ∀ s ∈ v.segments, s.HasText := by
  fun_induction Value.read? quote cs generalizing v with
  | case1 => cases h
  | case2 rest =>
    cases h
    exact List.forall_mem_nil _
  | case3 => cases h
  | case4 d rest _ ih =>
    obtain ⟨w, hw, rfl⟩ := Option.map_eq_some_iff.1 h
    exact hasText_addPlain (List.cons_ne_nil _ _) (ih hw)
  | case5 rest g hg _ _ _ ih =>
    obtain ⟨w, hw, rfl⟩ := Option.map_eq_some_iff.1 h
    exact List.forall_mem_cons.2 ⟨trivial, ih hw⟩
  | case6 rest _ _ _ ih =>
    obtain ⟨w, hw, rfl⟩ := Option.map_eq_some_iff.1 h
    exact hasText_addPlain (List.cons_ne_nil _ _) (ih hw)
  | case7 c rest _ _ _ ih =>
    obtain ⟨w, hw, rfl⟩ := Option.map_eq_some_iff.1 h
    exact hasText_addPlain (List.cons_ne_nil _ _) (ih hw)

theorem filled_valuePiece {quote : Char} {cs : List Char} {v : Value}
    (h : Value.read? quote cs = some v) : Filled k [v.piece quote] := by
  have hsegments : Filled .string (v.segments.map Segment.piece) := by
    rw [List.map_eq_flatMap]
    exact .flatMap fun s hs => filled_segment (hasText_of_read? h s hs)
  exact .group (by decide) (.token (List.cons_ne_nil _ _) (hsegments.append (.mark quote))) .nil

theorem filled_optionalFlag {cs : List Char} {flag : Parts} (h : optionalFlag cs = some flag) :
    Filled k flag.pieces := by
  unfold optionalFlag flag? at h
  split at h
  · split at h
    · dsimp only at h
      split at h
      · cases h
        exact filled_between ']' (by decide) (List.cons_ne_nil _ _) _
      · cases h
    · cases h
  · cases h
    exact .nil

/-- The pieces `ps` go on where the overrides of an assignment end, with `rest` as the text there. -/
structure FollowsOverrides (rest : List Char) (ps : List Piece) : Prop where
  filled : Filled .variableAssignment ps
  begins : ∃ u, u ≠ [] ∧ u <+: rest ∧ u <+: textAll ps
  head?_ne : rest.head? ≠ some '$'
  /-- An operator that ends a name stands right there. -/
  operator : StartsNameOperator rest → ∃ j, ∃ op ∈ nameOperators, ∃ qs,
    ps = .gap [] :: .token j op.toList :: qs ∧ Filled .variableAssignment qs

theorem textAll_overridePieces (names : List (List Char)) :
    textAll (names.map overridePiece) = names.flatMap (':' :: ·) := by
  have h := (reads_overridePieces names []).eq_append
  rw [List.append_nil, List.append_nil] at h
  exact h.symm

/-- An override is filled, or has no name and stands right before an operator. -/
theorem filled_override {d : Char} {ds rest : List Char} {names : List (List Char)} {ps : List Piece}
    (hd : startsName d = true) (hothers : overrides (baseName (d :: ds)).rest = (names, rest))
    (hps : FollowsOverrides rest ps)
    (hfilled : Filled .variableAssignment (names.map overridePiece ++ ps)) :
    Filled .variableAssignment
      (overridePiece (baseName (d :: ds)).front :: (names.map overridePiece ++ ps)) := by
  have hcut := front_append_baseName (d :: ds)
  by_cases hname : (baseName (d :: ds)).front = []
  · -- Without a name, no other override follows.
    rw [hname, List.nil_append] at hcut
    have hcolon : startsOverride (d :: ds) = false := by
      unfold startsOverride
      split
      · rename_i heq
        cases heq
        exact absurd hd (by decide)
      · rfl
    rw [hcut, overrides, if_neg (Bool.eq_false_iff.1 hcolon)] at hothers
    cases hothers
    have hop := (startsNameOperator_of_baseName hd hname).resolve_right
      fun heq => hps.head?_ne (congrArg some heq)
    obtain ⟨j, op, hmem, qs, rfl, hqs⟩ := hps.operator hop
    rw [hname]
    exact .bare hmem hqs
  · refine .override hname (fun post hop => ?_) hfilled
    obtain ⟨u, hu, ⟨v, hv⟩, ⟨w, hw⟩⟩ := hps.begins
    have hoverrides := append_overrides (baseName (d :: ds)).rest
    rw [hothers] at hoverrides
    generalize hfront : (baseName (d :: ds)).front ++ (names.flatMap (':' :: ·) ++ u) = front
    -- Up to the operator the pieces have the text that was read.
    have hsource : front ++ v = d :: ds := by
      rw [← hfront, List.append_assoc, List.append_assoc, hv, hoverrides, hcut]
    have hpieces : (baseName (d :: ds)).front ++ (textAll (names.map overridePiece ++ ps) ++ post)
        = front ++ (w ++ post) := by
      rw [Piece.textAll_append, textAll_overridePieces, ← hw, ← hfront]
      simp only [List.append_assoc]
    have hlength : 2 ≤ front.length := by
      have := List.length_pos_iff.2 hname
      have := List.length_pos_iff.2 hu
      rw [← hfront, List.length_append, List.length_append]
      omega
    rw [hpieces] at hop
    exact not_startsNameOperator_of_baseName hname ((hop.of_append hlength).mono ⟨v, hsource⟩)

theorem filled_overrides (cs : List Char) {ps : List Piece} (h : FollowsOverrides (overrides cs).2 ps) :
    Filled .variableAssignment ((overrides cs).1.map overridePiece ++ ps) := by
  fun_induction overrides cs with
  | case1 => exact h.filled
  | case2 c rest hstarts _ others ih =>
    unfold startsOverride at hstarts
    split at hstarts
    · rename_i heq
      cases heq
      exact filled_override hstarts rfl h (ih h)
    · cases hstarts
  | case3 => exact h.filled

theorem ne_nil_of_operator? {cs : List Char} {op : Cut} (h : operator? cs = some op) :
    op.front ≠ [] := by
  have hoperators : ∀ s ∈ operators, s.toList ≠ [] := by decide
  obtain ⟨s, hs, hop⟩ := List.exists_of_findSome?_eq_some h
  obtain ⟨rest, -, rfl⟩ := Option.map_eq_some_iff.1 hop
  exact hoperators s hs

/-- Where no flag begins and no spacing, an operator is found right after the overrides. -/
theorem eq_of_optionalFlag {c : Char} {cs : List Char} {flag : Parts}
    (h : optionalFlag (c :: cs) = some flag) (hb : c ≠ '[') (hs : startsSpacing (c :: cs) = false) :
    flag.pieces = [] ∧ spacing flag.rest = ⟨[], c :: cs⟩ := by
  rw [optionalFlag, if_neg (by simpa using hb)] at h
  cases h
  exact ⟨rfl, spacing_of_not_startsSpacing hs⟩

/-- An operator that begins with a character of names is the longest one in its place. -/
theorem exists_of_nameOperator {o : String} (ho : o ∈ nameOperators) :
    ∃ c, o.toList = [c, '='] ∧ c ≠ '[' ∧ (∀ cs, startsSpacing (c :: cs) = false) ∧
      ∀ cs, operator? (c :: '=' :: cs) = some ⟨o.toList, cs⟩ := by
  simp only [nameOperators, List.mem_cons, List.not_mem_nil, or_false] at ho
  rcases ho with rfl | rfl
  · exact ⟨'.', rfl, by decide, startsSpacing_cons rfl (by decide), fun _ => rfl⟩
  · exact ⟨'+', rfl, by decide, startsSpacing_cons rfl (by decide), fun _ => rfl⟩

theorem eq_of_nameOperator {o : String} (ho : o ∈ nameOperators) {cs : List Char} {flag : Parts}
    (hflag : optionalFlag (o.toList ++ cs) = some flag) {op : Cut}
    (hop : operator? (spacing flag.rest).rest = some op) :
    flag.pieces = [] ∧ (spacing flag.rest).front = [] ∧ op.front = o.toList := by
  obtain ⟨c, htext, hbracket, hspacing, hfound⟩ := exists_of_nameOperator ho
  rw [htext, List.cons_append, List.singleton_append] at hflag
  obtain ⟨hpieces, hnone⟩ := eq_of_optionalFlag hflag hbracket (hspacing _)
  rw [hnone] at hop ⊢
  obtain rfl := Option.some.inj ((hfound cs).symm.trans hop)
  exact ⟨hpieces, rfl, rfl⟩

/-- The flag, the gap and the operator token of an assignment go on where its overrides end, if the
pieces `ps` after them are filled. -/
theorem followsOverrides_operator {rest : List Char} {flag : Parts}
    (hflag : optionalFlag rest = some flag) {op : Cut}
    (hop : operator? (spacing flag.rest).rest = some op) (j : Kind) {ps : List Piece}
    (hps : Filled .variableAssignment ps) :
    FollowsOverrides rest
      (flag.pieces ++ .gap (spacing flag.rest).front :: .token j op.front :: ps) where
  filled := (filled_optionalFlag hflag).append (.gap (.token (ne_nil_of_operator? hop) hps))
  begins := by
    have hrest := (reads_optionalFlag hflag []).eq_append
    rw [List.append_nil, List.append_nil, ← front_append_spacing flag.rest,
      eq_append_of_operator? hop] at hrest
    refine ⟨textAll flag.pieces ++ ((spacing flag.rest).front ++ op.front), ?_, ⟨op.rest, ?_⟩,
      ⟨textAll ps, ?_⟩⟩
    · exact List.append_ne_nil_of_right_ne_nil _
        (List.append_ne_nil_of_right_ne_nil _ (ne_nil_of_operator? hop))
    · rw [hrest]
      simp only [List.append_assoc]
    · rw [Piece.textAll_append]
      simp only [textAll, Piece.text, List.append_assoc]
  head?_ne := by
    intro hhead
    obtain ⟨cs, rfl⟩ := List.head?_eq_some_iff.1 hhead
    rw [(eq_of_optionalFlag hflag (by decide) (startsSpacing_cons rfl (by decide) cs)).2] at hop
    cases hop
  operator := by
    rintro ⟨o, ho, cs, rfl⟩
    obtain ⟨hpieces, hfront, heq⟩ := eq_of_nameOperator ho hflag hop
    rw [hpieces, hfront, heq]
    exact ⟨j, o, ho, ps, rfl, hps⟩

/-- The pieces of a target, the gap after them and the operator token are filled, if the pieces `ps`
after the operator are. -/
theorem filled_target? {cs : List Char} {target : Parts} (h : target? cs = some target) {op : Cut}
    (hop : operator? (spacing target.rest).rest = some op) (j : Kind) {ps : List Piece}
    (hps : Filled .variableAssignment ps) :
    Filled .variableAssignment
      (target.pieces ++ .gap (spacing target.rest).front :: .token j op.front :: ps) := by
  unfold target? at h
  dsimp only at h
  split at h
  · cases h
  · rename_i hne
    obtain ⟨flag, hflag, rfl⟩ := Option.map_eq_some_iff.1 h
    have hfollows := followsOverrides_operator hflag hop j hps
    dsimp only
    rw [List.cons_append, List.cons_append, List.append_assoc]
    exact .token (by simpa using hne) (filled_overrides _ hfollows)

theorem filled_close {kind : Kind} (hk : kind ≠ .override) {parts : List Piece} (hp : Filled kind parts)
    (last : Cut) : Filled k [(Statement.close kind parts last).piece] := by
  unfold Statement.close
  split
  · exact .group hk hp .nil
  · rename_i hne
    exact .group hk (hp.append (.gap (.token (by simpa using hne) .nil))) .nil

theorem filled_assignment? {cs : List Char} {s : Statement} (h : assignment? cs = some s) :
    Filled k [s.piece] := by
  obtain ⟨target, htarget, h⟩ := Option.bind_eq_some_iff.1 h
  obtain ⟨op, hop, rfl⟩ := Option.map_eq_some_iff.1 h
  have hbefore (j : Kind) {ps : List Piece} (hps : Filled .variableAssignment ps) :=
    filled_target? htarget hop j hps
  unfold assigned
  dsimp only
  simp only [List.append_assoc, List.cons_append, List.nil_append]
  split
  · exact .group (by decide) (hbefore _ .nil) .nil
  · split
    · rename_i v hv
      split at hv
      · exact filled_close (by decide) (hbefore _ (.gap (filled_valuePiece hv))) _
      · cases hv
    · exact .group (by decide) (hbefore _ (.gap (.token (List.cons_ne_nil _ _) .nil))) .nil

theorem filled_refused {cs : List Char} (h : cs ≠ []) : Filled k [(Statement.refused cs).piece] :=
  .token h .nil

theorem filled_readAssignment {cs : List Char} (hcs : cs ≠ []) :
    Filled k [(Statement.readAssignment cs).piece] := by
  unfold Statement.readAssignment
  cases h : assignment? cs with
  | none => exact filled_refused hcs
  | some s => exact filled_assignment? h

/-! ## Exports and directives -/

theorem filled_readExport {cs : List Char} (hcs : cs ≠ []) (rest : List Char) :
    Filled k [(Statement.readExport cs rest).piece] := by
  have hkeyword : "export".toList ≠ [] := by decide
  unfold Statement.readExport
  dsimp only
  split
  · exact filled_refused hcs
  rename_i hname
  split
  · split
    · rename_i s hs
      exact .group (by decide) (.token hkeyword (.gap (filled_assignment? hs))) .nil
    · exact filled_refused hcs
  split
  · exact .group (by decide) (.token hkeyword (.gap (.token (by simpa using hname) .nil))) .nil
  · exact filled_refused hcs

theorem word_ne_nil_of_mem_words {cs : List Char} {w : SpacedWord} (h : w ∈ (words cs).words) :
    w.word ≠ [] := by
  fun_induction words cs with
  | case1 => cases h
  | case2 cs gap next hne _ others ih =>
    rcases List.mem_cons.1 h with rfl | h
    · exact hne
    · exact ih h

theorem filled_words (kindOf : SpacedWord → Kind) {ws : List SpacedWord} (h : ∀ w ∈ ws, w.word ≠ []) :
    Filled k (ws.flatMap fun w => w.pieces (kindOf w)) :=
  .flatMap fun w hw => .gap (.token (h w hw) .nil)

theorem filled_taskPieces {ws : List SpacedWord} (h : ∀ w ∈ ws, w.word ≠ []) :
    Filled k (taskPieces ws) := by
  cases ws with
  | nil => exact .nil
  | cons w ws =>
    obtain ⟨hw, hws⟩ := List.forall_mem_cons.1 h
    exact .gap (.token hw (filled_words clauseKind hws))

section Directive

variable {d : Directive} (hk : d.kind ≠ .override) (hw : d.word.toList ≠ []) {cs : List Char}
  (hcs : cs ≠ [])

include hk hw hcs

theorem filled_ofWords {pieces : List Piece} (hp : Filled d.kind pieces) (ws : Words) :
    Filled k [(d.ofWords cs ws pieces).piece] := by
  unfold Directive.ofWords
  split
  · exact filled_refused hcs
  · exact filled_close hk (.token hw hp) ws.last

theorem filled_readPath (rest : List Char) : Filled k [(d.readPath cs rest).piece] := by
  unfold Directive.readPath
  dsimp only
  split
  · exact filled_refused hcs
  · rename_i hcore
    exact .group hk (.token hw (.gap (.token (by simpa using hcore) .nil))) .nil

theorem filled_readVariableFlag (rest : List Char) :
    Filled k [(d.readVariableFlag cs rest).piece] := by
  unfold Directive.readVariableFlag
  dsimp only
  split
  · exact filled_refused hcs
  rename_i hname
  split
  · rename_i flag hflag
    refine filled_close hk (.token hw (.gap (.token (by simpa using hname) ?_))) _
    exact filled_optionalFlag hflag
  · exact filled_refused hcs

theorem filled_directive (rest : List Char) : Filled k [(d.read cs rest).piece] := by
  have hwords : ∀ w ∈ (words rest).words, w.word ≠ [] := fun _ => word_ne_nil_of_mem_words
  unfold Directive.read
  split
  · exact filled_readPath hk hw hcs rest
  · exact filled_readVariableFlag hk hw hcs rest
  · exact filled_ofWords hk hw hcs (filled_words (fun _ => .path) hwords) _
  · exact filled_ofWords hk hw hcs (filled_words (fun _ => .identifier) hwords) _
  · exact filled_ofWords hk hw hcs (filled_taskPieces hwords) _

end Directive

theorem filled_statement {cs : List Char} (hcs : cs ≠ []) : Filled k [(Statement.read cs).piece] := by
  have hdirective : ∀ d ∈ Directive.exportFunctions :: Directive.table, ∀ rest,
      Filled k [(d.read cs rest).piece] := by
    have htable : ∀ d ∈ Directive.exportFunctions :: Directive.table,
        d.kind ≠ .override ∧ d.word.toList ≠ [] := by decide
    intro d hd
    exact filled_directive (htable d hd).1 (htable d hd).2 hcs
  unfold Statement.read
  split
  · exact filled_readExport hcs _
  split
  · exact hdirective _ List.mem_cons_self _
  split
  · rename_i d rest hd
    split
    · exact filled_readAssignment hcs
    · obtain ⟨e, he, hr⟩ := List.exists_of_findSome?_eq_some hd
      obtain ⟨_, _, hde⟩ := Option.map_eq_some_iff.1 hr
      cases hde
      exact hdirective d (List.mem_cons_of_mem _ he) rest
  · exact filled_readAssignment hcs

/-! ## Tasks and definitions -/

theorem filled_taskWords (cs : List Char) : Filled k (taskWords cs).pieces := by
  fun_induction taskWords cs with
  | case1 cs w rest h _ ih =>
    refine .token ?_ (.gap ih)
    have hwords : ∀ w ∈ ["python", "fakeroot"], w.toList ≠ [] := by decide
    obtain ⟨v, hv, hr⟩ := List.exists_of_findSome?_eq_some h
    obtain ⟨_, _, heq⟩ := Option.map_eq_some_iff.1 hr
    cases heq
    exact hwords w hv
  | case2 => exact .nil

theorem filled_mark? {c : Char} {cs : List Char} {ps : Parts} (h : mark? c cs = some ps) :
    Filled k ps.pieces := by
  unfold mark? at h
  split at h
  · split at h
    · cases h
      exact .token (List.cons_ne_nil _ _) (.gap .nil)
    · cases h
  · cases h

theorem filled_taskHeader {cs : List Char} {h : TaskHeader} (hh : TaskHeader.read? cs = some h) :
    Filled k h.front := by
  unfold TaskHeader.read? at hh
  dsimp only at hh
  split at hh
  · cases hh
  obtain ⟨opening, ho, hh⟩ := Option.bind_eq_some_iff.1 hh
  obtain ⟨closing, hc, hh⟩ := Option.bind_eq_some_iff.1 hh
  split at hh
  · cases hh
    exact ((((filled_taskWords cs).append (.tokens _ _)).append (.gap .nil)).append
      (filled_mark? ho)).append (filled_mark? hc)
  · cases hh

theorem filled_content (j : Kind) (cs : List Char) : Filled k (content j cs).1 := by
  unfold content
  dsimp only
  split
  · exact .nil
  · rename_i hcore
    exact .gap (.token (by simpa using hcore) .nil)

theorem filled_taskBlock {cs : List Char} {h : TaskHeader} (hh : TaskHeader.read? cs = some h)
    (t : Text.Trimmed) (ending : List Char) (ls : List Line) :
    Filled k (taskBlock h t ending ls).pieces := by
  have hk : h.kind ≠ .override := by
    unfold TaskHeader.kind
    split <;> decide
  unfold taskBlock
  dsimp only
  generalize t.after ++ ending ++ Line.textAll (ls.takeWhile (!·.closesTask)) = inside
  have hbrace (j : Kind) :
      Filled h.kind (h.front ++ [.token j ['\x7b']] ++ (content h.contentKind inside).1) :=
    ((filled_taskHeader hh).append (.token (List.cons_ne_nil _ _) .nil)).append (filled_content _ _)
  split
  · exact .gap (.group hk ((hbrace .punctuation).append (.gap (.mark '\x7d'))) (.gap .nil))
  · exact .gap (.group hk (hbrace .error) (.gap .nil))

theorem filled_definitionBlock {cs : List Char} {header : List Piece}
    (hh : definitionHeader? cs = some header) (t : Text.Trimmed) (ending : List Char)
    (ls : List Line) : Filled k (definitionBlock header t ending ls).pieces := by
  obtain ⟨rest, -, hh⟩ := Option.bind_eq_some_iff.1 hh
  dsimp only at hh
  split at hh
  · rename_i hcond
    rw [Bool.and_eq_true, Bool.and_eq_true, decide_eq_true_eq, decide_eq_true_eq,
      Bool.not_eq_true'] at hcond
    obtain ⟨⟨hname, -⟩, hcore⟩ := hcond
    cases hh
    refine .gap (.group (by decide) (Filled.append ?_ (filled_content _ _)) (.gap .nil))
    refine .token (by decide) (.gap (.token ?_ (.gap (.token ?_ (.gap (.mark _))))))
    · rintro hnil
      rw [hnil] at hname
      cases hname
    · rintro hnil
      rw [hnil] at hcore
      cases hcore
  · cases hh

/-! ## The whole text -/

/-- A logical line that begins on a line which is not blank has text. -/
theorem text_logicalLine_ne_nil {l : Line} (h : l.isBlank = false) (ls : List Line) :
    (logicalLine l ls).text ≠ [] := by
  have htrim : Text.trimEnd l.body ≠ [] := by
    rw [Ne, Text.trimEnd_eq_nil, ← Line.isBlank, h]
    exact Bool.false_ne_true
  cases ls with
  | nil => exact htrim
  | cons m ls =>
    rw [logicalLine]
    split
    · refine List.append_ne_nil_of_left_ne_nil ?_ _
      rw [← trimEnd_append_ending]
      exact List.append_ne_nil_of_left_ne_nil htrim _
    · exact htrim

theorem filled_block (l : Line) (ls : List Line) : Filled k (block l ls).pieces := by
  unfold block
  dsimp only
  split
  · exact .gap .nil
  rename_i hcore
  split
  · exact .gap (.token (by simpa using hcore) (.gap .nil))
  split
  · rename_i hh
    exact filled_taskBlock hh _ _ _
  split
  · rename_i hh
    exact filled_definitionBlock hh _ _ _
  · refine .gap (Filled.append (filled_statement (text_logicalLine_ne_nil ?_ ls)) (.gap .nil))
    -- The first character of the core is not blank.
    have hne : (Text.splitTrim l.body).core ≠ [] := by simpa using hcore
    have hhead := List.head?_eq_some_head hne
    rw [Line.isBlank, List.all_append, Bool.and_eq_false_iff, List.all_eq_false]
    exact .inl ⟨_, List.mem_of_head? hhead, by simp [Text.head?_core hhead]⟩

theorem filled_document (ls : List Line) : Filled k (document ls) := by
  fun_induction document ls with
  | case1 => exact .nil
  | case2 l ls _ ih => exact (filled_block l ls).append ih

/-- The pieces of a text are filled. -/
theorem filled_read (cs : List Char) : Filled k (read cs) :=
  filled_document _

end Grammar

end Recipe
