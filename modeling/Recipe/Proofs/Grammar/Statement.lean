import Recipe.Grammar.Statement.Read
import Recipe.Proofs.Grammar.Reading

/-!
# What statements are read from

Each reader of a statement reads off the front of its text. `Spells s cs` says it of a statement:
its piece and the blanks after it are the logical line `cs`, wherever that line stands, as long as
its end is the end of a line. `spells_read` says it of every logical line, also of one that fits no
rule.
-/

namespace Recipe.Grammar

open Text (endsLine)

/-! ## Names -/

theorem append_overrides (cs : List Char) :
    (overrides cs).1.flatMap (':' :: ·) ++ (overrides cs).2 = cs := by
  fun_induction overrides cs with
  | case1 => rfl
  | case2 c rest h _ others ih =>
    have hc : c = ':' := by
      unfold startsOverride at h
      split at h
      · rename_i heq; cases heq; rfl
      · cases h
    simp only [List.flatMap_cons, List.cons_append, List.append_assoc]
    rw [ih, front_append_baseName, hc]
  | case3 => rfl

theorem front_append_fullName (cs : List Char) :
    (fullName cs).front ++ (fullName cs).rest = cs := by
  rw [fullName, List.append_assoc, append_overrides, front_append_baseName]

theorem reads_overridePieces (names : List (List Char)) (rest : List Char) :
    Reads (names.map overridePiece) (names.flatMap (':' :: ·) ++ rest) rest := by
  induction names with
  | nil => exact .nil rest
  | cons n names ih =>
    rw [List.flatMap_cons, List.append_assoc]
    refine .group ?_ ih
    exact (Reads.mark ':' _).append (Reads.single_token .identifier n _)

theorem reads_flag? {cs : List Char} {flag : Parts} (h : flag? cs = some flag) (post : List Char) :
    Reads flag.pieces (cs ++ post) (flag.rest ++ post) := by
  unfold flag? at h
  split at h
  · rename_i cs
    dsimp only at h
    split at h
    · rename_i rest hr
      cases h
      have hcs : cs = (Cut.span isFlagChar cs).front ++ ']' :: rest := by
        rw [← hr, front_append_span]
      refine Reads.single_group ?_
      have ht := Reads.tokens .identifier (Cut.span isFlagChar cs).front (']' :: (rest ++ post))
      rw [← List.cons_append, ← List.append_assoc, ← hcs] at ht
      exact ((Reads.mark '[' _).append ht).append (Reads.mark ']' _)
    · cases h
  · cases h

theorem reads_optionalFlag {cs : List Char} {flag : Parts} (h : optionalFlag cs = some flag)
    (post : List Char) : Reads flag.pieces (cs ++ post) (flag.rest ++ post) := by
  unfold optionalFlag at h
  split at h
  · exact reads_flag? h post
  · cases h
    exact .nil _

theorem reads_target? {cs : List Char} {target : Parts} (h : target? cs = some target)
    (post : List Char) : Reads target.pieces (cs ++ post) (target.rest ++ post) := by
  unfold target? at h
  dsimp only at h
  split at h
  · cases h
  · obtain ⟨flag, hf, rfl⟩ := Option.map_eq_some_iff.1 h
    have hn := Reads.single_token .identifier (baseName cs).front ((baseName cs).rest ++ post)
    rw [← List.append_assoc, front_append_baseName] at hn
    have ho := reads_overridePieces (overrides (baseName cs).rest).1
      ((overrides (baseName cs).rest).2 ++ post)
    rw [← List.append_assoc, append_overrides] at ho
    exact (hn.append ho).append (reads_optionalFlag hf post)

/-! ## Values -/

theorem reads_expansionPiece (inside rest : List Char) :
    Reads [expansionPiece inside] ('$' :: '{' :: inside ++ '}' :: rest) rest := by
  unfold expansionPiece
  split
  · rename_i code
    refine Reads.single_group ?_
    exact ((Reads.single_token .punctuation ['$', '{', '@'] _).append
      (Reads.tokens .pythonContent code _)).append (Reads.mark '}' rest)
  · refine Reads.single_group ?_
    exact ((Reads.single_token .punctuation ['$', '{'] _).append
      (Reads.tokens .identifier inside _)).append (Reads.mark '}' rest)

/-- Plain text in front of a value is read before it, whether or not it is joined with plain text
that follows. -/
theorem reads_addPlain {v : Value} {cs rest : List Char} (t : List Char)
    (h : Reads (v.segments.map Segment.piece) cs rest) :
    Reads ((v.addPlain t).segments.map Segment.piece) (t ++ cs) rest := by
  unfold Value.addPlain
  split
  · rename_i u ss hs
    rw [hs, List.map_cons, Segment.piece] at h
    cases h with
    | token h =>
      rw [← List.append_assoc]
      exact .token h
  · exact .token h

@[simp] theorem rest_addPlain (t : List Char) (v : Value) : (v.addPlain t).rest = v.rest := by
  unfold Value.addPlain
  split <;> rfl

theorem reads_value? {quote : Char} {cs : List Char} {v : Value} (h : Value.read? quote cs = some v)
    (post : List Char) :
    Reads (v.segments.map Segment.piece) (cs ++ post) (quote :: (v.rest ++ post)) := by
  fun_induction Value.read? quote cs generalizing v with
  | case1 => cases h
  | case2 rest =>
    cases h
    exact .nil _
  | case3 => cases h
  | case4 d rest _ ih =>
    obtain ⟨w, hw, rfl⟩ := Option.map_eq_some_iff.1 h
    rw [rest_addPlain]
    exact reads_addPlain ['\\', d] (ih hw)
  | case5 rest g hg _ _ _ ih =>
    obtain ⟨w, hw, rfl⟩ := Option.map_eq_some_iff.1 h
    have he := reads_expansionPiece g.front (g.rest ++ post)
    rw [eq_of_braceGroup hg]
    simp only [List.cons_append, List.append_assoc] at he ⊢
    exact he.append (ih hw)
  | case6 rest _ _ _ ih =>
    obtain ⟨w, hw, rfl⟩ := Option.map_eq_some_iff.1 h
    rw [rest_addPlain]
    exact reads_addPlain ['$'] (ih hw)
  | case7 c rest _ _ _ ih =>
    obtain ⟨w, hw, rfl⟩ := Option.map_eq_some_iff.1 h
    rw [rest_addPlain]
    exact reads_addPlain [c] (ih hw)

theorem reads_valuePiece {quote : Char} {cs : List Char} {v : Value}
    (h : Value.read? quote cs = some v) (post : List Char) :
    Reads [v.piece quote] (quote :: (cs ++ post)) (v.rest ++ post) :=
  Reads.single_group (((Reads.mark quote _).append (reads_value? h post)).append (Reads.mark quote _))

/-! ## Statements -/

/-- The statement is read from the logical line `cs`: its piece first, then the text after it, which
is skipped. -/
def Spells (s : Statement) (cs : List Char) : Prop :=
  ∀ post, endsLine post = true →
    Reads [s.piece] (cs ++ post) (s.after ++ post) ∧ Skips post s.after

theorem spells_refused (cs : List Char) : Spells (.refused cs) cs :=
  fun post _ => ⟨Reads.single_token .error cs post, trivial⟩

/-- Closing a statement reads what its parts leave: text to skip, and an error. -/
theorem spells_close {kind : Kind} {parts : List Piece} {last : Cut} {cs : List Char}
    (h : ∀ post, endsLine post = true →
      Reads parts (cs ++ post) (last.front ++ (last.rest ++ post)) ∧
        Skips (last.rest ++ post) last.front) :
    Spells (.close kind parts last) cs := by
  intro post hp
  obtain ⟨hr, hs⟩ := h post hp
  unfold Statement.close
  split
  · rename_i he
    rw [List.isEmpty_iff.1 he, List.nil_append] at hr hs
    exact ⟨Reads.single_group hr, hs⟩
  · refine ⟨Reads.single_group (hr.append ?_), trivial⟩
    exact .gap hs (Reads.single_token .error last.rest post)

/-- Pieces that read `cs` up to `rest` make a statement that spells `cs`, when it is closed after
the spacing of `rest`. -/
theorem spells_close_spacing {kind : Kind} {parts : List Piece} {cs rest : List Char}
    (h : ∀ post, endsLine post = true → Reads parts (cs ++ post) (rest ++ post)) :
    Spells (.close kind parts (spacing rest)) cs := by
  refine spells_close fun post hp => ⟨?_, skips_spacing rest hp⟩
  rw [← List.append_assoc, front_append_spacing]
  exact h post hp

theorem spells_assigned {before : List Piece} {cs : List Char} {op : Cut}
    (h : ∀ post, endsLine post = true → Reads before (cs ++ post) (op.front ++ (op.rest ++ post))) :
    Spells (assigned before op) cs := by
  -- The pieces up to the value, and what is left after the spacing before it.
  have hfront : ∀ post, endsLine post = true →
      Reads (before ++ [.token .operator op.front, .gap (spacing op.rest).front]) (cs ++ post)
        ((spacing op.rest).rest ++ post) := fun post hp =>
    (h post hp).append (.token (Reads.spacing op.rest hp))
  unfold assigned
  dsimp only
  split
  · rename_i hg
    intro post hp
    have hs := skips_spacing op.rest hp
    have hc := front_append_spacing op.rest
    rw [hg, List.nil_append] at hs
    rw [hg, List.append_nil] at hc
    refine ⟨Reads.single_group ?_, hs⟩
    show Reads _ _ ((spacing op.rest).front ++ post)
    rw [hc]
    exact (h post hp).append (Reads.single_token .error op.front (op.rest ++ post))
  · rename_i c rest hg
    rw [hg] at hfront
    split
    · rename_i v hv
      have hv' : Value.read? c rest = some v := by
        split at hv
        · exact hv
        · cases hv
      exact spells_close_spacing fun post hp => (hfront post hp).append (reads_valuePiece hv' post)
    · intro post hp
      refine ⟨Reads.single_group ((hfront post hp).append ?_), trivial⟩
      exact Reads.single_token .error (c :: rest) post

theorem spells_assignment? {cs : List Char} {s : Statement} (h : assignment? cs = some s) :
    Spells s cs := by
  obtain ⟨target, ht, h⟩ := Option.bind_eq_some_iff.1 h
  obtain ⟨op, ho, rfl⟩ := Option.map_eq_some_iff.1 h
  refine spells_assigned fun post hp => ?_
  rw [← List.append_assoc, ← eq_append_of_operator? ho]
  exact (reads_target? ht post).append (Reads.spacing target.rest hp)

theorem spells_readAssignment (cs : List Char) : Spells (.readAssignment cs) cs := by
  unfold Statement.readAssignment
  cases h : assignment? cs with
  | none => exact spells_refused cs
  | some s => exact spells_assignment? h

/-- A keyword at the front of `cs` is read as its token and the gap of the spacing after it. -/
theorem reads_keyword {w : String} {cs rest : List Char} (h : keyword? w cs = some rest)
    {post : List Char} (hp : endsLine post = true) :
    Reads [.token .keyword w.toList, .gap (spacing rest).front] (cs ++ post)
      ((spacing rest).rest ++ post) := by
  rw [eq_append_of_keyword? h, List.append_assoc]
  exact .token (Reads.spacing rest hp)

theorem spells_readExport {cs rest : List Char} (h : keyword? "export" cs = some rest) :
    Spells (.readExport cs rest) cs := by
  unfold Statement.readExport
  dsimp only
  split
  · exact spells_refused cs
  split
  · split
    · rename_i s hs
      intro post hp
      obtain ⟨hr, ha⟩ := spells_assignment? hs post hp
      exact ⟨Reads.single_group ((reads_keyword h hp).append hr), ha⟩
    · exact spells_refused cs
  split
  · rename_i he
    intro post hp
    -- What follows the name is all spacing.
    have hn := Reads.single_token .identifier (fullName (spacing rest).rest).front
      ((fullName (spacing rest).rest).rest ++ post)
    rw [← List.append_assoc, front_append_fullName] at hn
    have hs := skips_spacing (fullName (spacing rest).rest).rest hp
    have hc := front_append_spacing (fullName (spacing rest).rest).rest
    rw [List.isEmpty_iff.1 he, List.nil_append] at hs
    rw [List.isEmpty_iff.1 he, List.append_nil] at hc
    exact ⟨Reads.single_group (hc.symm ▸ (reads_keyword h hp).append hn), hs⟩
  · exact spells_refused cs

/-! ## Directives -/

theorem front_append_word (cs : List Char) : (word cs).front ++ (word cs).rest = cs :=
  Cut.front_append_scan startsWord cs

theorem last_words (cs : List Char) : ∃ rest, (words cs).last = spacing rest := by
  fun_induction words cs with
  | case1 cs => exact ⟨cs, rfl⟩
  | case2 cs _ _ _ _ _ ih => exact ih

/-- The words of `cs` are read as their pieces, whatever kinds `kindOf` gives them, up to the
spacing after the last one. -/
theorem reads_words (kindOf : SpacedWord → Kind) (cs : List Char) {post : List Char}
    (hp : endsLine post = true) :
    Reads ((words cs).words.flatMap fun w => w.pieces (kindOf w)) (cs ++ post)
      ((words cs).last.front ++ ((words cs).last.rest ++ post)) := by
  fun_induction words cs with
  | case1 cs gap next h =>
    rw [← List.append_assoc, front_append_spacing]
    exact .nil _
  | case2 cs gap next h _ others ih =>
    have hw := Reads.single_token (kindOf ⟨gap.front, next.front⟩) next.front (next.rest ++ post)
    rw [← List.append_assoc, front_append_word] at hw
    exact ((Reads.spacing cs hp).append hw).append ih

/-- A task's words are read like others; only the kinds of those after the first differ. -/
theorem reads_taskPieces (cs : List Char) {post : List Char} (hp : endsLine post = true) :
    Reads (taskPieces (words cs).words) (cs ++ post)
      ((words cs).last.front ++ ((words cs).last.rest ++ post)) := by
  rw [words]
  dsimp only
  split
  · rw [← List.append_assoc, front_append_spacing]
    exact .nil _
  · have hw := Reads.single_token .identifier (word (spacing cs).rest).front
      ((word (spacing cs).rest).rest ++ post)
    rw [← List.append_assoc, front_append_word] at hw
    exact ((Reads.spacing cs hp).append hw).append (reads_words clauseKind _ hp)

theorem spells_ofWords {d : Directive} {cs rest : List Char} {pieces : List Piece}
    (h : keyword? d.word cs = some rest)
    (hw : ∀ post, endsLine post = true → Reads pieces (rest ++ post)
      ((words rest).last.front ++ ((words rest).last.rest ++ post))) :
    Spells (d.ofWords cs (words rest) pieces) cs := by
  unfold Directive.ofWords
  split
  · exact spells_refused cs
  · obtain ⟨tail, ht⟩ := last_words rest
    refine spells_close fun post hp => ⟨?_, ht ▸ skips_spacing tail hp⟩
    rw [eq_append_of_keyword? h, List.append_assoc]
    exact .token (hw post hp)

theorem spells_readPath {d : Directive} {cs rest : List Char} (h : keyword? d.word cs = some rest) :
    Spells (d.readPath cs rest) cs := by
  unfold Directive.readPath
  dsimp only
  split
  · exact spells_refused cs
  · intro post hp
    have hr := (Reads.spacing rest hp).append (Reads.trimmed .path (spacing rest).rest post)
    refine ⟨Reads.single_group ?_, skips_of_all_isBlank post (Text.all_after _)⟩
    rw [eq_append_of_keyword? h, List.append_assoc]
    exact .token hr.join_gaps

theorem spells_readVariableFlag {d : Directive} {cs rest : List Char}
    (h : keyword? d.word cs = some rest) : Spells (d.readVariableFlag cs rest) cs := by
  unfold Directive.readVariableFlag
  dsimp only
  split
  · exact spells_refused cs
  split
  · rename_i flag hf
    refine spells_close_spacing fun post hp => ?_
    have hn := Reads.single_token .identifier (fullName (spacing rest).rest).front
      ((fullName (spacing rest).rest).rest ++ post)
    rw [← List.append_assoc, front_append_fullName] at hn
    exact ((reads_keyword h hp).append hn).append (reads_optionalFlag hf post)
  · exact spells_refused cs

theorem spells_directive {d : Directive} {cs rest : List Char} (h : keyword? d.word cs = some rest) :
    Spells (d.read cs rest) cs := by
  unfold Directive.read
  split
  · exact spells_readPath h
  · exact spells_readVariableFlag h
  · exact spells_ofWords h fun _ => reads_words (fun _ => .path) rest
  · exact spells_ofWords h fun _ => reads_words (fun _ => .identifier) rest
  · exact spells_ofWords h fun _ => reads_taskPieces rest

theorem keyword?_of_find? {cs rest : List Char} {d : Directive}
    (h : Directive.find? cs = some (d, rest)) : keyword? d.word cs = some rest := by
  obtain ⟨e, _, he⟩ := List.exists_of_findSome?_eq_some h
  obtain ⟨r, hr, heq⟩ := Option.map_eq_some_iff.1 he
  cases heq
  exact hr

/-- Every logical line is read as a statement and the text after it. -/
theorem spells_read (cs : List Char) : Spells (.read cs) cs := by
  unfold Statement.read
  split
  · rename_i h
    exact spells_readExport h
  split
  · rename_i h
    exact spells_directive h
  split
  · rename_i d rest h
    split
    · exact spells_readAssignment cs
    · exact spells_directive (keyword?_of_find? h)
  · exact spells_readAssignment cs

end Recipe.Grammar
