import Recipe.Proofs.Grammar.LineEnding.Scan

/-!
# Statements with either line ending

A logical line without carriage returns is read alike with either line ending: every reader of
statements commutes with `Text.crlf`, one lemma each, up to `statement_crlf`. An escaped line feed in a
value is where the readers differ most: the escape takes the carriage return with it, and the line feed
is plain text that is joined to it (`Value.read?_crlf`).
-/

namespace Recipe

/-! ## Pieces -/

namespace Piece

mutual

/-- The piece with a carriage return before every line feed. -/
def crlf : Piece → Piece
  | token k t => token k (Text.crlf t)
  | gap g => gap (Text.crlf g)
  | group k ps => group k (crlfAll ps)

/-- Several pieces with carriage returns. -/
def crlfAll : List Piece → List Piece
  | [] => []
  | p :: ps => p.crlf :: crlfAll ps

end

theorem crlfAll_eq_map (ps : List Piece) : crlfAll ps = ps.map crlf := by
  induction ps with
  | nil => rfl
  | cons p ps ih => rw [crlfAll, ih, List.map_cons]

theorem crlfAll_append (ps qs : List Piece) : crlfAll (ps ++ qs) = crlfAll ps ++ crlfAll qs := by
  rw [crlfAll_eq_map, crlfAll_eq_map, crlfAll_eq_map, List.map_append]

theorem crlfAll_flatMap {α : Type} (f : α → List Piece) (xs : List α) :
    crlfAll (xs.flatMap f) = xs.flatMap fun x => crlfAll (f x) := by
  simp only [crlfAll_eq_map, List.map_flatMap]

theorem crlfAll_tokens (k : Kind) (cs : List Char) :
    crlfAll (tokens k cs) = tokens k (Text.crlf cs) := by
  rw [tokens, tokens, Text.isEmpty_crlf]
  split <;> rfl

theorem crlf_mark {c : Char} (h : c ≠ '\n') : (mark c).crlf = mark c := by
  rw [mark, crlf, Text.crlf_cons h]
  rfl

mutual

theorem crlf_of_not_mem : ∀ {p : Piece}, '\n' ∉ p.text → p.crlf = p
  | token _ _, h => congrArg _ (Text.crlf_of_not_mem h)
  | gap _, h => congrArg _ (Text.crlf_of_not_mem h)
  | group _ _, h => congrArg _ (crlfAll_of_not_mem h)

/-- Pieces without a line feed are the same with CRLF endings. -/
theorem crlfAll_of_not_mem : ∀ {ps : List Piece}, '\n' ∉ textAll ps → crlfAll ps = ps
  | [], _ => rfl
  | p :: ps, h => by
    rw [textAll, List.mem_append, not_or] at h
    rw [crlfAll, crlf_of_not_mem h.1, crlfAll_of_not_mem h.2]

end

end Piece

namespace Grammar

open Text (crlf crlf_cons crlf_lineFeed crlf_of_not_mem)

/-! ## Assignments -/

/-- Pieces and the text after them with carriage returns. -/
def Parts.crlf (p : Parts) : Parts :=
  ⟨Piece.crlfAll p.pieces, Text.crlf p.rest⟩

/-- A statement with carriage returns. -/
def Statement.crlf (s : Statement) : Statement :=
  ⟨s.piece.crlf, Text.crlf s.after⟩

theorem crlf_overridePiece (name : List Char) :
    (overridePiece name).crlf = overridePiece (crlf name) := by
  rw [overridePiece, overridePiece, Piece.crlf, Piece.crlfAll, Piece.crlf_mark (by decide)]
  rfl

theorem flag?_of_head?_ne {cs : List Char} (h : cs.head? ≠ some '[') : flag? cs = none := by
  unfold flag?
  split
  · exact absurd rfl h
  · rfl

theorem flag?_bracket (cs : List Char) :
    flag? ('[' :: cs) = if (Cut.span isFlagChar cs).rest.head? = some ']' then
      some ⟨[.group .variableFlag (Piece.mark '['
        :: Piece.tokens .identifier (Cut.span isFlagChar cs).front ++ [Piece.mark ']'])],
        (Cut.span isFlagChar cs).rest.tail⟩ else none := by
  rw [flag?]
  split
  · rename_i rest hr
    rw [hr]
    rfl
  · rename_i hne
    rw [if_neg]
    intro h
    obtain ⟨tail, ht⟩ := List.head?_eq_some_iff.1 h
    exact hne tail ht

theorem flag?_crlf (cs : List Char) : flag? (crlf cs) = (flag? cs).map Parts.crlf := by
  by_cases h : cs.head? = some '['
  · obtain ⟨rest, rfl⟩ := List.head?_eq_some_iff.1 h
    rw [crlf_cons (by decide), flag?_bracket, flag?_bracket, Cut.span_crlf (by decide)]
    simp only [Cut.front_crlf, Cut.rest_crlf, Text.head?_crlf (c := ']') (by decide)]
    split
    · rename_i hc
      obtain ⟨tail, ht⟩ := List.head?_eq_some_iff.1 hc
      simp only [ht, crlf_cons (show ']' ≠ '\n' by decide), List.tail_cons, Option.map_some,
        Parts.crlf, List.cons_append, Piece.crlfAll, Piece.crlf, Piece.crlfAll_append,
        Piece.crlfAll_tokens, Piece.crlf_mark (show '[' ≠ '\n' by decide),
        Piece.crlf_mark (show ']' ≠ '\n' by decide)]
    · rfl
  · rw [flag?_of_head?_ne h, flag?_of_head?_ne (mt (Text.head?_crlf (by decide) cs).1 h)]
    rfl

theorem optionalFlag_crlf (cs : List Char) :
    optionalFlag (crlf cs) = (optionalFlag cs).map Parts.crlf := by
  have hhead := Text.head?_crlf (c := '[') (by decide) cs
  unfold optionalFlag
  by_cases h : cs.head? = some '['
  · rw [if_pos h, if_pos (hhead.2 h), flag?_crlf]
  · rw [if_neg h, if_neg (mt hhead.1 h)]
    rfl

theorem target?_crlf (cs : List Char) : target? (crlf cs) = (target? cs).map Parts.crlf := by
  simp only [target?, baseName_crlf, Cut.front_crlf, Cut.rest_crlf, Text.isEmpty_crlf]
  split
  · rfl
  · rw [overrides_crlf, optionalFlag_crlf, Option.map_map, Option.map_map]
    congr 1
    funext flag
    simp [Parts.crlf, Piece.crlfAll, Piece.crlf, Piece.crlfAll_eq_map, crlf_overridePiece]

/-! ## Values -/

/-- A segment with carriage returns. -/
def Segment.crlf : Segment → Segment
  | plain cs => plain (Text.crlf cs)
  | expansion inside => expansion (Text.crlf inside)

namespace Value

/-- A value with carriage returns. -/
def crlf (v : Value) : Value :=
  ⟨v.segments.map Segment.crlf, Text.crlf v.rest⟩

theorem crlf_addPlain (cs : List Char) (v : Value) :
    (v.addPlain cs).crlf = v.crlf.addPlain (Text.crlf cs) := by
  obtain ⟨segments, rest⟩ := v
  match segments with
  | [] => rfl
  | .plain t :: ss => simp [addPlain, crlf, Segment.crlf]
  | .expansion t :: ss => rfl

theorem addPlain_addPlain (cs ds : List Char) (v : Value) :
    (v.addPlain ds).addPlain cs = v.addPlain (cs ++ ds) := by
  obtain ⟨segments, rest⟩ := v
  match segments with
  | [] => rfl
  | .plain t :: ss => simp [addPlain]
  | .expansion t :: ss => rfl

theorem map_addPlain_crlf (cs : List Char) (o : Option Value) :
    (o.map crlf).map (addPlain (Text.crlf cs)) = (o.map (addPlain cs)).map crlf := by
  rw [Option.map_map, Option.map_map]
  congr 1
  funext v
  exact (crlf_addPlain cs v).symm

theorem read?_quote (quote : Char) (rest : List Char) :
    read? quote (quote :: rest) = some ⟨[], rest⟩ := by
  simp [read?.eq_def]

/-- A character that is neither the quote nor a backslash and that begins no group is added to the
plain text in front of what the rest of the string is read into. -/
theorem read?_plain {quote c : Char} {rest : List Char} (hq : c ≠ quote) (hb : c ≠ '\\')
    (hg : c = '$' → braceGroup (· == quote) rest = none) :
    read? quote (c :: rest) = (read? quote rest).map (addPlain [c]) := by
  rw [read?.eq_def]
  dsimp only
  rw [if_neg hq, if_neg hb]
  split
  · rename_i hc
    split
    · rename_i g h
      rw [hg hc] at h
      cases h
    · rfl
  · rfl

theorem read?_expansion {quote : Char} {rest : List Char} {g : Cut} (hq : '$' ≠ quote)
    (hg : braceGroup (· == quote) rest = some g) :
    read? quote ('$' :: rest) = (read? quote g.rest).map (addExpansion g.front) := by
  rw [read?.eq_def]
  dsimp only
  rw [if_neg hq, if_neg (by decide), if_pos rfl]
  split
  · rename_i g' h
    rw [hg] at h
    cases h
    rfl
  · rename_i h
    rw [hg] at h
    cases h

theorem read?_escape {quote : Char} (hq : '\\' ≠ quote) (d : Char) (rest : List Char) :
    read? quote ('\\' :: d :: rest) = (read? quote rest).map (addPlain ['\\', d]) := by
  rw [read?.eq_def]
  dsimp only
  rw [if_neg hq, if_pos rfl]

theorem read?_crlf {quote : Char} (hr : '\r' ≠ quote) (hn : '\n' ≠ quote) (cs : List Char) :
    read? quote (Text.crlf cs) = (read? quote cs).map crlf := by
  have hgroup : ∀ rest, braceGroup (· == quote) (Text.crlf rest)
      = (braceGroup (· == quote) rest).map Cut.crlf :=
    braceGroup_crlf ⟨beq_eq_false_iff_ne.2 hr, beq_eq_false_iff_ne.2 hn⟩
  -- A line feed is plain text by itself, and joined to the carriage return before it.
  have hfeed : ∀ rest, read? quote ('\n' :: rest) = (read? quote rest).map (addPlain ['\n']) :=
    fun rest => read?_plain hn (by decide) fun h => absurd h (by decide)
  have hjoin : ∀ (ds : List Char) (o : Option Value),
      (o.map (addPlain ['\n'])).map (addPlain ds) = o.map (addPlain (ds ++ ['\n'])) := by
    intro ds o
    rw [Option.map_map]
    congr 1
    funext v
    exact addPlain_addPlain ds ['\n'] v
  fun_induction read? quote cs with
  | case1 => rw [Text.crlf_nil, read?.eq_def]; rfl
  | case2 rest =>
    rw [Text.crlf_cons (Ne.symm hn), read?_quote]
    rfl
  | case3 hq =>
    rw [Text.crlf_cons (by decide), Text.crlf_nil, read?.eq_def]
    dsimp only
    rw [if_neg hq, if_pos rfl]
    rfl
  | case4 d rest hq ih =>
    rw [Text.crlf_cons (by decide)]
    by_cases hd : d = '\n'
    · subst hd
      rw [Text.crlf_lineFeed, read?_escape hq, hfeed, hjoin, ih, ← map_addPlain_crlf]
      rfl
    · rw [Text.crlf_cons hd, read?_escape hq, ih, ← map_addPlain_crlf, Text.crlf_cons (by decide),
        Text.crlf_cons hd]
      rfl
  | case5 rest g hg _ hq _ ih =>
    have hc := hgroup rest
    rw [hg, Option.map_some] at hc
    rw [Text.crlf_cons (by decide), read?_expansion hq hc, Cut.rest_crlf, ih, Option.map_map,
      Option.map_map]
    rfl
  | case6 rest hg hq _ ih =>
    have hc := hgroup rest
    rw [hg, Option.map_none] at hc
    rw [Text.crlf_cons (by decide), read?_plain hq (by decide) fun _ => hc, ih, ← map_addPlain_crlf,
      Text.crlf_cons (by decide)]
    rfl
  | case7 c rest hq hb hd ih =>
    by_cases hc : c = '\n'
    · subst hc
      rw [Text.crlf_lineFeed, read?_plain hr (by decide) fun h => absurd h (by decide), hfeed, hjoin,
        ih, ← map_addPlain_crlf]
      rfl
    · rw [Text.crlf_cons hc, read?_plain hq hb fun h => absurd h hd, ih, ← map_addPlain_crlf,
        Text.crlf_cons hc]
      rfl

end Value

theorem expansionPiece_of_head?_ne {inside : List Char} (h : inside.head? ≠ some '@') :
    expansionPiece inside = .group .variableExpansion
      (.token .punctuation ['$', '{'] :: Piece.tokens .identifier inside ++ [Piece.mark '}']) := by
  unfold expansionPiece
  split
  · exact absurd rfl h
  · rfl

theorem crlf_expansionPiece (inside : List Char) :
    (expansionPiece inside).crlf = expansionPiece (crlf inside) := by
  have hmark := Piece.crlf_mark (show '}' ≠ '\n' by decide)
  by_cases h : inside.head? = some '@'
  · obtain ⟨code, rfl⟩ := List.head?_eq_some_iff.1 h
    rw [crlf_cons (by decide), expansionPiece, expansionPiece, Piece.crlf, Piece.crlfAll_append,
      Piece.crlfAll, Piece.crlfAll_tokens, Piece.crlfAll, hmark]
    rfl
  · rw [expansionPiece_of_head?_ne h,
      expansionPiece_of_head?_ne (mt (Text.head?_crlf (by decide) inside).1 h), Piece.crlf,
      Piece.crlfAll_append, Piece.crlfAll, Piece.crlfAll_tokens, Piece.crlfAll, hmark]
    rfl

theorem crlf_valuePiece {quote : Char} (h : quote ≠ '\n') (v : Value) :
    (v.piece quote).crlf = v.crlf.piece quote := by
  have hsegment : ∀ s : Segment, s.piece.crlf = s.crlf.piece := by
    intro s
    cases s with
    | plain t => rfl
    | expansion inside => exact crlf_expansionPiece inside
  simp [Value.piece, Value.crlf, Piece.crlf, Piece.crlfAll, Piece.crlfAll_eq_map, Piece.crlf_mark h,
    hsegment]

/-! ## Statements -/

theorem Reads.not_mem {c : Char} {ps : List Piece} {cs rest : List Char} (h : Reads ps cs rest)
    (hc : c ∉ cs) : c ∉ rest := by
  rw [h.eq_append] at hc
  exact fun hm => hc (List.mem_append_right _ hm)

theorem crlf_close (k : Kind) (parts : List Piece) (last : Cut) :
    (Statement.close k parts last).crlf = .close k (Piece.crlfAll parts) last.crlf := by
  simp only [Statement.close, Cut.rest_crlf, Text.isEmpty_crlf]
  split
  · rfl
  · simp [Statement.crlf, Piece.crlf, Piece.crlfAll, Piece.crlfAll_append]

theorem assigned_crlf {op : Cut} (h : '\r' ∉ op.rest) (before : List Piece) :
    assigned (Piece.crlfAll before) op.crlf = (assigned before op).crlf := by
  have hrest := not_mem_rest_spacing h
  simp only [assigned, Cut.front_crlf, Cut.rest_crlf, spacing_crlf h]
  generalize spacing op.rest = gap at hrest ⊢
  cases hg : gap.rest with
  | nil => simp [Statement.crlf, Piece.crlf, Piece.crlfAll, Piece.crlfAll_append]
  | cons c cs =>
    rw [hg] at hrest
    by_cases hc : c = '\n'
    · -- A line's end is no quote.
      subst hc
      simp [isQuote, Statement.crlf, Piece.crlf, Piece.crlfAll, Piece.crlfAll_append]
    have hvalue : (if isQuote c then Value.read? c (crlf cs) else none)
        = (if isQuote c then Value.read? c cs else none).map Value.crlf := by
      split
      · refine Value.read?_crlf ?_ (Ne.symm hc) cs
        rintro rfl
        exact hrest List.mem_cons_self
      · rfl
    rw [crlf_cons hc]
    dsimp only
    rw [hvalue]
    cases hv : if isQuote c then Value.read? c cs else none with
    | none => simp [Statement.crlf, Piece.crlf, Piece.crlfAll, Piece.crlfAll_append, crlf_cons hc]
    | some v =>
      have hread : Value.read? c cs = some v := by
        split at hv
        · exact hv
        · cases hv
      have hreads := reads_valuePiece hread []
      rw [List.append_nil, List.append_nil] at hreads
      dsimp only [Option.map_some]
      rw [crlf_close, ← spacing_crlf (hreads.not_mem hrest)]
      simp [Piece.crlf, Piece.crlfAll, Piece.crlfAll_append, crlf_valuePiece hc, Value.crlf]

theorem assignment?_crlf {cs : List Char} (h : '\r' ∉ cs) :
    assignment? (crlf cs) = (assignment? cs).map Statement.crlf := by
  rw [assignment?, assignment?, target?_crlf]
  cases ht : target? cs with
  | none => rfl
  | some parts =>
    have hreads := reads_target? ht []
    rw [List.append_nil, List.append_nil] at hreads
    have hrest := hreads.not_mem h
    simp only [Option.map_some, Option.bind_some, Parts.crlf, spacing_crlf hrest, Cut.front_crlf,
      Cut.rest_crlf, operator?_crlf]
    cases ho : operator? (spacing parts.rest).rest with
    | none => rfl
    | some op =>
      have hop : '\r' ∉ op.rest := by
        have := not_mem_rest_spacing hrest
        rw [eq_append_of_operator? ho, List.mem_append, not_or] at this
        exact this.2
      simp only [Option.map_some]
      rw [← assigned_crlf hop, Piece.crlfAll_append]
      rfl

theorem readAssignment_crlf {cs : List Char} (h : '\r' ∉ cs) :
    Statement.readAssignment (crlf cs) = (Statement.readAssignment cs).crlf := by
  rw [Statement.readAssignment, Statement.readAssignment, assignment?_crlf h]
  cases assignment? cs <;> rfl

theorem readExport_crlf {rest : List Char} (h : '\r' ∉ rest) (cs : List Char) :
    Statement.readExport (crlf cs) (crlf rest) = (Statement.readExport cs rest).crlf := by
  have hgap := not_mem_rest_spacing h
  have hname : '\r' ∉ (fullName (spacing rest).rest).rest := fun hm =>
    hgap (front_append_fullName (spacing rest).rest ▸ List.mem_append_right _ hm)
  have hkeyword : crlf "export".toList = "export".toList := crlf_of_not_mem (by decide)
  simp only [Statement.readExport, spacing_crlf h, Cut.rest_crlf, Cut.front_crlf, fullName_crlf,
    spacing_crlf hname, isSome_operator?_crlf, Text.isEmpty_crlf, assignment?_crlf hgap]
  split
  · rfl
  split
  · cases assignment? (spacing rest).rest with
    | none => rfl
    | some s =>
      simp only [Option.map_some, Statement.crlf, Piece.crlf, List.cons_append, List.nil_append,
        Piece.crlfAll, hkeyword]
  split
  · simp only [Statement.crlf, Piece.crlf, List.cons_append, List.nil_append, Piece.crlfAll, hkeyword]
  · rfl

/-! ## Directives -/

/-- A word with carriage returns. -/
def SpacedWord.crlf (w : SpacedWord) : SpacedWord :=
  ⟨Text.crlf w.gap, Text.crlf w.word⟩

theorem crlfAll_word (k : Kind) (w : SpacedWord) :
    Piece.crlfAll (w.pieces k) = w.crlf.pieces k := rfl

theorem words_crlf {cs : List Char} (h : '\r' ∉ cs) :
    words (crlf cs) = ⟨(words cs).words.map SpacedWord.crlf, (words cs).last.crlf⟩ := by
  fun_induction words cs with
  | case1 cs gap next hnext =>
    have hgap : '\r' ∉ gap.rest := not_mem_rest_spacing h
    have hempty : (word (spacing (crlf cs)).rest).front = [] := by
      rw [spacing_crlf h, Cut.rest_crlf, word_crlf hgap, Cut.front_crlf]
      exact Text.crlf_eq_nil.2 hnext
    rw [words, dif_pos hempty, spacing_crlf h]
    rfl
  | case2 cs gap next hnext _ others ih =>
    have hgap : '\r' ∉ gap.rest := not_mem_rest_spacing h
    have hrest : '\r' ∉ next.rest := fun hm =>
      hgap (front_append_word gap.rest ▸ List.mem_append_right _ hm)
    have hword : word (spacing (crlf cs)).rest = next.crlf := by
      rw [spacing_crlf h, Cut.rest_crlf, word_crlf hgap]
    have hfront : (word (spacing (crlf cs)).rest).front ≠ [] := by
      rw [hword]
      exact mt Text.crlf_eq_nil.1 hnext
    rw [words, dif_neg hfront]
    dsimp only
    rw [hword, Cut.rest_crlf, ih hrest, spacing_crlf h]
    rfl

theorem clauseKind_crlf (w : SpacedWord) : clauseKind w.crlf = clauseKind w := by
  have hafter : crlf w.word = "after".toList ↔ w.word = "after".toList :=
    Text.crlf_eq_iff (by decide)
  have hbefore : crlf w.word = "before".toList ↔ w.word = "before".toList :=
    Text.crlf_eq_iff (by decide)
  simp only [clauseKind, SpacedWord.crlf, hafter, hbefore]

theorem crlfAll_taskPieces (ws : List SpacedWord) :
    Piece.crlfAll (taskPieces ws) = taskPieces (ws.map SpacedWord.crlf) := by
  cases ws with
  | nil => rfl
  | cons w ws =>
    rw [taskPieces, List.map_cons, taskPieces, Piece.crlfAll_append, Piece.crlfAll_flatMap,
      List.flatMap_map]
    simp only [crlfAll_word, clauseKind_crlf]

section Directive

variable {d : Directive} (hd : '\n' ∉ d.word.toList)

include hd

theorem ofWords_crlf (cs : List Char) (ws : Words) (pieces : List Piece) :
    d.ofWords (crlf cs) ⟨ws.words.map SpacedWord.crlf, ws.last.crlf⟩ (Piece.crlfAll pieces)
      = (d.ofWords cs ws pieces).crlf := by
  simp only [Directive.ofWords, List.isEmpty_map]
  split
  · rfl
  · rw [crlf_close, Piece.crlfAll, Piece.crlf, crlf_of_not_mem hd]

theorem readPath_crlf {rest : List Char} (h : '\r' ∉ rest) (cs : List Char) :
    d.readPath (crlf cs) (crlf rest) = (d.readPath cs rest).crlf := by
  simp only [Directive.readPath, spacing_crlf h, Cut.rest_crlf, Cut.front_crlf, Text.splitTrim_crlf,
    Text.Trimmed.crlf, Text.isEmpty_crlf]
  split
  · rfl
  · simp [Statement.crlf, Piece.crlf, Piece.crlfAll, crlf_of_not_mem hd]

theorem readVariableFlag_crlf {rest : List Char} (h : '\r' ∉ rest) (cs : List Char) :
    d.readVariableFlag (crlf cs) (crlf rest) = (d.readVariableFlag cs rest).crlf := by
  have hname : '\r' ∉ (fullName (spacing rest).rest).rest := fun hm => not_mem_rest_spacing h
    (front_append_fullName (spacing rest).rest ▸ List.mem_append_right _ hm)
  simp only [Directive.readVariableFlag, spacing_crlf h, Cut.rest_crlf, Cut.front_crlf, fullName_crlf,
    Text.isEmpty_crlf, optionalFlag_crlf]
  split
  · rfl
  cases hf : optionalFlag (fullName (spacing rest).rest).rest with
  | none => rfl
  | some flag =>
    have hreads := reads_optionalFlag hf []
    rw [List.append_nil, List.append_nil] at hreads
    simp only [Option.map_some]
    rw [crlf_close, ← spacing_crlf (hreads.not_mem hname)]
    simp [Piece.crlf, Piece.crlfAll, Parts.crlf, crlf_of_not_mem hd]

theorem directive_crlf {rest : List Char} (h : '\r' ∉ rest) (cs : List Char) :
    d.read (crlf cs) (crlf rest) = (d.read cs rest).crlf := by
  unfold Directive.read
  split
  · exact readPath_crlf hd h cs
  · exact readVariableFlag_crlf hd h cs
  · dsimp only
    rw [words_crlf h, List.flatMap_map, ← ofWords_crlf hd, Piece.crlfAll_flatMap]
    rfl
  · dsimp only
    rw [words_crlf h, List.flatMap_map, ← ofWords_crlf hd, Piece.crlfAll_flatMap]
    rfl
  · dsimp only
    rw [words_crlf h, ← ofWords_crlf hd, crlfAll_taskPieces]

end Directive

/-- A logical line is read alike with either ending. -/
theorem statement_crlf {cs : List Char} (h : '\r' ∉ cs) :
    Statement.read (crlf cs) = (Statement.read cs).crlf := by
  have hplain : ∀ d ∈ Directive.exportFunctions :: Directive.table,
      '\r' ∉ d.word.toList ∧ '\n' ∉ d.word.toList := by decide
  have hrest : ∀ {w : String} {rest : List Char}, keyword? w cs = some rest → '\r' ∉ rest := by
    intro w rest hk
    rw [eq_append_of_keyword? hk, List.mem_append, not_or] at h
    exact h.2
  have hfind : Directive.find? (crlf cs)
      = (Directive.find? cs).map fun found => (found.1, crlf found.2) := by
    refine findSome?_map_of_forall fun d hd => ?_
    rw [keyword?_crlf (hplain d (List.mem_cons_of_mem _ hd)), Option.map_map, Option.map_map]
    rfl
  rw [Statement.read, Statement.read, keyword?_crlf (by decide),
    keyword?_crlf (hplain _ List.mem_cons_self), hfind]
  cases he : keyword? "export" cs with
  | some rest => exact readExport_crlf (hrest he) cs
  | none =>
    cases hx : keyword? Directive.exportFunctions.word cs with
    | some rest => exact directive_crlf (by decide) (hrest hx) cs
    | none =>
      cases hf : Directive.find? cs with
      | none => exact readAssignment_crlf h
      | some found =>
        obtain ⟨d, rest⟩ := found
        have hd : d ∈ Directive.table := by
          obtain ⟨e, he, hr⟩ := List.exists_of_findSome?_eq_some hf
          obtain ⟨_, _, hde⟩ := Option.map_eq_some_iff.1 hr
          cases hde
          exact he
        have hr := hrest (keyword?_of_find? hf)
        simp only [Option.map_none, Option.map_some, spacing_crlf hr, Cut.rest_crlf,
          isSome_operator?_crlf]
        split
        · exact readAssignment_crlf h
        · exact directive_crlf (hplain d (List.mem_cons_of_mem _ hd)).2 hr cs

end Grammar

end Recipe
