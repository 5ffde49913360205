import Recipe.Proofs.Embedded.Owner
import Recipe.Proofs.Grammar.Names
import Recipe.Proofs.Tree.Continuation
import Recipe.Proofs.Tree.Navigation

/-!
# Embedded code at the end of a line

Where embedded code ends with its line, no declared name stands. A word that goes on over the end of a
line is embedded code itself (`Grammar.exists_code_of_mem_block`), or it is in a statement whose lines are
joined there (`Grammar.exists_backslash_of_mem_block`). In the second case the backslash that joins them
is the last character of the code, so the word is inline code (`Node.exists_of_mem_inlines`) and ends with
the backslash, which the name of no declaration does (`Grammar.braced_of_declaredName?`). So nothing is
found there (`Document.definition?_of_region_stop`).
-/

namespace Recipe

open Text (bytes)
open Piece (nodesAfter textAll kind?)

/-! ## Tokens -/

namespace Piece

/-- A node with text is that of a token. -/
theorem exists_token_of_text? {pre : List Char} {ps : List Piece} {n : Node} (h : n ∈ nodesAfter pre ps)
    {u : String} (hu : n.text? = some u) : ∃ t, token n.kind t ∈ ps ∧ u = String.ofList t := by
  induction ps generalizing pre with
  | nil => cases h
  | cons p ps ih =>
    have hrest : ∀ {pre}, n ∈ nodesAfter pre ps → ∃ t, token n.kind t ∈ p :: ps ∧ u = String.ofList t := by
      intro pre h
      obtain ⟨t, ht, heq⟩ := ih h
      exact ⟨t, List.mem_cons_of_mem _ ht, heq⟩
    cases p with
    | token k t =>
      rw [nodesAfter_token] at h
      rcases List.mem_cons.1 h with rfl | h
      · exact ⟨t, List.mem_cons_self, (Option.some.inj hu).symm⟩
      · exact hrest h
    | gap g =>
      rw [nodesAfter_gap] at h
      exact hrest h
    | group k inside =>
      rw [nodesAfter_group] at h
      rcases List.mem_cons.1 h with rfl | h
      · cases hu
      · exact hrest h

theorem subset_textAll {k : Kind} {t : List Char} {ps : List Piece} (h : token k t ∈ ps) :
    t ⊆ textAll ps := by
  induction ps with
  | nil => cases h
  | cons p ps ih =>
    rw [textAll]
    rcases List.mem_cons.1 h with rfl | h
    · exact List.subset_append_left _ _
    · exact List.subset_append_of_subset_right _ (ih h)

end Piece

/-! ## Inline code -/

namespace Node

theorem exists_of_mem_preorderAll {n : Node} {ns : List Node} (h : n ∈ preorderAll ns) :
    ∃ c ∈ ns, n ∈ c.preorder := by
  induction ns with
  | nil => cases h
  | cons m ns ih =>
    rw [preorderAll] at h
    rcases List.mem_append.1 h with h | h
    · exact ⟨m, List.mem_cons_self, h⟩
    · obtain ⟨c, hc, hn⟩ := ih h
      exact ⟨c, List.mem_cons_of_mem m hc, hn⟩

open Grammar (Inlines inlinePiece)

/-- A node of inline code is laid out from a piece of inline code. -/
theorem exists_of_mem_inlines {ps : List Piece} (h : Inlines ps) (pre : List Char) {n : Node}
    (hn : n ∈ inlines (nodesAfter pre ps)) :
    ∃ front code back, textAll ps = front ++ ((inlinePiece code).text ++ back) ∧
      nodesAfter (pre ++ front) [inlinePiece code] = [n] := by
  induction h generalizing pre with
  | nil => cases hn
  | @token k t ps hk _ ih =>
    rw [Piece.nodesAfter_token, inlines_leaf hk] at hn
    obtain ⟨front, code, back, htext, hnode⟩ := ih (pre ++ t) hn
    refine ⟨t ++ front, code, back, ?_, ?_⟩
    · rw [textAll, htext, Piece.text, List.append_assoc]
    · rw [← List.append_assoc]
      exact hnode
  | @gap g ps _ ih =>
    rw [Piece.nodesAfter_gap] at hn
    obtain ⟨front, code, back, htext, hnode⟩ := ih (pre ++ g) hn
    refine ⟨g ++ front, code, back, ?_, ?_⟩
    · rw [textAll, htext, Piece.text, List.append_assoc]
    · rw [← List.append_assoc]
      exact hnode
  | @group k inside ps hk _ _ ihi ih =>
    rw [Piece.nodesAfter_group, inlines_branch hk] at hn
    rcases List.mem_append.1 hn with hn | hn
    · obtain ⟨front, code, back, htext, hnode⟩ := ihi pre hn
      refine ⟨front, code, back ++ textAll ps, ?_, hnode⟩
      rw [textAll, Piece.text, htext]
      simp only [List.append_assoc]
    · obtain ⟨front, code, back, htext, hnode⟩ := ih (pre ++ textAll inside) hn
      refine ⟨textAll inside ++ front, code, back, ?_, ?_⟩
      · rw [textAll, htext, Piece.text, List.append_assoc]
      · rw [← List.append_assoc]
        exact hnode
  | @inline code ps _ ih =>
    obtain ⟨r, cs, hnodes, hcs, -⟩ := nodesAfter_inlinePiece pre code ps
    rw [hnodes, inlines_inline r hcs] at hn
    rcases List.mem_cons.1 hn with rfl | hn
    · obtain ⟨n, hn, -⟩ := Piece.exists_node (p := inlinePiece code) rfl pre
      rw [← List.singleton_append, Piece.nodesAfter_append, hn] at hnodes
      rw [← (List.cons.inj hnodes).1]
      exact ⟨[], code, textAll ps, rfl, by rw [List.append_nil, hn]⟩
    · obtain ⟨front, code', back, htext, hnode⟩ := ih (pre ++ (inlinePiece code).text) hn
      refine ⟨(inlinePiece code).text ++ front, code', back, ?_, ?_⟩
      · rw [textAll, htext, List.append_assoc]
      · rw [← List.append_assoc]
        exact hnode

/-- Inline code stands between its opening and its closing brace. -/
theorem mem_children_inline {pre code : List Char} {n : Node}
    (hn : nodesAfter pre [inlinePiece code] = [n]) :
    n.text? = none ∧ n.range = .after pre (inlinePiece code).text ∧ ∀ c ∈ n.children,
      c = .leaf .punctuation (.after pre ['$', '{', '@']) (String.ofList ['$', '{', '@']) ∨
      c = .leaf .pythonContent (.after (pre ++ ['$', '{', '@']) code) (String.ofList code) ∨
      c = .leaf .punctuation (.after (pre ++ ['$', '{', '@'] ++ code) ['}']) (String.ofList ['}']) := by
  have hpiece : inlinePiece code = .group .inlinePython
      (.token .punctuation ['$', '{', '@'] :: Piece.tokens .pythonContent code ++ [Piece.mark '}']) := rfl
  rw [hpiece, Piece.nodesAfter_group, Piece.nodesAfter_nil, List.cons_append, Piece.nodesAfter_token,
    Piece.nodesAfter_tokens, Piece.mark, Piece.nodesAfter_token, Piece.nodesAfter_nil] at hn
  obtain rfl := List.singleton_inj.1 hn
  refine ⟨rfl, rfl, fun c hc => ?_⟩
  rcases List.mem_cons.1 hc with rfl | hc
  · exact .inl rfl
  rcases List.mem_append.1 hc with hc | hc
  · split at hc
    · cases hc
    · exact .inr (.inl (List.mem_singleton.1 hc))
  · exact .inr (.inr (List.mem_singleton.1 hc))

end Node

/-! ## Blocks of statements -/

namespace Grammar

/-- Every statement of a text is read from one of its blocks. -/
theorem exists_block {ls : List Line} (ht : Terminated ls) {pre : List Char} {s : Node}
    (hs : s ∈ nodesAfter pre (document ls)) : ∃ front l ms, (l :: ms) <:+ ls ∧
      pre ++ Line.textAll ls = front ++ Line.textAll (l :: ms) ∧
      s ∈ nodesAfter front (block l ms).pieces := by
  fun_induction document ls generalizing pre with
  | case1 => cases hs
  | case2 l ls _ ih =>
    rw [Piece.nodesAfter_append] at hs
    rcases List.mem_append.1 hs with hs | hs
    · exact ⟨pre, l, ls, List.suffix_rfl, rfl, hs⟩
    · have hsuffix := (block_rest_suffix l ls).trans (List.suffix_cons l ls)
      obtain ⟨front, m, ms, hms, htext, hs⟩ := ih (ht.of_suffix hsuffix) hs
      refine ⟨front, m, ms, hms.trans hsuffix, ?_, hs⟩
      rw [← htext, textAll_cons, (reads_block ht).eq_append, List.append_assoc]

section Names

variable {pre : List Char} {ps : List Piece} {n m : Node}

/-- The first name in a node that declares one is braced. -/
theorem braced_of_child? (hps : ∀ p ∈ ps, Named p) (hn : n ∈ nodesAfter pre ps)
    (hk : n.kind ∈ namedKinds) (hm : n.child? .identifier = some m) :
    ∃ t, m.text? = some (String.ofList t) ∧ Braced t := by
  have hmem := List.mem_of_find?_eq_some hm
  rcases Piece.exists_of_mem_nodes hn with ⟨t, -, htext⟩ | ⟨inside, pre', hgroup, hchildren⟩
  · rw [Node.children_of_text? htext] at hmem
    cases hmem
  · rw [hchildren] at hmem
    have hnamed := hps _ hgroup _ _ rfl hk
    have hkind : some m.kind = some .identifier := congrArg some (Node.kind_of_child? hm)
    rcases Piece.exists_of_mem_nodes hmem with ⟨t, ht, htext⟩ | ⟨qs, -, hqs, -⟩
    · obtain ⟨t', heq, hbraced⟩ := hnamed _ ht hkind
      rw [← (Piece.token.inj heq).2] at hbraced
      exact ⟨t, htext, hbraced⟩
    · obtain ⟨t', heq, -⟩ := hnamed _ hqs hkind
      cases heq

/-- The name that a statement declares is braced. -/
theorem braced_of_declaredName? (hps : ∀ p ∈ ps, Declares p) (hn : n ∈ nodesAfter pre ps)
    {k : SymbolKind} (h : n.declaredName? = some (m, k)) :
    ∃ t, m.text? = some (String.ofList t) ∧ Braced t := by
  have hnamed : ∀ p ∈ ps, Named p := fun p hp => (hps p hp).named
  have hname : ∀ {name? : Option Node} {j : SymbolKind},
      (name?.map fun m => (m, j)) = some (m, k) → name? = some m := by
    intro name? j h
    obtain ⟨m', hm, heq⟩ := Option.map_eq_some_iff.1 h
    cases heq
    exact hm
  unfold Node.declaredName? at h
  split at h
  · rename_i hk
    exact braced_of_child? hnamed hn (by simp [hk, namedKinds]) (hname h)
  · rename_i hk
    obtain ⟨a, ha, hm⟩ := Option.bind_eq_some_iff.1 (hname h)
    have hmem := List.mem_of_find?_eq_some ha
    rcases Piece.exists_of_mem_nodes hn with ⟨t, -, htext⟩ | ⟨inside, pre', hgroup, hchildren⟩
    · rw [Node.children_of_text? htext] at hmem
      cases hmem
    · rw [hchildren] at hmem
      rw [hk] at hgroup
      exact braced_of_child? ((hps _ hgroup).exported _ rfl) hmem
        (by simp [Node.kind_of_child? ha, namedKinds]) hm
  · rename_i hk
    exact braced_of_child? hnamed hn (by simp [hk, namedKinds])
      (Option.eq_some_of_filter_eq_some (hname h))
  · rename_i hk
    exact braced_of_child? hnamed hn (by simp [hk, namedKinds])
      (Option.eq_some_of_filter_eq_some (hname h))
  · rename_i hk
    exact braced_of_child? hnamed hn (by simp [hk, namedKinds])
      (Option.eq_some_of_filter_eq_some (hname h))
  · cases h

end Names

/-! ## Line feeds in blocks -/

section LineFeeds

variable {pre : List Char} {l : Line} {ls : List Line} {s : Node}

/-- A line feed inside a statement comes after a backslash of the statement and blanks. -/
theorem exists_backslash_of_mem_block {cs : List Char} (hlines : (l :: ls) <:+ Line.ofTexts (Text.lines cs))
    (hstarts : StartsStatement (Text.splitTrim l.body).core) (hs : s ∈ nodesAfter pre (block l ls).pieces)
    {p q : List Char} (htext : pre ++ Line.textAll (l :: ls) = p ++ '\n' :: q)
    (hstart : s.range.span.start ≤ bytes p) (hstop : bytes p < s.range.span.stop) :
    ∃ u blanks, p = u ++ '\\' :: blanks ∧ blanks.all Text.isBlank = true ∧
      s.range.span.start ≤ bytes u := by
  obtain ⟨j, hj, heq⟩ := exists_joint_of_mem_block hlines hstarts hs htext hstart hstop
  obtain ⟨x, hbefore, -⟩ := Joint.exists_of_mem_ofLine hj
  obtain ⟨m, hm, hend⟩ := Joint.exists_line_of_mem_ofLine hj
  have hblanks : ∃ blanks, j.lineEnd = blanks ++ ['\n'] ∧ blanks.all Text.isBlank = true := by
    have htrailing := Text.all_trailing m.body
    rw [hend]
    rcases (isFed_of_suffix hlines m hm).2 with hending | hending
    · exact ⟨_, by rw [hending], htrailing⟩
    · refine ⟨Text.trailing m.body ++ ['\r'], by rw [hending, List.append_assoc]; rfl, ?_⟩
      rw [List.all_append, htrailing]
      decide
  obtain ⟨blanks, hlineEnd, hall⟩ := hblanks
  rw [hlineEnd, ← List.cons_append, ← List.append_assoc] at heq
  refine ⟨j.before, blanks, (List.append_cancel_right heq).symm, hall, ?_⟩
  rw [nodesAfter_statement hstarts] at hs
  rw [span_of_mem_nodesAfter hs, hbefore, Text.bytes_append _ x]
  exact Nat.le_add_right _ _

/-- In a task only the content goes on over the end of a line. -/
theorem mem_embeddedCode_of_task {h : TaskHeader} {ps front back : List Piece} {inside : List Char}
    (hps : ps = front ++ (content h.contentKind inside).1 ++ back)
    (hfront : ∀ k t, .token k t ∈ front → '\n' ∉ t) (hback : ∀ k t, .token k t ∈ back → '\n' ∉ t)
    {c : Node} (hc : c ∈ nodesAfter pre ps) {u : String} (htext : c.text? = some u) (hu : '\n' ∈ u.toList)
    (r : Range) (source : List Char) :
    (h.language, c.range) ∈ Node.embeddedCode source (.branch h.kind r (nodesAfter pre ps)) := by
  have hkind : c.kind = h.contentKind := by
    obtain ⟨t, ht, rfl⟩ := Piece.exists_token_of_text? hc htext
    rw [String.toList_ofList] at hu
    rw [hps, List.mem_append, List.mem_append] at ht
    rcases ht with (ht | ht) | ht
    · exact absurd hu (hfront _ _ ht)
    · unfold content at ht
      dsimp only at ht
      split at ht
      · cases ht
      · rcases List.mem_cons.1 ht with ht | ht
        · cases ht
        · exact (Piece.token.inj (List.mem_singleton.1 ht)).1
    · exact absurd hu (hback _ _ ht)
  have hcode : Node.embeddedCode source (.branch h.kind r (nodesAfter pre ps))
      = ((nodesAfter pre ps).filter (·.kind == h.contentKind)).map fun body => (h.language, body.range) := by
    obtain ⟨_ | _, front⟩ := h <;> rfl
  rw [hcode]
  exact List.mem_map.2 ⟨c, List.mem_filter.2 ⟨hc, by simp [hkind]⟩, rfl⟩

/-- What stands in a task has no parts. -/
theorem content?_of_mem_task {h : TaskHeader} {cs : List Char} (hh : TaskHeader.read? cs = some h)
    {ps back : List Piece} {brace : Piece} {inside : List Char}
    (hps : ps = h.front ++ [brace] ++ (content h.contentKind inside).1 ++ back)
    (hbrace : kind? brace ∈ [some .error, some .punctuation])
    (hback : ∀ q ∈ back, kind? q ∈ [none, some .punctuation]) {c : Node} (hc : c ∈ nodesAfter pre ps) :
    c.kind.content? = none := by
  have hleaf : ∀ k ∈ [some .error, some .shellContent, some .pythonContent] ++ headerKinds,
      k.all (·.content?.isNone) = true := by decide
  have hkind : ∀ q ∈ ps, kind? q ∈ [some .error, some .shellContent, some .pythonContent] ++ headerKinds := by
    rw [hps]
    simp only [List.forall_mem_append]
    refine ⟨⟨⟨fun q hq => ?_, List.forall_mem_singleton.2 ?_⟩, ?_⟩, fun q hq => ?_⟩
    · exact List.mem_append_right _ (kind?_taskHeader hh q hq)
    · exact (by decide : [some .error, some .punctuation] ⊆
        [some .error, some .shellContent, some .pythonContent] ++ headerKinds) hbrace
    · unfold content TaskHeader.contentKind
      dsimp only
      split
      · exact List.forall_mem_nil _
      · split <;> simp [kind?, headerKinds]
    · exact (by decide : [none, some .punctuation] ⊆
        [some .error, some .shellContent, some .pythonContent] ++ headerKinds) (hback q hq)
  have hmem : some c.kind ∈ [some .error, some .shellContent, some .pythonContent] ++ headerKinds := by
    rcases Piece.exists_of_mem_nodes hc with ⟨t, ht, -⟩ | ⟨inside, -, hg, -⟩
    · exact hkind _ ht
    · exact hkind _ hg
  exact Option.isNone_iff_eq_none.1 (hleaf _ hmem)

/-- In a task a word over the end of a line is the content. -/
theorem exists_code_of_task {h : TaskHeader} {cs : List Char} (hh : TaskHeader.read? cs = some h)
    (hcs : '\n' ∉ cs) {ps back : List Piece} {brace : Kind} {inside : List Char}
    (hps : ps = h.front ++ [.token brace ['{']] ++ (content h.contentKind inside).1 ++ back)
    (hbrace : brace = .error ∨ brace = .punctuation)
    (hback : ∀ q ∈ back, kind? q = none ∨ q = Piece.mark '}') (r : Range)
    (hfits : ∀ n ∈ (Node.branch h.kind r (nodesAfter pre ps)).preorder, n.FitsContent) {y : Node}
    (hy : y ∈ (Node.branch h.kind r (nodesAfter pre ps)).preorder)
    (hword : y.kind = .variableExpansion ∨ ∃ u, y.text? = some u ∧ '\n' ∈ u.toList)
    (source : List Char) :
    (h.language, y.range) ∈ Node.embeddedCode source (.branch h.kind r (nodesAfter pre ps)) := by
  have hfront : ∀ k t, .token k t ∈ h.front ++ [.token brace ['{']] → '\n' ∉ t := by
    have htext := (reads_taskHeader? hh []).eq_append
    rw [List.append_nil] at htext
    intro k t ht hmem
    rcases List.mem_append.1 ht with ht | ht
    · exact hcs (htext ▸ List.mem_append_left _ (Piece.subset_textAll ht hmem))
    · rw [(Piece.token.inj (List.mem_singleton.1 ht)).2] at hmem
      exact absurd hmem (by decide)
  have hmark : ∀ k t, .token k t ∈ back → '\n' ∉ t := by
    intro k t ht
    rcases hback _ ht with hk | hk
    · cases hk
    · rw [(Piece.token.inj hk).2]
      decide
  rcases List.mem_cons.1 hy with rfl | hy
  · -- The task itself is no word.
    rcases hword with hword | ⟨u, hu, -⟩
    · have hkind : h.kind ≠ .variableExpansion := by
        unfold TaskHeader.kind
        split <;> decide
      exact absurd hword hkind
    · cases hu
  · obtain ⟨c, hc, hyc⟩ := Node.exists_of_mem_preorderAll hy
    have hleaf : c.kind.content? = none := by
      refine content?_of_mem_task hh hps ?_ (fun q hq => ?_) hc
      · rcases hbrace with rfl | rfl <;> simp [kind?]
      · rcases hback q hq with hk | rfl
        · simp [hk]
        · simp [kind?, Piece.mark]
    have hmem : c ∈ (Node.branch h.kind r (nodesAfter pre ps)).preorder :=
      List.mem_cons_of_mem _ (Node.mem_preorderAll_of_mem hc)
    obtain ⟨v, hv⟩ := (hfits c hmem).exists_text hleaf
    rw [Node.preorder_eq, Node.children_of_text? hv] at hyc
    obtain rfl := List.mem_singleton.1 hyc
    rcases hword with hword | ⟨u, hu, hmem⟩
    · rw [hword] at hleaf
      cases hleaf
    · exact mem_embeddedCode_of_task hps hfront hmark hc hu hmem r source

/-- A word that goes on over the end of a line is embedded code, or in it, unless a statement begins on
the line. -/
theorem exists_code_of_mem_block (hl : '\n' ∉ l.body) (hs : s ∈ nodesAfter pre (block l ls).pieces)
    (hstarts : ¬ StartsStatement (Text.splitTrim l.body).core)
    (hfits : ∀ n ∈ s.preorder, n.FitsContent) {y : Node} (hy : y ∈ s.preorder)
    (hword : y.kind = .variableExpansion ∨ ∃ u, y.text? = some u ∧ '\n' ∈ u.toList)
    (source : List Char) :
    ∃ language, (language, y.range) ∈ s.embeddedCode source ∨ (language, s.range) ∈ s.embeddedCode source := by
  have hcore : '\n' ∉ (Text.splitTrim l.body).core := by
    intro hmem
    refine hl ?_
    rw [← Text.splitTrim_append l.body]
    exact List.mem_append_right _ (List.mem_append_left _ hmem)
  unfold block at hs
  dsimp only at hs
  split at hs
  · cases hs
  rename_i hne
  split at hs
  · -- A comment is one leaf on its line.
    rw [Piece.nodesAfter_gap, Piece.nodesAfter_token, Piece.nodesAfter_gap, Piece.nodesAfter_nil] at hs
    rw [List.mem_singleton.1 hs, Node.preorder] at hy
    rw [List.mem_singleton.1 hy] at hword
    rcases hword with hword | ⟨u, hu, hmem⟩
    · cases hword
    · rw [← Option.some.inj hu, String.toList_ofList] at hmem
      exact absurd hmem hcore
  rename_i hcomment
  split at hs
  · rename_i h hh
    unfold taskBlock at hs
    dsimp only at hs
    split at hs
    · unfold closedTask at hs
      dsimp only at hs
      rw [Piece.nodesAfter_gap, Piece.nodesAfter_group, Piece.nodesAfter_gap, Piece.nodesAfter_nil] at hs
      obtain rfl := List.mem_singleton.1 hs
      exact ⟨h.language, .inl (exists_code_of_task hh hcore rfl (.inr rfl) (by simp [kind?]) _ hfits hy
        hword source)⟩
    · unfold openTask at hs
      dsimp only at hs
      rw [Piece.nodesAfter_gap, Piece.nodesAfter_group, Piece.nodesAfter_gap, Piece.nodesAfter_nil] at hs
      obtain rfl := List.mem_singleton.1 hs
      exact ⟨h.language, .inl (exists_code_of_task hh hcore (List.append_nil _).symm (.inl rfl)
        (List.forall_mem_nil _) _ hfits hy hword source)⟩
  rename_i htask
  split at hs
  · rw [definitionBlock] at hs
    dsimp only at hs
    rw [Piece.nodesAfter_gap, Piece.nodesAfter_group, Piece.nodesAfter_gap, Piece.nodesAfter_nil] at hs
    rw [List.mem_singleton.1 hs]
    exact ⟨.python, .inr (List.mem_singleton_self _)⟩
  · rename_i hdefinition
    exact absurd ⟨by simpa using hne, hcomment, htask, hdefinition⟩ hstarts

/-- Inline code of a block is laid out from a piece of inline code. -/
theorem exists_inline_of_mem_block (hs : s ∈ nodesAfter pre (block l ls).pieces)
    (hfits : s.FitsContent) (hk : s.kind ∉ Kind.ofCode) {i : Node} (hi : i ∈ Node.inlines [s]) :
    ∃ front code, nodesAfter front [inlinePiece code] = [i] := by
  by_cases hstarts : StartsStatement (Text.splitTrim l.body).core
  · rw [nodesAfter_statement hstarts] at hs
    obtain ⟨j, -, hj⟩ := List.mem_map.1 (kind?_read (logicalLine l.unindented ls).text)
    obtain ⟨n, hn, -⟩ := Piece.exists_node hj.symm (pre ++ (Text.splitTrim l.body).before)
    rw [hn] at hs
    rw [List.mem_singleton.1 hs, ← hn] at hi
    obtain ⟨front, code, -, -, hnode⟩ := Node.exists_of_mem_inlines (inlines_read _) _ hi
    exact ⟨_, code, hnode⟩
  · have hkind : s.kind ∈ (nodesAfter pre (block l ls).pieces).map Node.kind := List.mem_map_of_mem hs
    rw [nodesAfter, Piece.map_kind_nodes] at hkind
    -- A comment has no parts.
    have hcomment : s.kind = .comment := (List.mem_cons.1 (kinds_block hstarts ls hkind)).resolve_right hk
    obtain ⟨u, hu⟩ := hfits.exists_text (by rw [hcomment]; rfl)
    obtain ⟨hmem, hinline⟩ := List.mem_filter.1 hi
    rw [Node.preorderAll, Node.preorder_eq, Node.children_of_text? hu] at hmem
    rw [List.mem_singleton.1 hmem, hcomment] at hinline
    cases hinline

end LineFeeds

end Grammar

/-! ## Words at a position -/

namespace Node

variable {source : List Char} {n : Node}

theorem WellPlaced.contains_position_iff (h : n.WellPlaced source) {o : Nat} (ho : o ≤ bytes source) :
    n.range.contains ((LineTable.ofText source).position o) = true ↔
      n.range.span.start ≤ o ∧ o < n.range.span.stop := by
  rw [Range.contains_iff, h.start_eq_position, h.stop_eq_position]
  refine and_congr ⟨fun hle => ?_, fun hle => LineTable.position_le hle ho⟩
    ⟨fun hlt => ?_, fun hlt => LineTable.position_lt hlt h.stop_le_bytes⟩
  · refine Nat.not_lt.1 fun hlt => ?_
    exact Position.not_le_of_lt (LineTable.position_lt hlt h.start_le_bytes) hle
  · refine Nat.not_le.1 fun hle => ?_
    exact Position.not_le_of_lt hlt (LineTable.position_le hle ho)

/-- A leaf has the characters of its span. -/
theorem WellPlaced.mem_text (h : n.WellPlaced source) {u : String} (hu : n.text? = some u)
    {p q : List Char} {c : Char} (hsource : source = p ++ c :: q) (hstart : n.range.span.start ≤ bytes p)
    (hstop : bytes p < n.range.span.stop) : c ∈ u.toList := by
  obtain ⟨pre, post, htext, hrange⟩ := h.covers_text hu
  simp only [hrange, Cursor.rangeTo, Cursor.offset_after] at hstart hstop
  obtain ⟨m, rfl, hm⟩ := Text.exists_between (htext.symm.trans hsource) hstart
  rcases Grammar.append_eq_append_cons hm with ⟨d, hd, -⟩ | ⟨d, rfl, -⟩
  · rw [hd]
    exact List.mem_append_right _ List.mem_cons_self
  · simp only [Text.bytes_append] at hstop
    omega

/-- Of two nodes at a position one is below the other. -/
theorem mem_preorder_or_mem_preorder {root a b : Node} (h : ∀ m ∈ root.preorder, m.WellPlaced source)
    (ha : a ∈ root.preorder) (hb : b ∈ root.preorder) {p : Position} (hap : a.range.contains p = true)
    (hbp : b.range.contains p = true) : b ∈ a.preorder ∨ a ∈ b.preorder := by
  obtain ⟨u, hu⟩ := exists_follow ha
  obtain ⟨v, hv⟩ := exists_follow hb
  have hup := (prefix_pathTo_iff h).2 ⟨a, hu, .inr hap⟩
  have hvp := (prefix_pathTo_iff h).2 ⟨b, hv, .inr hbp⟩
  rcases List.prefix_or_prefix_of_prefix hup hvp with ⟨rest, rfl⟩ | ⟨rest, rfl⟩
  · rw [follow_append, hu, Option.bind_some] at hv
    exact .inl (mem_preorder_of_follow hv)
  · rw [follow_append, hv, Option.bind_some] at hu
    exact .inr (mem_preorder_of_follow hu)

/-- The trimmed range of a well-placed leaf covers the text of the leaf without the blanks around
it, and lies within the range of the leaf. -/
theorem WellPlaced.covers_of_trimmed? (h : n.WellPlaced source) {u : String} (hu : n.text? = some u)
    {r : Range} (hr : n.range.trimmed? source = some r) :
    r.Covers source (Text.splitTrim u.toList).core ∧ n.range.span.start ≤ r.span.start ∧
      r.span.stop ≤ n.range.span.stop := by
  obtain ⟨pre, post, rfl, hrange⟩ := h.covers_text hu
  have hafter : n.range = .after pre u.toList := hrange
  have hsplit := Text.splitTrim_append u.toList
  rw [hafter, Range.trimmed?_after, Range.core?] at hr
  split at hr
  · cases hr
  · cases hr
    have hsize := congrArg bytes hsplit
    simp only [Text.bytes_append] at hsize
    refine ⟨⟨pre ++ (Text.splitTrim u.toList).before, (Text.splitTrim u.toList).after ++ post, ?_, rfl⟩,
      ?_, ?_⟩
    · conv_lhs => rw [← hsplit]
      simp only [List.append_assoc]
    · simp [hafter, Text.bytes_append]
    · simp only [hafter, Range.stop_after, Text.bytes_append]
      omega

end Node

namespace Document

/-- A symbol that is found at a position is named by an expansion or a leaf there. -/
theorem exists_word {d : Document} {cs : List Char} (hroot : d.tree.root? = some (rootNode cs))
    {p : Position} {s : Symbol} (h : d.definition? p = some s) :
    ∃ y ∈ (rootNode cs).preorder, y.range.contains p = true ∧ (y.kind = .variableExpansion ∨
      ∃ u, y.text? = some u ∧ d.declarations.get? (Text.trimString u) = some s) := by
  by_cases hx : ∃ x, d.ExpansionAt p x
  · obtain ⟨x, hmem, hkind, hcontains⟩ := hx
    obtain ⟨root, hr, hmem⟩ := Tree.mem_nodes.1 hmem
    obtain rfl : rootNode cs = root := Option.some.inj (hroot.symm.trans hr)
    exact ⟨x, hmem, hcontains, .inl hkind⟩
  · obtain ⟨n, hn, hfollow, hp⟩ := exists_nodeAt? hroot p
    rw [definition?, wordNode?_of_no_expansion hroot (not_exists.1 hx), hn] at h
    obtain ⟨w, hw, hs⟩ := Option.bind_eq_some_iff.1 h
    obtain rfl : n = w := Option.some.inj (Option.eq_some_of_filter_eq_some hw)
    obtain ⟨u, hu, hget⟩ := Option.bind_eq_some_iff.1 hs
    refine ⟨n, Node.mem_preorder_of_follow hfollow, hp.resolve_left ?_, .inr ⟨u, hu, hget⟩⟩
    rintro rfl
    cases hu

end Document

/-! ## Code that ends with its line -/

/-- Below a leaf is nothing but the leaf. -/
theorem Node.eq_of_mem_preorder {n m : Node} (h : m ∈ n.preorder) {u : String} (hu : n.text? = some u) :
    m = n := by
  rw [preorder_eq, children_of_text? hu] at h
  exact List.mem_singleton.1 h

/-- A word over the end of a line that is in inline code is all of the code. -/
theorem Node.text?_of_inline {cs : List Char} {i y : Node} (hi : i ∈ (rootNode cs).preorder)
    (hy : y ∈ (rootNode cs).preorder) {front code : List Char}
    (hnode : nodesAfter front [Grammar.inlinePiece code] = [i])
    (hword : y.kind = .variableExpansion ∨ ∃ u, y.text? = some u ∧ '\n' ∈ u.toList)
    (hkind : i.kind = .inlinePython) {p : Position}
    (hip : i.range.contains p = true) (hyp : y.range.contains p = true) :
    y.text? = some (String.ofList code) := by
  obtain ⟨htext, -, hchildren⟩ := mem_children_inline hnode
  have hne : y ≠ i := by
    rintro rfl
    rcases hword with hword | ⟨u, hu, -⟩
    · rw [hword] at hkind
      cases hkind
    · rw [htext] at hu
      cases hu
  rcases mem_preorder_or_mem_preorder (fun m => wellPlaced_rootNode cs) hi hy hip hyp with hbelow | hbelow
  · rw [preorder_eq] at hbelow
    obtain ⟨c, hc, hyc⟩ := exists_of_mem_preorderAll ((List.mem_cons.1 hbelow).resolve_left hne)
    -- The braces around the code are on one line.
    have hbrace : ∀ {r : Range} {u : List Char}, '\n' ∉ u →
        y ≠ .leaf .punctuation r (String.ofList u) := by
      rintro r u hu rfl
      rcases hword with hword | ⟨v, hv, hmem⟩
      · cases hword
      · rw [← Option.some.inj hv, String.toList_ofList] at hmem
        exact hu hmem
    rcases hchildren c hc with rfl | rfl | rfl
    · exact absurd (eq_of_mem_preorder hyc rfl) (hbrace (by decide))
    · rw [eq_of_mem_preorder hyc rfl]
      rfl
    · exact absurd (eq_of_mem_preorder hyc rfl) (hbrace (by decide))
  · rcases hword with hword | ⟨u, hu, -⟩
    · rw [preorder_eq] at hbelow
      obtain ⟨c, hc, hic⟩ := exists_of_mem_preorderAll ((List.mem_cons.1 hbelow).resolve_left hne.symm)
      have hfits : ∀ m ∈ y.preorder, m.FitsContent := fun m hm =>
        fitsContent_rootNode cs m (preorder_subset hy hm)
      obtain ⟨-, v, hv⟩ := exists_text_of_mem_expansion hfits hword hc
      rw [eq_of_mem_preorder hic hv, hv] at htext
      cases htext
    · exact absurd (eq_of_mem_preorder hbelow hu).symm hne

section RegionStop

variable {limit : Nat} {source : String} {t : Tree} (ht : parse limit source = .ok t) {r : Region}
  (hr : r ∈ t.regions)

include ht hr

/-- No code goes on where a region ends. -/
theorem Tree.not_contains_region_stop {s : Node} (hs : s ∈ t.statements) {code : Language × Range}
    (hcode : code ∈ s.embeddedCode source.toList) : code.2.contains r.range.stop = false := by
  have hembeds := embeds_of_parse ht
  have hsource : t.source = source := by rw [(of_parse ht).2]
  obtain ⟨-, body, hbody, hsolid⟩ := hembeds.solid r hr
  have hmem : code ∈ t.regions.map fun r => (r.language, r.range) := by
    rw [hembeds.code, hsource]
    exact List.mem_flatMap.2 ⟨s, hs, hcode⟩
  obtain ⟨r', hr', rfl⟩ := List.mem_map.1 hmem
  refine Bool.eq_false_iff.2 fun hcontains => ?_
  obtain ⟨hstart, hstop⟩ := Range.contains_iff.1 hcontains
  have htouches : r'.range.touches r.range.stop = true :=
    Range.touches_iff.2 ⟨hstart, Position.le_of_lt hstop⟩
  have hself : r.range.touches r.range.stop = true := by
    refine Range.touches_iff.2 ⟨?_, Position.le_refl _⟩
    obtain ⟨pre, post, -, hrange⟩ := hbody
    rw [hrange, Cursor.rangeTo, ← Cursor.advance_after]
    exact Cursor.position_le_advance _ _
  rw [hembeds.eq_of_touches hr' hr htouches hself] at hstop
  exact Position.not_le_of_lt hstop (Position.le_refl _)

end RegionStop

section Statements

variable {limit : Nat} {source : String} {t : Tree} (ht : parse limit source = .ok t)

include ht

/-- Every statement of a text is read from a block of its lines. -/
theorem Tree.exists_block {s : Node} (hs : s ∈ t.statements) : ∃ front l ms,
    (l :: ms) <:+ Grammar.Line.ofTexts (Text.lines source.toList) ∧ '\n' ∉ l.body ∧
    source.toList = front ++ Grammar.Line.textAll (l :: ms) ∧
    s ∈ nodesAfter front (Grammar.block l ms).pieces := by
  rw [statements_of_parse ht] at hs
  obtain ⟨front, l, ms, hsuffix, htext, hs⟩ := Grammar.exists_block (Grammar.terminated_ofTexts _) hs
  rw [List.nil_append, Grammar.textAll_ofTexts_lines] at htext
  refine ⟨front, l, ms, hsuffix, ?_, htext, hs⟩
  exact Grammar.not_mem_body (fun _ => Text.not_mem_of_mem_lines) l (hsuffix.subset List.mem_cons_self)

/-- Declared names are braced. -/
theorem Declarations.braced_of_get? {uri : Uri} {name : String} {s : Symbol}
    (h : (ofTree uri t).get? name = some s) : Grammar.Braced name.toList := by
  obtain ⟨front, n, back, hns, hn, rfl, -⟩ := exists_last h
  obtain ⟨m, hm, -, hname⟩ := Symbol.exists_of_ofStatement? hn
  have hmem : n ∈ t.statements := hns ▸ List.mem_append_right _ List.mem_cons_self
  obtain ⟨pre, l, ms, -, -, -, hblock⟩ := Tree.exists_block ht hmem
  obtain ⟨u, hu, hbraced⟩ := Grammar.braced_of_declaredName? (Grammar.declares_block l ms) hblock hm
  rw [hname, hu, Option.getD_some, String.toList_ofList]
  exact hbraced

/-- Of two statements with a byte in common there is only one. -/
theorem Tree.eq_of_span {s s' : Node} (hs : s ∈ t.statements) (hs' : s' ∈ t.statements) {o : Nat}
    (hstart : s.range.span.start ≤ o) (hstop : o < s.range.span.stop)
    (hstart' : s'.range.span.start ≤ o) (hstop' : o < s'.range.span.stop) : s = s' := by
  obtain ⟨-, rfl⟩ := of_parse ht
  have hordered := (wellPlaced_rootNode source.toList (Node.self_mem_preorder _)).children_ordered
  have happart : (rootNode source.toList).children.Pairwise fun c d =>
      c.range.span.stop ≤ d.range.span.start ∨ d.range.span.stop ≤ c.range.span.start :=
    hordered.imp Or.inl
  have hsymm : Std.Symm fun c d : Node =>
      c.range.span.stop ≤ d.range.span.start ∨ d.range.span.stop ≤ c.range.span.start :=
    ⟨fun _ _ => Or.symm⟩
  by_contra hne
  have hcases := happart.forall hs hs' hne
  omega

end Statements

/-- The code of a task or a definition stands in it. -/
theorem Node.inside_of_mem_embeddedCode {cs : List Char} {s : Node} (hs : s.WellPlaced cs)
    (hk : s.kind ∈ Kind.ofCode) {code : Language × Range} (hcode : code ∈ s.embeddedCode cs) :
    s.range.span.start ≤ code.2.span.start ∧ code.2.span.stop ≤ s.range.span.stop := by
  have hchild : ∀ {k : Kind} {language : Language},
      code ∈ (s.childrenOfKind k).map (fun content => (language, content.range)) →
      s.range.span.start ≤ code.2.span.start ∧ code.2.span.stop ≤ s.range.span.stop := by
    intro k language hcode
    obtain ⟨c, hc, rfl⟩ := List.mem_map.1 hcode
    exact hs.children_inside c (List.mem_filter.1 hc).1
  unfold embeddedCode at hcode
  split at hcode
  · exact hchild hcode
  · exact hchild hcode
  · rw [List.mem_singleton.1 hcode]
    exact ⟨Nat.le_refl _, Nat.le_refl _⟩
  · rename_i hshell hpython hdefinition
    simp only [Kind.ofCode, List.mem_cons, List.not_mem_nil, or_false] at hk
    rcases hk with hk | hk | hk
    · exact absurd hk hshell
    · exact absurd hk hpython
    · exact absurd hk hdefinition

/-- A text that ends where a line is joined to the next one ends with the backslash, unless it ends with a
blank. -/
theorem Range.Covers.getLast?_of_backslash {r : Range} {source body p q u blanks : List Char}
    (hbody : r.Covers source body) (hends : Text.EndsSolid body) (hsource : source = p ++ q)
    (hstop : r.span.stop = bytes p) (hp : p = u ++ '\\' :: blanks) (hblanks : blanks.all Text.isBlank = true) :
    blanks = [] ∧ body.getLast? = some '\\' := by
  obtain ⟨pre, post, htext, rfl⟩ := hbody
  obtain ⟨c, hc, hsolid⟩ := hends
  have hsize : bytes (pre ++ body) = bytes p := by
    rw [← hstop, Cursor.rangeTo, Cursor.offset_after (pre ++ body)]
  have heq : pre ++ body = p := by
    rw [htext, ← List.append_assoc] at hsource
    obtain ⟨m, hm, -⟩ := Text.exists_between hsource (Nat.le_of_eq hsize)
    rw [hm, Text.bytes_append _ m] at hsize
    rw [hm, Text.bytes_eq_zero.1 (by omega : bytes m = 0), List.append_nil]
  have hlast : p.getLast? = some c := by
    rw [← heq, List.getLast?_append, hc]
    rfl
  rw [hp, List.getLast?_append] at hlast
  cases hb : blanks.getLast? with
  | none =>
    have hnil := List.getLast?_eq_none_iff.1 hb
    subst hnil
    exact ⟨rfl, hc.trans hlast.symm⟩
  | some d =>
    rw [List.getLast?_cons, hb] at hlast
    have hblank := List.all_eq_true.1 hblanks d (List.mem_of_getLast? hb)
    obtain rfl : d = c := Option.some.inj hlast
    rw [hblank] at hsolid
    cases hsolid

namespace Document

section RegionStop

variable {limit : Nat} {source : String} {t : Tree} (ht : parse limit source = .ok t) {uri : Uri}
  {r : Region} (hr : r ∈ t.regions) {p q : List Char} (hsource : source.toList = p ++ '\n' :: q)
  (hstop : r.range.span.stop = bytes p)

include ht hr hsource hstop

theorem stop_eq_position_of_region :
    r.range.stop = (LineTable.ofText source.toList).position (bytes p) ∧ bytes p ≤ bytes source.toList := by
  obtain ⟨-, body, hbody, -⟩ := (Tree.embeds_of_parse ht).solid r hr
  rw [show t.source = source by rw [(of_parse ht).2]] at hbody
  refine ⟨hstop ▸ hbody.stop_eq_position, ?_⟩
  rw [hsource, Text.bytes_append]
  exact Nat.le_add_right _ _

/-- A word over the end of a line at which a region ends is in a statement that is joined there. -/
theorem exists_backslash_of_word {s y : Node} (hs : s ∈ t.statements) (hy : y ∈ s.preorder)
    (hword : y.kind = .variableExpansion ∨ ∃ u, y.text? = some u ∧ '\n' ∈ u.toList)
    (hyp : y.range.contains r.range.stop = true) : s.kind ∉ Kind.ofCode ∧
      bytes p < s.range.span.stop ∧ ∃ u blanks, p = u ++ '\\' :: blanks ∧
      blanks.all Text.isBlank = true ∧ s.range.span.start ≤ bytes u := by
  obtain ⟨hposition, hle⟩ := stop_eq_position_of_region ht hr hsource hstop
  have hnodes : ∀ n ∈ s.preorder, n ∈ (rootNode source.toList).preorder := by
    obtain ⟨-, rfl⟩ := of_parse ht
    exact fun n hn => preorder_subset_rootNode hs hn
  have hplaced : ∀ n ∈ s.preorder, n.WellPlaced source.toList := fun n hn =>
    wellPlaced_rootNode _ (hnodes n hn)
  have hsp : s.range.contains r.range.stop = true := by
    obtain ⟨hfirst, hlast⟩ := Node.inside_of_mem_preorder hplaced hy
    exact (hplaced s s.self_mem_preorder).contains_of_inside (hplaced y hy) hfirst hlast hyp
  have hnone : ∀ {language : Language} {range : Range}, range.contains r.range.stop = true →
      (language, range) ∉ s.embeddedCode source.toList := by
    intro language range hcontains hcode
    rw [Tree.not_contains_region_stop ht hr hs hcode] at hcontains
    cases hcontains
  obtain ⟨front, l, ms, hsuffix, hl, htext, hblock⟩ := Tree.exists_block ht hs
  by_cases hstarts : Grammar.StartsStatement (Text.splitTrim l.body).core
  · rw [hposition, (hplaced s s.self_mem_preorder).contains_position_iff hle] at hsp
    obtain ⟨u, blanks, hp, hblanks, hstart⟩ := Grammar.exists_backslash_of_mem_block hsuffix hstarts
      hblock (htext.symm.trans hsource) hsp.1 hsp.2
    refine ⟨?_, hsp.2, u, blanks, hp, hblanks, hstart⟩
    have hkinds : ∀ k ∈ Grammar.statementKinds.map some, ∀ j ∈ Kind.ofCode, k ≠ some j := by decide
    rw [Grammar.nodesAfter_statement hstarts] at hblock
    obtain ⟨k, hk, hread⟩ := List.mem_map.1
      (Grammar.kind?_read (Grammar.logicalLine l.unindented ms).text)
    obtain ⟨n, hn, hkind⟩ := Piece.exists_node hread.symm (front ++ (Text.splitTrim l.body).before)
    rw [hn] at hblock
    rw [List.mem_singleton.1 hblock, hkind]
    exact fun hcode => hkinds _ (List.mem_map_of_mem hk) k hcode rfl
  · have hfits : ∀ n ∈ s.preorder, n.FitsContent := fun n hn => fitsContent_rootNode _ n (hnodes n hn)
    obtain ⟨language, hcode | hcode⟩ := Grammar.exists_code_of_mem_block hl hblock hstarts hfits hy hword
      source.toList
    · exact absurd hcode (hnone hyp)
    · exact absurd hcode (hnone hsp)

/-- A word over the end of a line at which a region ends is inline code, without the blanks around it the
code of the region, and ends with a backslash. -/
theorem text?_of_word {s y : Node} (hs : s ∈ t.statements) (hy : y ∈ s.preorder)
    (hword : y.kind = .variableExpansion ∨ ∃ u, y.text? = some u ∧ '\n' ∈ u.toList)
    (hyp : y.range.contains r.range.stop = true) :
    ∃ u, y.text? = some u ∧ (Text.splitTrim u.toList).core.getLast? = some '\\' := by
  have hembeds := Tree.embeds_of_parse ht
  obtain ⟨hlt, body, hbody, hsolid⟩ := hembeds.solid r hr
  have htree := (of_parse ht).2
  have htext : t.source = source := by rw [htree]
  rw [htext] at hbody
  obtain ⟨hcode, hlast, u, blanks, hp, hblanks, hfirst⟩ :=
    exists_backslash_of_word ht hr hsource hstop hs hy hword hyp
  obtain ⟨rfl, hbackslash⟩ := hbody.getLast?_of_backslash hsolid.ends hsource hstop hp hblanks
  have hsize : bytes p = bytes u + 1 := by
    rw [hp, Text.bytes_append]
    rfl
  have hmem : (r.language, r.range) ∈ t.statements.flatMap (Node.embeddedCode source.toList) := by
    rw [← htext, ← hembeds.code]
    exact List.mem_map_of_mem hr
  obtain ⟨s', hs', hcode'⟩ := List.mem_flatMap.1 hmem
  obtain ⟨hposition, hle⟩ := stop_eq_position_of_region ht hr hsource hstop
  have hnodes : ∀ {s : Node}, s ∈ t.statements → ∀ n ∈ s.preorder, n ∈ (rootNode source.toList).preorder := by
    intro s hs
    rw [htree] at hs
    exact fun n hn => preorder_subset_rootNode hs hn
  have hplaced : ∀ n ∈ s'.preorder, n.WellPlaced source.toList := fun n hn =>
    wellPlaced_rootNode _ (hnodes hs' n hn)
  by_cases hkind : s'.kind ∈ Kind.ofCode
  · -- The backslash would be in two statements.
    obtain ⟨hstart, hend⟩ := Node.inside_of_mem_embeddedCode (hplaced s' s'.self_mem_preorder) hkind hcode'
    dsimp only at hstart hend
    have heq := Tree.eq_of_span ht hs hs' (o := bytes u) hfirst (by omega) (by omega) (by omega)
    exact absurd (heq ▸ hkind) hcode
  · rw [(Candidate.ofStatement_eq_inline source.toList hkind).2] at hcode'
    obtain ⟨i, hi, hcontent⟩ := List.mem_flatMap.1 hcode'
    obtain ⟨c, hc, hmap⟩ := List.mem_filterMap.1 hcontent
    obtain ⟨range, hrange, heq⟩ := Option.map_eq_some_iff.1 hmap
    rw [(Prod.mk.inj heq).2] at hrange
    obtain ⟨_, l, ms, -, -, -, hblock⟩ := Tree.exists_block ht hs'
    have hfits := fitsContent_rootNode _ s' (hnodes hs' s' s'.self_mem_preorder)
    obtain ⟨front, code, hnode⟩ := Grammar.exists_inline_of_mem_block hblock hfits hkind hi
    obtain ⟨hi, hinline⟩ := List.mem_filter.1 hi
    rw [Node.preorderAll, Node.preorderAll, List.append_nil] at hi
    obtain ⟨hc, hck⟩ := List.mem_filter.1 hc
    have hcplaced := hplaced c (Node.mem_preorder_of_mem_children hi hc)
    obtain ⟨-, hirange, hchildren⟩ := Node.mem_children_inline hnode
    obtain rfl : c = .leaf .pythonContent (.after (front ++ ['$', '{', '@']) code) (String.ofList code) := by
      rcases hchildren c hc with rfl | rfl | rfl
      · cases hck
      · rfl
      · cases hck
    obtain ⟨hcore, hstart, hend⟩ := hcplaced.covers_of_trimmed? rfl hrange
    have hip : i.range.contains r.range.stop = true := by
      rw [hposition, (hplaced i hi).contains_position_iff hle, hirange, text_inlinePiece]
      simp only [Node.range, Range.start_after, Range.stop_after, Text.bytes_append] at hstart hend ⊢
      have hbraces : bytes ['$', '{', '@'] = 3 ∧ bytes ['}'] = 1 := by decide
      omega
    refine ⟨String.ofList code, ?_, ?_⟩
    · exact Node.text?_of_inline (hnodes hs' i hi) (hnodes hs y hy) hnode hword (by simpa using hinline)
        hip hyp
    · rw [Option.some.inj (hcore.slice.symm.trans hbody.slice)]
      exact hbackslash

end RegionStop

/-- No symbol is found where a region ends with its line. -/
theorem definition?_of_region_stop {limit : Nat} {source : String} {t : Tree}
    (ht : parse limit source = .ok t) (uri : Uri) {r : Region} (hr : r ∈ t.regions) {p q : List Char}
    (hsource : source.toList = p ++ q) (hstop : r.range.span.stop = bytes p)
    (hq : q = [] ∨ q.head? = some '\n') : (ofTree uri t).definition? r.range.stop = none := by
  rw [Option.eq_none_iff_forall_ne_some]
  intro symbol hsymbol
  have hroot : t.root? = some (rootNode source.toList) := by rw [(of_parse ht).2]
  obtain ⟨y, hy, hyp, hfound⟩ := exists_word (d := ofTree uri t) hroot hsymbol
  have hplaced := wellPlaced_rootNode source.toList hy
  obtain ⟨-, body, hbody, -⟩ := (Tree.embeds_of_parse ht).solid r hr
  rw [show t.source = source by rw [(of_parse ht).2]] at hbody
  have hsize : bytes source.toList = bytes p + bytes q := by rw [hsource, Text.bytes_append]
  have hspan := hyp
  rw [hbody.stop_eq_position, hstop, hplaced.contains_position_iff (by omega)] at hspan
  have hle := hplaced.stop_le_bytes
  obtain ⟨q, rfl⟩ : ∃ q', q = '\n' :: q' := by
    rcases hq with rfl | hq
    · rw [show bytes [] = 0 from rfl] at hsize
      omega
    · exact List.head?_eq_some_iff.1 hq
  have hword : y.kind = .variableExpansion ∨ ∃ u, y.text? = some u ∧ '\n' ∈ u.toList := by
    refine hfound.imp_right ?_
    rintro ⟨u, hu, -⟩
    exact ⟨u, hu, hplaced.mem_text hu hsource hspan.1 hspan.2⟩
  obtain ⟨s, hs, hys⟩ : ∃ s ∈ t.statements, y ∈ s.preorder := by
    rw [Node.preorder_eq] at hy
    rw [Tree.statements_eq hroot]
    refine Node.exists_of_mem_preorderAll ((List.mem_cons.1 hy).resolve_left ?_)
    rintro rfl
    rcases hword with hword | ⟨u, hu, -⟩
    · cases hword
    · cases hu
  obtain ⟨u, hu, hlast⟩ := text?_of_word ht hr hsource hstop hs hys hword hyp
  rcases hfound with hkind | ⟨v, hv, hget⟩
  · -- An expansion is no leaf.
    have hfits := fitsContent_rootNode source.toList y hy
    cases y with
    | leaf k range text =>
      obtain rfl : k = .variableExpansion := hkind
      cases hfits
    | branch k range children => cases hu
  · obtain rfl : u = v := Option.some.inj (hu.symm.trans hv)
    have hbraced := Declarations.braced_of_get? ht hget
    rw [Text.trimString, String.toList_ofList] at hbraced
    exact hbraced.getLast?_ne hlast

end Document

end Recipe
