import Recipe.Proofs.Grammar.Continuation
import Recipe.Proofs.Grammar.Joint
import Recipe.Proofs.Tree.Nodes

/-!
# Joined lines in trees

Lines are joined where a line ends in a backslash, blanks after it left aside, and the spacing of a
statement passes a backslash only if the line ends right after it. So the two agree on the places at
which lines are joined (`joints`) just where no blank stands between the backslash and the end of its
line. There the backslash is in no leaf, but for strings, names with brace groups, errors and paths that
take all that follows; elsewhere it is always in a leaf (`parse_joints`). A statement that goes on over the
end of a line does so at a joint, unless it is a task or a definition (`exists_joint_of_mem_document`).
-/

namespace Recipe

open Text (bytes)

/-! ## Leaves at a backslash -/

namespace Node

/-- A node stands in a string of the nodes. -/
def InString (ns : List Node) (n : Node) : Prop :=
  ∃ q ∈ preorderAll ns, q.kind = .string ∧ n ∈ q.preorder

theorem InString.mono {ms ns : List Node} {n : Node} (h : InString ms n)
    (hsub : preorderAll ms ⊆ preorderAll ns) : InString ns n := by
  obtain ⟨q, hq, hkind, hn⟩ := h
  exact ⟨q, hsub hq, hkind, hn⟩

/-- A leaf has a backslash at a byte, between the texts `a` and `b`. -/
structure HasBackslash (n : Node) (i : Nat) (a b : List Char) : Prop where
  text : n.text? = some (String.ofList (a ++ '\\' :: b))
  place : n.range.span.start + bytes a = i

theorem leavesAt_append (i : Nat) (ms ns : List Node) :
    leavesAt i (ms ++ ns) = leavesAt i ms ++ leavesAt i ns := by
  rw [leavesAt, preorderAll_append, List.filter_append]
  rfl

end Node

namespace Grammar

open Piece (locateAll textAll nodesAfter)

theorem bytes_backslash_cons (d : List Char) : bytes ('\\' :: d) = 1 + bytes d := by
  rw [Text.bytes_cons]
  rfl

/-- What is told of a backslash by the nodes of a text: if it continues its line, it is in strings and in
leaves that are allowed to have it, and otherwise it is in a leaf. -/
def Tells (P : Kind → List Char → List Char → Prop) (b : List Char) (i : Nat) (ns : List Node) : Prop :=
  (continues ('\\' :: b) = true → ∀ n ∈ Node.leavesAt i ns,
    Node.InString ns n ∨ ∃ x y, n.HasBackslash i x y ∧ P n.kind x y) ∧
  (continues ('\\' :: b) = false → Node.leavesAt i ns ≠ [])

section Tells

variable {P : Kind → List Char → List Char → Prop} {b : List Char} {i : Nat} {ms ns : List Node}

/-- What the nodes `ms` tell about the backslash at `i` is also told by nodes `ns` that have all
nodes of `ms` and the same leaves at `i`. -/
theorem Tells.mono (h : Tells P b i ms) (hleaves : Node.leavesAt i ns = Node.leavesAt i ms)
    (hsub : Node.preorderAll ms ⊆ Node.preorderAll ns) : Tells P b i ns := by
  refine ⟨fun hc n hn => ?_, fun hc => hleaves ▸ h.2 hc⟩
  exact (h.1 hc n (hleaves ▸ hn)).imp_left fun hstring => hstring.mono hsub

theorem Tells.append_left (h : Tells P b i ms) (hn : Node.leavesAt i ns = []) :
    Tells P b i (ms ++ ns) := by
  refine h.mono ?_ ?_
  · rw [Node.leavesAt_append, hn, List.append_nil]
  · rw [Node.preorderAll_append]
    exact List.subset_append_left _ _

theorem Tells.append_right (h : Tells P b i ns) (hm : Node.leavesAt i ms = []) :
    Tells P b i (ms ++ ns) := by
  refine h.mono ?_ ?_
  · rw [Node.leavesAt_append, hm, List.nil_append]
  · rw [Node.preorderAll_append]
    exact List.subset_append_right _ _

theorem Tells.branch (h : Tells P b i ms) (k : Kind) (r : Range) : Tells P b i [.branch k r ms] := by
  refine h.mono ?_ ?_
  · rw [Node.leavesAt_branch, Node.leavesAt_nil, List.append_nil]
  · rw [Node.preorderAll, Node.preorder, Node.preorderAll, List.append_nil]
    exact List.subset_cons_self _ _

/-- In a string every leaf is allowed to have the backslash. -/
theorem Tells.string (h : Tells (fun _ _ _ => True) b i ms) (r : Range) :
    Tells P b i [.branch .string r ms] := by
  have hleaves : Node.leavesAt i [.branch .string r ms] = Node.leavesAt i ms := by
    rw [Node.leavesAt_branch, Node.leavesAt_nil, List.append_nil]
  refine ⟨fun _ n hn => .inl ⟨_, Node.mem_preorderAll_of_mem List.mem_cons_self, rfl, ?_⟩,
    fun hc => hleaves ▸ h.2 hc⟩
  rw [hleaves] at hn
  exact List.mem_cons_of_mem _ (List.mem_filter.1 hn).1

/-- Nodes of a group and the pieces after it tell about a backslash, if the group does when the
backslash is inside it and the pieces do when it is after it. -/
theorem tells_group {k : Kind} {inside ps : List Piece} {cs mid rest : List Char}
    (hi : Reads inside cs mid) (h : Reads ps mid rest) (pre : List Char) {a : List Char} (hcs : cs = a ++ '\\' :: b)
    (hin : bytes a < bytes (textAll (.group k inside :: ps)))
    (hinside : bytes a < bytes (textAll inside) → ∀ r, Tells P b (bytes (pre ++ a))
      [.branch k r (nodesAfter pre inside)])
    (hafter : ∀ d, mid = d ++ '\\' :: b → bytes d < bytes (textAll ps) →
      Tells P b (bytes (pre ++ textAll inside ++ d)) (nodesAfter (pre ++ textAll inside) ps)) :
    Tells P b (bytes (pre ++ a)) (nodesAfter pre (.group k inside :: ps)) := by
  rw [nodesAfter, Piece.nodes_group, ← nodesAfter, ← nodesAfter, ← List.singleton_append]
  have htext := hi.eq_append
  rw [hcs] at htext
  rw [textAll, Piece.text, Text.bytes_append] at hin
  rcases append_eq_append_cons htext.symm with ⟨d, hd, -⟩ | ⟨d, rfl, hmid⟩
  · have hlt : bytes a < bytes (textAll inside) := by
      rw [hd, Text.bytes_append, bytes_backslash_cons]
      omega
    have hbefore : bytes (pre ++ a) < bytes (pre ++ textAll inside) := by
      simp only [Text.bytes_append]
      omega
    exact (hinside hlt _).append_left (h.leavesAt_outside _ (.inl hbefore))
  · rw [Text.bytes_append] at hin
    have hrest := hafter d hmid (by omega)
    rw [List.append_assoc] at hrest
    have hpast : bytes (pre ++ textAll inside) ≤ bytes (pre ++ (textAll inside ++ d)) := by
      simp only [Text.bytes_append]
      omega
    have hnone : Node.leavesAt (bytes (pre ++ (textAll inside ++ d))) (nodesAfter pre inside) = [] :=
      hi.leavesAt_outside pre (.inr hpast)
    refine hrest.append_right ?_
    rw [Node.leavesAt_branch, hnone]
    rfl

end Tells

/-- The nodes of scanned pieces tell every backslash of their text. -/
theorem Scans.tells {P : Kind → List Char → List Char → Prop} {ps : List Piece} {cs rest : List Char}
    (h : Scans P ps cs rest) (pre : List Char) {a b : List Char} (hcs : cs = a ++ '\\' :: b)
    (hin : bytes a < bytes (textAll ps)) : Tells P b (bytes (pre ++ a)) (nodesAfter pre ps) := by
  induction h generalizing pre a b with
  | nil => exact absurd hin (Nat.not_lt_zero _)
  | @token P k t ps cs rest ht h ih =>
    rcases append_eq_append_cons hcs with ⟨d, rfl, rfl⟩ | ⟨d, rfl, rfl⟩
    · -- The backslash is in the token.
      have hinside : bytes (pre ++ a) < bytes (pre ++ (a ++ '\\' :: d)) := by
        simp only [Text.bytes_append, bytes_backslash_cons]
        omega
      have hleaf : Node.leavesAt (bytes (pre ++ a)) (nodesAfter pre (.token k (a ++ '\\' :: d) :: ps))
          = [.leaf k ((Cursor.after pre).rangeTo (.after (pre ++ (a ++ '\\' :: d))))
              (String.ofList (a ++ '\\' :: d))] := by
        rw [nodesAfter, Piece.nodes_token, Node.leavesAt_leaf, h.reads.leavesAt_outside _ (.inl hinside),
          List.append_nil, if_pos]
        simp only [Cursor.rangeTo, Cursor.offset_after]
        exact ⟨by rw [Text.bytes_append]; omega, hinside⟩
      refine ⟨fun hc n hn => .inr ⟨a, d, ?_⟩, fun _ => by rw [hleaf]; exact List.cons_ne_nil _ _⟩
      rw [hleaf, List.mem_singleton] at hn
      rw [hn]
      refine ⟨⟨rfl, ?_⟩, ht a d rfl hc⟩
      rw [Node.range, Cursor.rangeTo, Cursor.offset_after, Text.bytes_append]
    · -- The backslash comes after the token.
      have hafter : bytes d < bytes (textAll ps) := by
        simp only [textAll, Piece.text, Text.bytes_append] at hin
        omega
      have hrest := ih (pre ++ t) rfl hafter
      rw [List.append_assoc] at hrest
      rw [nodesAfter, Piece.nodes_token, ← nodesAfter, ← List.singleton_append]
      refine hrest.append_right ?_
      rw [Node.leavesAt_leaf, if_neg, Node.leavesAt_nil, List.append_nil]
      simp only [Cursor.rangeTo, Cursor.offset_after, Text.bytes_append]
      omega
  | @gap P g ps cs rest hs h ih =>
    rw [nodesAfter, Piece.nodes_gap, ← nodesAfter]
    rcases append_eq_append_cons hcs with ⟨d, rfl, rfl⟩ | ⟨d, rfl, rfl⟩
    · have hbefore : bytes (pre ++ a) < bytes (pre ++ (a ++ '\\' :: d)) := by
        simp only [Text.bytes_append, bytes_backslash_cons]
        omega
      have hnone : Node.leavesAt (bytes (pre ++ a)) (nodesAfter (pre ++ (a ++ '\\' :: d)) ps) = [] :=
        h.reads.leavesAt_outside _ (.inl hbefore)
      refine ⟨fun _ n hn => ?_, fun hc => ?_⟩
      · rw [hnone] at hn
        cases hn
      · rw [hs.of_backslash a d rfl] at hc
        cases hc
    · have hafter : bytes d < bytes (textAll ps) := by
        simp only [textAll, Piece.text, Text.bytes_append] at hin
        omega
      have hrest := ih (pre ++ g) rfl hafter
      rwa [List.append_assoc] at hrest
  | @string P inside ps cs mid rest hi h ihi ih =>
    refine tells_group hi.reads h.reads pre hcs hin (fun hlt r => ?_) fun d hmid hd => ?_
    · exact (ihi pre hcs hlt).string r
    · exact ih (pre ++ textAll inside) hmid hd
  | @group P k inside ps cs mid rest hi h ihi ih =>
    refine tells_group hi.reads h.reads pre hcs hin (fun hlt r => ?_) fun d hmid hd => ?_
    · exact (ihi pre hcs hlt).branch k r
    · exact ih (pre ++ textAll inside) hmid hd

/-! ## Statements of joints -/

/-- The node of a logical line tells the backslashes of its joints. -/
theorem tells_ofLine {pre : List Char} {l : Line} {ls : List Line} {j : Joint}
    (h : j ∈ Joint.ofLine pre l ls) :
    ∃ s, nodesAfter pre [(Statement.read (logicalLine l ls).text).piece] = [s] ∧
      Tells (Keeps s.kind) (j.lineEnd ++ j.rest) (bytes j.before) [s] := by
  obtain ⟨x, hbefore, htext⟩ := Joint.exists_of_mem_ofLine h
  obtain ⟨top, hkind, hscans⟩ := wraps_read (logicalLine l ls).text
  obtain ⟨s, hs, rfl⟩ := Piece.exists_node hkind pre
  refine ⟨s, hs, ?_⟩
  have hin : bytes x < bytes (textAll [(Statement.read (logicalLine l ls).text).piece,
      .gap (Statement.read (logicalLine l ls).text).after]) := by
    have hall := hscans.reads.eq_append
    rw [List.append_nil] at hall
    rw [← hall, htext, Text.bytes_append, Joint.window, bytes_backslash_cons]
    omega
  have htells := hscans.tells pre htext hin
  rwa [← List.singleton_append, Piece.nodesAfter_append, hs, ← hbefore] at htells

/-- A statement and what is left out after it are the logical line. -/
theorem text_append_after (cs : List Char) :
    (Statement.read cs).piece.text ++ (Statement.read cs).after = cs := by
  have hspells := (spells_read cs [] rfl).1.eq_append
  rw [textAll, textAll, List.append_nil, List.append_nil, List.append_nil] at hspells
  exact hspells.symm

theorem nodesAfter_statement {l : Line} (h : StartsStatement (Text.splitTrim l.body).core)
    (pre : List Char) (ls : List Line) : nodesAfter pre (block l ls).pieces
      = nodesAfter (pre ++ (Text.splitTrim l.body).before)
          [(Statement.read (logicalLine l.unindented ls).text).piece] := by
  rw [block_of_startsStatement h]
  exact nodesAfter_between ..

/-- A joint is inside the block of its statement. -/
theorem bytes_before_lt {pre : List Char} {l : Line} {ls : List Line} {j : Joint}
    (hstarts : StartsStatement (Text.splitTrim l.body).core)
    (h : j ∈ Joint.ofLine (pre ++ (Text.splitTrim l.body).before) l.unindented ls) :
    bytes j.before < bytes (pre ++ textAll (block l ls).pieces) := by
  obtain ⟨x, hbefore, htext⟩ := Joint.exists_of_mem_ofLine h
  have hsize := congrArg bytes (text_append_after (logicalLine l.unindented ls).text)
  rw [block_of_startsStatement hstarts, hbefore]
  show _ < bytes (pre ++ textAll [.gap _, (Statement.read (logicalLine l.unindented ls).text).piece,
    .gap ((Statement.read (logicalLine l.unindented ls).text).after ++ _)])
  rw [htext] at hsize ⊢
  simp only [textAll, Piece.text, Joint.window, Text.bytes_append, bytes_backslash_cons] at hsize ⊢
  omega

/-- The leaves at a joint are those of one statement. -/
theorem tells_document {pre : List Char} {ls : List Line} {j : Joint} (ht : Terminated ls)
    (h : j ∈ Joint.ofLines pre ls) :
    ∃ s ∈ nodesAfter pre (document ls),
      Tells (Keeps s.kind) (j.lineEnd ++ j.rest) (bytes j.before) [s] ∧
      Node.leavesAt (bytes j.before) (nodesAfter pre (document ls))
        = Node.leavesAt (bytes j.before) [s] := by
  fun_induction Joint.ofLines pre ls with
  | case1 => cases h
  | case2 pre l ls _ t ih =>
    have hrest : Terminated (block l ls).rest := ht.2.2.of_suffix (block_rest_suffix l ls)
    rw [nodesAfter_block, Node.leavesAt_append]
    rcases List.mem_append.1 h with h | h
    · split at h
      · rename_i hstarts
        obtain ⟨s, hs, htells⟩ := tells_ofLine h
        have hblock : nodesAfter pre (block l ls).pieces = [s] :=
          (nodesAfter_statement hstarts pre ls).trans hs
        have houtside : Node.leavesAt (bytes j.before) (nodesAfter
            (pre ++ textAll (block l ls).pieces) (document (block l ls).rest)) = [] :=
          (reads_document hrest).leavesAt_outside _ (.inl (bytes_before_lt hstarts h))
        refine ⟨s, List.mem_append_left _ (hblock ▸ List.mem_singleton_self s), htells, ?_⟩
        rw [hblock, houtside, List.append_nil]
      · cases h
    · obtain ⟨s, hs, htells, hleaves⟩ := ih hrest h
      obtain ⟨more, hmore⟩ := Joint.prefix_of_mem_ofLines h
      have houtside : Node.leavesAt (bytes j.before) (nodesAfter pre (block l ls).pieces) = [] := by
        refine (reads_block ht).leavesAt_outside pre (.inr ?_)
        rw [← hmore, Text.bytes_append _ more]
        exact Nat.le_add_right _ _
      refine ⟨s, List.mem_append_right _ hs, htells, ?_⟩
      rw [houtside, List.nil_append, hleaves]

/-! ## Line feeds in statements -/

theorem span_of_mem_nodesAfter {p : Piece} {pre : List Char} {n : Node} (h : n ∈ nodesAfter pre [p]) :
    n.range.span = ⟨bytes pre, bytes (pre ++ p.text)⟩ := by
  cases p with
  | token k t =>
    rw [nodesAfter, Piece.nodes_token] at h
    rw [List.mem_singleton.1 h, Node.range, Cursor.rangeTo, Cursor.offset_after, Cursor.offset_after,
      Piece.text]
  | gap g => cases h
  | group k inside =>
    rw [nodesAfter, Piece.nodes_group] at h
    rw [List.mem_singleton.1 h, Node.range, Cursor.rangeTo, Cursor.offset_after, Cursor.offset_after,
      Piece.text]

/-- A line feed inside a statement is the end of a joint's line. -/
theorem exists_joint_of_mem_block {cs pre : List Char} {l : Line} {ls : List Line}
    (hlines : (l :: ls) <:+ Line.ofTexts (Text.lines cs))
    (hstarts : StartsStatement (Text.splitTrim l.body).core) {s : Node}
    (hs : s ∈ nodesAfter pre (block l ls).pieces) {p q : List Char}
    (htext : pre ++ Line.textAll (l :: ls) = p ++ '\n' :: q) (hstart : s.range.span.start ≤ bytes p)
    (hstop : bytes p < s.range.span.stop) :
    ∃ j ∈ Joint.ofLine (pre ++ (Text.splitTrim l.body).before) l.unindented ls,
      j.before ++ '\\' :: j.lineEnd = p ++ ['\n'] := by
  have hbody : ∀ m ∈ l.unindented :: ls, '\n' ∉ m.body := by
    have hall : ∀ m ∈ l :: ls, '\n' ∉ m.body := fun m hm =>
      not_mem_body (fun _ => Text.not_mem_of_mem_lines) m (hlines.subset hm)
    obtain ⟨hl, hls⟩ := List.forall_mem_cons.1 hall
    exact List.forall_mem_cons.2 ⟨Line.not_mem_body_unindented hl, hls⟩
  have hsize := congrArg bytes (text_append_after (logicalLine l.unindented ls).text)
  rw [nodesAfter_statement hstarts] at hs
  rw [span_of_mem_nodesAfter hs] at hstart hstop
  have hcut : pre ++ (Text.splitTrim l.body).before ++ ((logicalLine l.unindented ls).text
      ++ ((logicalLine l.unindented ls).after ++ Line.textAll (logicalLine l.unindented ls).rest))
        = p ++ '\n' :: q := by
    rw [append_logicalLine, ← htext, textAll_cons, ← l.before_append_text_unindented]
    simp only [List.append_assoc]
  obtain ⟨x, rfl, hx⟩ := Text.exists_between hcut hstart
  rcases append_eq_append_cons hx with ⟨d, hline, -⟩ | ⟨d, rfl, -⟩
  · obtain ⟨j, hj, heq⟩ := Joint.exists_of_lineFeed hbody (isFed_of_suffix hlines) hline
    exact ⟨j, hj, heq.trans (List.append_assoc ..).symm⟩
  · -- What comes after the logical line is after the statement.
    simp only [Text.bytes_append] at hstop hsize
    omega

theorem exists_joint_of_mem_document {cs pre : List Char} {ls : List Line}
    (hlines : ls <:+ Line.ofTexts (Text.lines cs)) {s : Node} (hs : s ∈ nodesAfter pre (document ls))
    (hkind : s.kind ∉ [.comment, .functionDefinition, .pythonFunctionDefinition, .pythonDefinition])
    {p q : List Char} (htext : pre ++ Line.textAll ls = p ++ '\n' :: q)
    (hstart : s.range.span.start ≤ bytes p) (hstop : bytes p < s.range.span.stop) :
    ∃ j ∈ Joint.ofLines pre ls, j.before ++ '\\' :: j.lineEnd = p ++ ['\n'] := by
  fun_induction Joint.ofLines pre ls with
  | case1 pre =>
    rw [nodesAfter_nil] at hs
    cases hs
  | case2 pre l ls _ t ih =>
    have ht : Terminated (l :: ls) := (terminated_ofTexts (Text.lines cs)).of_suffix hlines
    rw [nodesAfter_block] at hs
    rcases List.mem_append.1 hs with hs | hs
    · have hstarts : StartsStatement (Text.splitTrim l.body).core := by
        by_contra h
        have hmem : s.kind ∈ (nodesAfter pre (block l ls).pieces).map Node.kind := List.mem_map_of_mem hs
        rw [nodesAfter, Piece.map_kind_nodes] at hmem
        exact hkind (kinds_block h ls hmem)
      obtain ⟨j, hj, heq⟩ := exists_joint_of_mem_block hlines hstarts hs htext hstart hstop
      rw [if_pos hstarts]
      exact ⟨j, List.mem_append_left _ hj, heq⟩
    · have hrest := (block_rest_suffix l ls).trans (List.suffix_cons l ls)
      rw [textAll_cons, (reads_block ht).eq_append, ← List.append_assoc] at htext
      obtain ⟨j, hj, heq⟩ := ih (hrest.trans hlines) hs htext
      exact ⟨j, List.mem_append_right _ hj, heq⟩

end Grammar

/-- The leaves of the statements at `i` are all leaves of the tree at `i`, since the root is a
branch. -/
theorem mem_leavesAt_statements {limit : Nat} {source : String} {t : Tree}
    (h : parse limit source = .ok t) {i : Nat} {n : Node} :
    n ∈ Node.leavesAt i t.statements ↔ n ∈ t.nodes ∧ n.isLeafAt i = true := by
  obtain ⟨-, rfl⟩ := of_parse h
  rw [Node.leavesAt, List.mem_filter]
  refine and_congr_left fun hleaf => ?_
  show _ ↔ n ∈ (rootNode source.toList).preorder
  rw [rootNode, Node.preorder, List.mem_cons]
  refine ⟨.inr, fun hn => hn.resolve_left ?_⟩
  rintro rfl
  cases hleaf

/-- The backslash that joins a line to the next one continues the line for the scanner just if its line
ends right after it. Then only strings, names with brace groups, errors and paths that take all that
follows have it in a leaf; otherwise it is always in a leaf. Statements other than tasks and definitions
have no line ends but those. -/
theorem parse_joints (limit : Nat) (source : String) (h : bytes source.toList ≤ limit) :
    ∃ t, parse limit source = .ok t ∧
      (∀ j ∈ Grammar.joints source.toList,
        j.before ++ j.window <+: source.toList ∧
        (Grammar.continues j.window = true ↔ j.lineEnd = ['\n'] ∨ j.lineEnd = ['\r', '\n']) ∧
        (Grammar.continues j.window = true →
          ∀ n ∈ t.nodes, n.isLeafAt (bytes j.before) = true → ∃ s ∈ t.statements, n ∈ s.preorder ∧
            (n.InString [s] ∨
              ∃ a b, n.HasBackslash (bytes j.before) a b ∧ Grammar.Keeps s.kind n.kind a b)) ∧
        (Grammar.continues j.window = false → ∃ n ∈ t.nodes, n.isLeafAt (bytes j.before) = true)) ∧
      ∀ s ∈ t.statements,
        s.kind ∉ [.comment, .functionDefinition, .pythonFunctionDefinition, .pythonDefinition] →
        ∀ p q, source.toList = p ++ '\n' :: q →
          s.range.span.start ≤ bytes p → bytes p < s.range.span.stop →
          ∃ j ∈ Grammar.joints source.toList, j.before ++ '\\' :: j.lineEnd = p ++ ['\n'] := by
  obtain ⟨t, ht⟩ : ∃ t, parse limit source = .ok t := ⟨_, parse_eq_ok h⟩
  have hstatements : t.statements = Piece.nodesAfter [] (Grammar.document _) := statements_of_parse ht
  refine ⟨t, ht, fun j hj => ?_, fun s hs hkind p q htext hstart hstop => ?_⟩
  · refine ⟨Grammar.prefix_of_mem_joints hj, Grammar.continues_iff_of_mem_joints hj, ?_⟩
    obtain ⟨s, hs, htells, hleaves⟩ := Grammar.tells_document (Grammar.terminated_ofTexts _) hj
    rw [← hstatements] at hs hleaves
    refine ⟨fun hc n hn hleaf => ⟨s, hs, ?_⟩, fun hc => ?_⟩
    · have hmem := (mem_leavesAt_statements ht).2 ⟨hn, hleaf⟩
      rw [hleaves] at hmem
      refine ⟨?_, htells.1 hc n hmem⟩
      have hall := (List.mem_filter.1 hmem).1
      rwa [Node.preorderAll, Node.preorderAll, List.append_nil] at hall
    · obtain ⟨n, hn⟩ := List.exists_mem_of_ne_nil _ (htells.2 hc)
      rw [← hleaves] at hn
      exact ⟨n, (mem_leavesAt_statements ht).1 hn⟩
  · rw [hstatements] at hs
    have hlines : [] ++ Grammar.Line.textAll (Grammar.Line.ofTexts (Text.lines source.toList))
        = p ++ '\n' :: q := by
      rw [List.nil_append, Grammar.textAll_ofTexts_lines, htext]
    exact Grammar.exists_joint_of_mem_document List.suffix_rfl hs hkind hlines hstart hstop

/-- A directive over three lines: the first ends right after its backslash, the second after a blank. -/
def wrappedInherit : String :=
  "inherit a \\\n b \\ \r\n c"

theorem joints_wrappedInherit : Grammar.joints wrappedInherit.toList
    = [⟨"inherit a ".toList, ['\n'], " b \\ \r\n c".toList⟩,
      ⟨"inherit a \\\n b ".toList, [' ', '\r', '\n'], " c".toList⟩] := by
  decide +kernel

theorem parse_joints_wrapped :
    bytes wrappedInherit.toList ≤ 64 ∧
      ⟨"inherit a ".toList, ['\n'], " b \\ \r\n c".toList⟩ ∈ Grammar.joints wrappedInherit.toList ∧
      ⟨"inherit a \\\n b ".toList, [' ', '\r', '\n'], " c".toList⟩
        ∈ Grammar.joints wrappedInherit.toList ∧
      ∃ t, parse 64 wrappedInherit = .ok t ∧
        (∀ n ∈ t.nodes, n.isLeafAt 10 = true → ∃ s ∈ t.statements, n ∈ s.preorder ∧
          (n.InString [s] ∨ ∃ a b, n.HasBackslash 10 a b ∧ Grammar.Keeps s.kind n.kind a b)) ∧
        ∃ n ∈ t.nodes, n.isLeafAt 15 = true := by
  obtain ⟨t, ht, hjoints, -⟩ := parse_joints 64 wrappedInherit (by decide)
  rw [joints_wrappedInherit] at hjoints ⊢
  refine ⟨by decide, List.mem_cons_self, List.mem_cons_of_mem _ List.mem_cons_self, t, ht, ?_, ?_⟩
  · obtain ⟨-, -, hin, -⟩ := hjoints _ List.mem_cons_self
    exact hin rfl
  · obtain ⟨-, -, -, hout⟩ := hjoints _ (List.mem_cons_of_mem _ List.mem_cons_self)
    exact hout rfl

/-- A blank after the backslash is enough for the backslash to be a word. -/
theorem backslash_before_blank_is_path :
    Grammar.joints "inherit a \\ \nb".toList = [⟨"inherit a ".toList, [' ', '\n'], ['b']⟩] ∧
      Grammar.continues "\\ \nb".toList = false ∧
      ∃ t, parse 64 "inherit a \\ \nb" = .ok t ∧ t.statements.map Node.kind = [.inheritDirective] ∧
        t.statements.flatMap (fun s => s.children.map fun n => (n.kind, n.text?))
          = [(.keyword, some "inherit"), (.path, some "a"), (.path, some "\\"), (.path, some "b")] := by
  refine ⟨by decide +kernel, rfl, _, parse_eq_ok (by decide), ?_, ?_⟩
  · decide +kernel
  · decide +kernel

end Recipe
