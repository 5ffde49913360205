import Recipe.Proofs.Grammar.Block
import Recipe.Tree

/-!
# The layout of a tree

Where the nodes of a recipe's tree stand. `Node.WellPlaced` says of a node all that its place in the
source has to satisfy: its span and its positions belong to each other and to the source, its
children stand inside it one after the other, and a leaf has the text of its span. Laying out pieces
that were read off a text places every node well (`Reads.wellPlaced`), and so every node of every
tree that `parse` gives is well placed (`parse_wellPlaced`).
-/

namespace Recipe

open Text (bytes)

/-- What the place of a node in a source has to satisfy. -/
structure Node.WellPlaced (source : List Char) (n : Node) : Prop where
  start_le_stop : n.range.span.start ≤ n.range.span.stop
  stop_le_bytes : n.range.span.stop ≤ bytes source
  isBoundary_start : Text.isBoundary source n.range.span.start = true
  isBoundary_stop : Text.isBoundary source n.range.span.stop = true
  start_eq_position : n.range.start = (LineTable.ofText source).position n.range.span.start
  stop_eq_position : n.range.stop = (LineTable.ofText source).position n.range.span.stop
  /-- Every child stands inside the node. -/
  children_inside : ∀ c ∈ n.children,
    n.range.span.start ≤ c.range.span.start ∧ c.range.span.stop ≤ n.range.span.stop
  /-- Of two children the first one ends before the other begins. -/
  children_ordered : n.children.Pairwise fun c d => c.range.span.stop ≤ d.range.span.start
  /-- A leaf has the text of its span. -/
  slice_eq_text : ∀ t, n.text? = some t →
    Text.slice source n.range.span.start n.range.span.stop = some t.toList

namespace Node

/-- The nodes stand one after the other between two offsets. -/
def Ordered (start stop : Nat) : List Node → Prop
  | [] => start ≤ stop
  | n :: ns =>
    start ≤ n.range.span.start ∧ n.range.span.start ≤ n.range.span.stop ∧
      Ordered n.range.span.stop stop ns

theorem Ordered.le {start stop : Nat} {ns : List Node} (h : Ordered start stop ns) :
    start ≤ stop := by
  induction ns generalizing start with
  | nil => exact h
  | cons n ns ih => exact Nat.le_trans h.1 (Nat.le_trans h.2.1 (ih h.2.2))

theorem Ordered.mono {start start' stop : Nat} {ns : List Node} (h : Ordered start stop ns)
    (hs : start' ≤ start) : Ordered start' stop ns := by
  cases ns with
  | nil => exact Nat.le_trans hs h
  | cons n ns => exact ⟨Nat.le_trans hs h.1, h.2⟩

theorem Ordered.inside {start stop : Nat} {ns : List Node} (h : Ordered start stop ns) {n : Node}
    (hn : n ∈ ns) : start ≤ n.range.span.start ∧ n.range.span.stop ≤ stop := by
  induction ns generalizing start with
  | nil => cases hn
  | cons m ns ih =>
    obtain ⟨h₁, h₂, h₃⟩ := h
    rcases List.mem_cons.1 hn with rfl | hn
    · exact ⟨h₁, h₃.le⟩
    · exact ih (h₃.mono (Nat.le_trans h₁ h₂)) hn

theorem Ordered.pairwise {start stop : Nat} {ns : List Node} (h : Ordered start stop ns) :
    ns.Pairwise fun c d => c.range.span.stop ≤ d.range.span.start := by
  induction ns generalizing start with
  | nil => exact .nil
  | cons m ns ih => exact .cons (fun n hn => (h.2.2.inside hn).1) (ih h.2.2)

/-- A node that spans the middle of a source is well placed, if its children are in order in it and
its text, if it has one, is the middle. -/
theorem wellPlaced_of_range {n : Node} {pre mid : List Char} (post : List Char)
    (hr : n.range = (Cursor.after pre).rangeTo (Cursor.after (pre ++ mid)))
    (hc : Ordered (bytes pre) (bytes (pre ++ mid)) n.children)
    (ht : ∀ t, n.text? = some t → t.toList = mid) : n.WellPlaced (pre ++ (mid ++ post)) := by
  have hstart : n.range.span.start = bytes pre := by
    rw [hr]
    exact Cursor.offset_after pre
  have hstop : n.range.span.stop = bytes pre + bytes mid := by
    rw [hr, ← Text.bytes_append]
    exact Cursor.offset_after (pre ++ mid)
  refine ⟨?_, ?_, ?_, ?_, ?_, ?_, ?_, ?_, ?_⟩
  · rw [hstart, hstop]
    exact Nat.le_add_right _ _
  · rw [hstop, Text.bytes_append, Text.bytes_append]
    omega
  · rw [hstart]
    exact Text.isBoundary_append pre (mid ++ post)
  · rw [hstop, ← Text.bytes_append, ← List.append_assoc]
    exact Text.isBoundary_append (pre ++ mid) post
  · rw [hstart, LineTable.position_bytes, hr]
    rfl
  · rw [hstop, ← Text.bytes_append, ← List.append_assoc, LineTable.position_bytes, hr]
    rfl
  · intro c hm
    rw [hstart, hstop, ← Text.bytes_append]
    exact hc.inside hm
  · exact hc.pairwise
  · intro t h
    rw [hstart, hstop, Text.slice_append, ht t h]

end Node

/-! ## Laying out pieces -/

namespace Piece

mutual

theorem stop_locate (pre : List Char) : ∀ p : Piece, (p.locate (.after pre)).stop = .after (pre ++ p.text)
  | token _ t => Cursor.advance_after pre t
  | gap g => Cursor.advance_after pre g
  | group _ ps => by rw [locate, text, ← stop_locateAll pre ps]

/-- Pieces after `pre` are laid out up to the end of their text. -/
theorem stop_locateAll (pre : List Char) :
    ∀ ps : List Piece, (locateAll (.after pre) ps).stop = .after (pre ++ textAll ps)
  | [] => by rw [locateAll, textAll, List.append_nil]
  | p :: ps => by
    rw [locateAll, textAll, stop_locate pre p]
    dsimp only
    rw [stop_locateAll (pre ++ p.text) ps, List.append_assoc]

end

variable (pre : List Char) (k : Kind) (ps : List Piece)

theorem nodes_token (t : List Char) :
    (locateAll (.after pre) (token k t :: ps)).nodes
      = .leaf k ((Cursor.after pre).rangeTo (.after (pre ++ t))) (String.ofList t)
        :: (locateAll (.after (pre ++ t)) ps).nodes := by
  rw [locateAll, locate, ← Cursor.advance_after]
  rfl

theorem nodes_gap (g : List Char) :
    (locateAll (.after pre) (gap g :: ps)).nodes = (locateAll (.after (pre ++ g)) ps).nodes := by
  rw [locateAll, locate, ← Cursor.advance_after]
  rfl

theorem nodes_group (inside : List Piece) :
    (locateAll (.after pre) (group k inside :: ps)).nodes
      = .branch k ((Cursor.after pre).rangeTo (.after (pre ++ textAll inside)))
          (locateAll (.after pre) inside).nodes
        :: (locateAll (.after (pre ++ textAll inside)) ps).nodes := by
  rw [locateAll, locate, ← stop_locateAll]
  rfl

/-- A node that pieces are laid out to is that of one of them: the leaf of a token, or the branch of
a group. -/
theorem exists_of_mem_nodes {pre : List Char} {ps : List Piece} {n : Node}
    (h : n ∈ (locateAll (.after pre) ps).nodes) :
    (∃ t, token n.kind t ∈ ps ∧ n.text? = some (String.ofList t)) ∨
      ∃ inside pre', group n.kind inside ∈ ps ∧
        n.children = (locateAll (.after pre') inside).nodes := by
  induction ps generalizing pre with
  | nil => cases h
  | cons p ps ih =>
    have hrest : ∀ {pre}, n ∈ (locateAll (.after pre) ps).nodes →
        (∃ t, token n.kind t ∈ p :: ps ∧ n.text? = some (String.ofList t)) ∨
          ∃ inside pre', group n.kind inside ∈ p :: ps ∧
            n.children = (locateAll (.after pre') inside).nodes := fun h =>
      (ih h).imp (fun ⟨t, ht, hn⟩ => ⟨t, .tail p ht, hn⟩)
        (fun ⟨inside, pre', hi, hn⟩ => ⟨inside, pre', .tail p hi, hn⟩)
    cases p with
    | token k t =>
      rw [nodes_token] at h
      rcases List.mem_cons.1 h with rfl | h
      · exact .inl ⟨t, List.mem_cons_self, rfl⟩
      · exact hrest h
    | gap g =>
      rw [nodes_gap] at h
      exact hrest h
    | group k inside =>
      rw [nodes_group] at h
      rcases List.mem_cons.1 h with rfl | h
      · exact .inr ⟨inside, pre, List.mem_cons_self, rfl⟩
      · exact hrest h

end Piece

namespace Grammar.Reads

open Piece (locateAll textAll)

variable {ps : List Piece} {cs rest : List Char}

/-- Nodes are laid out one after the other. -/
theorem ordered_locateAll (h : Reads ps cs rest) (pre : List Char) :
    Node.Ordered (bytes pre) (bytes (pre ++ textAll ps)) (locateAll (.after pre) ps).nodes := by
  induction h generalizing pre with
  | nil => simp [locateAll, textAll, Node.Ordered]
  | @token k t ps _ _ _ ih =>
    have hi := ih (pre ++ t)
    rw [List.append_assoc] at hi
    rw [Piece.nodes_token]
    refine ⟨?_, ?_, ?_⟩ <;>
      simp only [Node.range, Cursor.rangeTo, Cursor.offset_after]
    · exact Nat.le_refl _
    · rw [Text.bytes_append]
      exact Nat.le_add_right _ _
    · exact hi
  | @gap g ps _ _ _ _ ih =>
    have hi := ih (pre ++ g)
    rw [List.append_assoc] at hi
    rw [Piece.nodes_gap]
    exact hi.mono (by rw [Text.bytes_append]; exact Nat.le_add_right _ _)
  | @group k inside ps _ _ _ _ _ ihi ih =>
    have hi := ih (pre ++ textAll inside)
    rw [List.append_assoc] at hi
    rw [Piece.nodes_group]
    refine ⟨?_, ?_, ?_⟩ <;>
      simp only [Node.range, Cursor.rangeTo, Cursor.offset_after]
    · exact Nat.le_refl _
    · exact (ihi pre).le
    · exact hi

/-- Every node that pieces are laid out to is well placed. -/
theorem wellPlaced (h : Reads ps cs rest) (pre : List Char) {n : Node}
    (hn : n ∈ Node.preorderAll (locateAll (.after pre) ps).nodes) : n.WellPlaced (pre ++ cs) := by
  induction h generalizing pre with
  | nil => simp [locateAll, Node.preorderAll] at hn
  | @token k t ps cs _ _ ih =>
    rw [Piece.nodes_token, Node.preorderAll, Node.preorder, List.singleton_append] at hn
    rcases List.mem_cons.1 hn with rfl | hn
    · refine Node.wellPlaced_of_range cs rfl ?_ ?_
      · simp [Node.children, Node.Ordered]
      · intro u hu
        cases hu
        exact String.toList_ofList
    · rw [← List.append_assoc]
      exact ih (pre ++ t) hn
  | @gap g ps cs _ _ _ ih =>
    rw [Piece.nodes_gap] at hn
    rw [← List.append_assoc]
    exact ih (pre ++ g) hn
  | @group k inside ps cs mid _ hi hp ihi ih =>
    rw [Piece.nodes_group, Node.preorderAll, Node.preorder, List.cons_append] at hn
    rcases List.mem_cons.1 hn with rfl | hn
    · rw [hi.eq_append]
      refine Node.wellPlaced_of_range mid rfl (hi.ordered_locateAll pre) ?_
      intro u hu
      cases hu
    rcases List.mem_append.1 hn with hn | hn
    · exact ihi pre hn
    · rw [hi.eq_append, ← List.append_assoc]
      exact ih (pre ++ textAll inside) hn

end Grammar.Reads

/-! ## Trees -/

theorem Grammar.textAll_read (cs : List Char) : Piece.textAll (read cs) = cs := by
  have h := (reads_read cs).eq_append
  rw [List.append_nil] at h
  exact h.symm

theorem range_rootNode (cs : List Char) :
    (rootNode cs).range = (Cursor.after []).rangeTo (Cursor.after cs) := by
  have h := Piece.stop_locateAll [] (Grammar.read cs)
  rw [Grammar.textAll_read] at h
  rw [rootNode, Node.range, ← Cursor.after_nil, h]
  rfl

theorem wellPlaced_rootNode (cs : List Char) {n : Node} (hn : n ∈ (rootNode cs).preorder) :
    n.WellPlaced cs := by
  have hr := Grammar.reads_read cs
  have ho := hr.ordered_locateAll []
  rw [Grammar.textAll_read] at ho
  rw [rootNode, Node.preorder] at hn
  rcases List.mem_cons.1 hn with rfl | hn
  · have hw := Node.wellPlaced_of_range [] (range_rootNode cs) ho fun t ht => by cases ht
    rwa [List.append_nil] at hw
  · exact hr.wellPlaced [] hn

/-- A text within the limit is read. -/
theorem parse_eq_ok {limit : Nat} {source : String} (h : bytes source.toList ≤ limit) :
    parse limit source = .ok { source, root? := some (rootNode source.toList) } := by
  unfold parse
  exact if_neg (Nat.not_lt.2 h)

theorem of_parse {limit : Nat} {source : String} {t : Tree} (h : parse limit source = .ok t) :
    bytes source.toList ≤ limit ∧ t = { source, root? := some (rootNode source.toList) } := by
  unfold parse at h
  dsimp only at h
  split at h
  · cases h
  · rename_i hle
    cases h
    exact ⟨Nat.not_lt.1 hle, rfl⟩

/-- A text within the limit has a tree. Its root is a source file over the whole text, and every
node is well placed. -/
theorem parse_wellPlaced (limit : Nat) (source : String) (h : bytes source.toList ≤ limit) :
    ∃ t root, parse limit source = .ok t ∧ t.source = source ∧ t.root? = some root ∧
      root.kind = .sourceFile ∧ root.range.span = ⟨0, bytes source.toList⟩ ∧
      ∀ n ∈ root.preorder, n.WellPlaced source.toList := by
  refine ⟨_, rootNode source.toList, parse_eq_ok h, rfl, rfl, rfl, ?_, fun n hn => ?_⟩
  · rw [range_rootNode, Cursor.rangeTo, Cursor.offset_after, Cursor.offset_after]
    rfl
  · exact wellPlaced_rootNode source.toList hn

theorem parse_wellPlaced_continuation :
    bytes "A = \"é\" \\\r\n　x".toList ≤ 16 ∧
      ∃ t root, parse 16 "A = \"é\" \\\r\n　x" = .ok t ∧ t.source = "A = \"é\" \\\r\n　x" ∧
        t.root? = some root ∧ root.kind = .sourceFile ∧
        root.range.span = ⟨0, bytes "A = \"é\" \\\r\n　x".toList⟩ ∧
        ∀ n ∈ root.preorder, n.WellPlaced "A = \"é\" \\\r\n　x".toList :=
  ⟨by decide, parse_wellPlaced 16 "A = \"é\" \\\r\n　x" (by decide)⟩

end Recipe
