import Recipe.Proofs.Tree.Layout

/-!
# What leaves cover

The leaves of a tree cover its source: a byte is inside at most one leaf, and a byte that is inside
none belongs to a character that may be skipped, a blank or a backslash that ends its line
(`parse_covers`). It is proved of pieces in the order in which they were read: a token covers its
own text, outside the text of the pieces nothing is covered (`Reads.leavesAt_outside`), and gaps hold
only what may be skipped.
-/

namespace Recipe

open Text (bytes isSkipped)

/-- Whether a node is a leaf whose span has a byte. -/
def Node.isLeafAt (i : Nat) (n : Node) : Bool :=
  n.text?.isSome && decide (n.range.span.start ≤ i ∧ i < n.range.span.stop)

/-- The byte belongs to a character of the source that may be skipped. -/
def Text.SkippedAt (source : List Char) (i : Nat) : Prop :=
  ∃ pre c post, source = pre ++ c :: post ∧ bytes pre ≤ i ∧ i < bytes pre + c.utf8Size ∧
    isSkipped c post = true

/-- The characters of a gap may be skipped where they stand. -/
theorem Grammar.Skips.skippedAt {g cs : List Char} (h : Skips cs g) (pre : List Char) {i : Nat}
    (hi : bytes pre ≤ i) (hg : i < bytes (pre ++ g)) : Text.SkippedAt (pre ++ (g ++ cs)) i := by
  induction g generalizing pre with
  | nil => rw [List.append_nil] at hg; omega
  | cons c g ih =>
    by_cases hc : i < bytes pre + c.utf8Size
    · exact ⟨pre, c, g ++ cs, rfl, hi, hc, h.1⟩
    · have hs : Text.SkippedAt (pre ++ [c] ++ (g ++ cs)) i := by
        refine ih h.2 (pre ++ [c]) ?_ ?_
        · rw [Text.bytes_append, Text.bytes_cons, Text.bytes_nil]
          omega
        · rwa [List.append_assoc]
      rwa [List.append_assoc] at hs

namespace Node

/-- The leaves of several trees that have a byte. -/
def leavesAt (i : Nat) (ns : List Node) : List Node :=
  (preorderAll ns).filter (isLeafAt i)

@[simp] theorem leavesAt_nil (i : Nat) : leavesAt i [] = [] := rfl

theorem leavesAt_leaf (i : Nat) (k : Kind) (r : Range) (t : String) (ns : List Node) :
    leavesAt i (leaf k r t :: ns)
      = (if r.span.start ≤ i ∧ i < r.span.stop then [leaf k r t] else []) ++ leavesAt i ns := by
  rw [leavesAt, preorderAll, preorder, List.filter_append]
  have hl : isLeafAt i (leaf k r t) = decide (r.span.start ≤ i ∧ i < r.span.stop) := rfl
  by_cases h : r.span.start ≤ i ∧ i < r.span.stop
  · rw [List.filter_cons_of_pos (hl.trans (decide_eq_true h)), if_pos h]
    rfl
  · rw [List.filter_cons_of_neg (by simp [hl, h]), if_neg h]
    rfl

theorem leavesAt_branch (i : Nat) (k : Kind) (r : Range) (cs ns : List Node) :
    leavesAt i (branch k r cs :: ns) = leavesAt i cs ++ leavesAt i ns := by
  rw [leavesAt, preorderAll, preorder, List.cons_append, List.filter_cons_of_neg, List.filter_append]
  · rfl
  · simp [isLeafAt, text?]

end Node

namespace Grammar.Reads

open Piece (locateAll textAll)

variable {ps : List Piece} {cs rest : List Char}

/-- Nothing is covered outside the text of the pieces. -/
theorem leavesAt_outside (h : Reads ps cs rest) (pre : List Char) {i : Nat}
    (hi : i < bytes pre ∨ bytes (pre ++ textAll ps) ≤ i) :
    Node.leavesAt i (locateAll (.after pre) ps).nodes = [] := by
  induction h generalizing pre with
  | nil => simp [locateAll]
  | @token k t ps _ _ _ ih =>
    rw [textAll, Piece.text, ← List.append_assoc] at hi
    simp only [Text.bytes_append] at hi
    rw [Piece.nodes_token, Node.leavesAt_leaf, ih, List.append_nil, if_neg]
    · simp only [Cursor.rangeTo, Cursor.offset_after, Text.bytes_append]
      omega
    · simp only [Text.bytes_append]
      omega
  | @gap g ps _ _ _ _ ih =>
    rw [textAll, Piece.text] at hi
    rw [Piece.nodes_gap, ih]
    simp only [Text.bytes_append] at hi ⊢
    omega
  | @group k inside ps _ _ _ _ _ ihi ih =>
    rw [textAll, Piece.text] at hi
    simp only [Text.bytes_append] at hi ihi ih
    rw [Piece.nodes_group, Node.leavesAt_branch, ihi _ (by omega), ih _ (by simp; omega)]
    rfl

/-- Inside the text of the pieces a byte is in one leaf, or in none and may be skipped. -/
theorem leavesAt_inside (h : Reads ps cs rest) (pre : List Char) {i : Nat} (hs : bytes pre ≤ i)
    (hi : i < bytes (pre ++ textAll ps)) :
    (Node.leavesAt i (locateAll (.after pre) ps).nodes).length = 1 ∨
      Node.leavesAt i (locateAll (.after pre) ps).nodes = [] ∧ Text.SkippedAt (pre ++ cs) i := by
  induction h generalizing pre with
  | nil => rw [textAll, List.append_nil] at hi; omega
  | @token k t ps cs _ h ih =>
    rw [Piece.nodes_token, Node.leavesAt_leaf, Cursor.rangeTo, Cursor.offset_after, Cursor.offset_after]
    rw [textAll, Piece.text, ← List.append_assoc] at hi
    by_cases ht : i < bytes (pre ++ t)
    · rw [h.leavesAt_outside _ (.inl ht), List.append_nil, if_pos ⟨hs, ht⟩]
      exact .inl rfl
    · rw [if_neg fun hc => ht hc.2, List.nil_append, ← List.append_assoc]
      exact ih (pre ++ t) (Nat.le_of_not_lt ht) hi
  | @gap g ps cs _ hg h ih =>
    rw [Piece.nodes_gap]
    rw [textAll, Piece.text, ← List.append_assoc] at hi
    by_cases hb : i < bytes (pre ++ g)
    · exact .inr ⟨h.leavesAt_outside _ (.inl hb), hg.skippedAt pre hs hb⟩
    · rw [← List.append_assoc]
      exact ih (pre ++ g) (Nat.le_of_not_lt hb) hi
  | @group k inside ps cs mid _ hin h ihi ih =>
    rw [Piece.nodes_group, Node.leavesAt_branch]
    rw [textAll, Piece.text, ← List.append_assoc] at hi
    by_cases hb : i < bytes (pre ++ textAll inside)
    · rw [h.leavesAt_outside _ (.inl hb), List.append_nil]
      exact ihi pre hs hb
    · rw [hin.leavesAt_outside pre (.inr (Nat.le_of_not_lt hb)), List.nil_append, hin.eq_append,
        ← List.append_assoc]
      exact ih (pre ++ textAll inside) (Nat.le_of_not_lt hb) hi

end Grammar.Reads

/-- No text is lost: a byte of the source is inside at most one leaf of its tree, and a byte that is
inside none belongs to a blank or to a backslash that ends its line. -/
theorem parse_covers (limit : Nat) (source : String) (h : bytes source.toList ≤ limit) :
    ∃ t root, parse limit source = .ok t ∧ t.root? = some root ∧
      ∀ i < bytes source.toList,
        (root.preorder.filter (Node.isLeafAt i)).length ≤ 1 ∧
        (root.preorder.filter (Node.isLeafAt i) = [] → Text.SkippedAt source.toList i) := by
  refine ⟨_, rootNode source.toList, parse_eq_ok h, rfl, fun i hi => ?_⟩
  have hr := Grammar.reads_read source.toList
  have hl : (rootNode source.toList).preorder.filter (Node.isLeafAt i)
      = Node.leavesAt i (Piece.locateAll (.after []) (Grammar.read source.toList)).nodes := by
    rw [rootNode, Node.preorder, List.filter_cons_of_neg (by simp [Node.isLeafAt, Node.text?])]
    rfl
  rw [← Grammar.textAll_read source.toList] at hi
  rw [hl]
  rcases hr.leavesAt_inside [] (Nat.zero_le i) hi with h₁ | ⟨h₀, hs⟩
  · refine ⟨Nat.le_of_eq h₁, fun he => ?_⟩
    rw [he] at h₁
    cases h₁
  · exact ⟨by rw [h₀]; exact Nat.zero_le 1, fun _ => hs⟩

theorem parse_covers_continuation :
    bytes "inherit a \\\r\n　b".toList ≤ 32 ∧
      ∃ t root, parse 32 "inherit a \\\r\n　b" = .ok t ∧ t.root? = some root ∧
        ∀ i < bytes "inherit a \\\r\n　b".toList,
          (root.preorder.filter (Node.isLeafAt i)).length ≤ 1 ∧
          (root.preorder.filter (Node.isLeafAt i) = [] →
            Text.SkippedAt "inherit a \\\r\n　b".toList i) :=
  ⟨by decide, parse_covers 32 "inherit a \\\r\n　b" (by decide)⟩

end Recipe
