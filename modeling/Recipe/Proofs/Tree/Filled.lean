import Recipe.Proofs.Grammar.Filled
import Recipe.Proofs.Tree.Content
import Recipe.Proofs.Tree.Nodes

/-!
# Leaves without text

A leaf without text is the name of an override that stands right before an operator which begins with a
character of names, as in `A:+= "x"`: there the colon is read as that of an override, and its name ends
before it begins. All other leaves have text, and an override lacks its name just there
(`parse_filled`). The smallest recipe of the kind is `override_without_name`.
-/

namespace Recipe

open Text (bytes)
open Grammar (StartsNameOperator nameOperators overridePiece)

namespace Node

/-- Among these children of an assignment, the node is the name of an override, and the assignment's
operator stands right after the colon of the override. -/
def UnnamedIn (cs : List Node) (n : Node) : Prop :=
  ∃ front r colon op back, cs = front ++ .branch .override r [colon, n] :: op :: back ∧
    n.kind = .identifier ∧ (∃ o ∈ nameOperators, op.text? = some o) ∧
    op.range.span.start = colon.range.span.stop

/-- The node is the name of such an override among nodes of a parent of some kind, or of an assignment
below them. -/
def UnnamedAmong (k : Kind) (ns : List Node) (n : Node) : Prop :=
  (k = .variableAssignment ∧ n.UnnamedIn ns) ∨
    ∃ a ∈ preorderAll ns, a.kind = .variableAssignment ∧ n.UnnamedIn a.children

theorem UnnamedAmong.cons {k : Kind} {ns : List Node} {n : Node} (h : n.UnnamedAmong k ns) (m : Node) :
    n.UnnamedAmong k (m :: ns) := by
  rcases h with ⟨hk, front, r, colon, op, back, rfl, hkind, hop, hstart⟩ | ⟨a, ha, hk, hn⟩
  · exact .inl ⟨hk, m :: front, r, colon, op, back, rfl, hkind, hop, hstart⟩
  · exact .inr ⟨a, List.mem_append_right _ ha, hk, hn⟩

/-- An override is a colon and a name, and the name is empty where the source has an operator in its
place. -/
def NamedIn (source : List Char) (o : Node) : Prop :=
  ∃ colon name text, o.children = [colon, name] ∧ name.text? = some text ∧
    (text = "" ↔ ∃ rest, Text.dropBytes colon.range.span.stop source = some rest ∧
      StartsNameOperator rest)

/-- Which of some nodes, the children of a parent of some kind, and of the nodes below them have text. -/
structure Filled (source : List Char) (k : Kind) (ns : List Node) : Prop where
  text_ne_empty : ∀ n ∈ ns, n.text? ≠ some ""
  child_text_ne_empty : ∀ a ∈ preorderAll ns, a.kind ≠ .override →
    ∀ n ∈ a.children, n.text? ≠ some ""
  unnamed : ∀ n ∈ preorderAll ns, n.text? = some "" → n.UnnamedAmong k ns
  named : ∀ r cs, .branch .override r cs ∈ preorderAll ns →
    (Node.branch .override r cs).NamedIn source

namespace Filled

variable {source : List Char} {k j : Kind} {ns : List Node}

theorem nil : Filled source k [] := by
  constructor
  · exact List.forall_mem_nil _
  · exact List.forall_mem_nil _
  · exact List.forall_mem_nil _
  · intro r cs ho
    cases ho

theorem cons (h : Filled source k ns) {m : Node} (htext : m.text? ≠ some "")
    (hchild : ∀ a ∈ m.preorder, a.kind ≠ .override → ∀ n ∈ a.children, n.text? ≠ some "")
    (hunnamed : ∀ n ∈ m.preorder, n.text? = some "" → n.UnnamedAmong k (m :: ns))
    (hnamed : ∀ r cs, .branch .override r cs ∈ m.preorder →
      (Node.branch .override r cs).NamedIn source) : Filled source k (m :: ns) := by
  constructor
  · exact List.forall_mem_cons.2 ⟨htext, h.text_ne_empty⟩
  · intro a ha
    exact (List.mem_append.1 ha).elim (hchild a) (h.child_text_ne_empty a)
  · intro n hn ht
    exact (List.mem_append.1 hn).elim (hunnamed n · ht) fun hn => (h.unnamed n hn ht).cons m
  · intro r cs ho
    exact (List.mem_append.1 ho).elim (hnamed r cs) (h.named r cs)

theorem leaf (h : Filled source k ns) (r : Range) {t : String} (ht : t ≠ "") :
    Filled source k (.leaf j r t :: ns) := by
  have hself : ∀ n ∈ (Node.leaf j r t).preorder, n = .leaf j r t := fun n hn => List.mem_singleton.1 hn
  refine h.cons (fun he => ht (Option.some.inj he)) (fun a ha => ?_) (fun n hn he => ?_) fun r' cs ho => ?_
  · rw [hself a ha]
    exact fun _ => List.forall_mem_nil _
  · rw [hself n hn] at he
    exact absurd (Option.some.inj he) ht
  · cases hself _ ho

theorem branch (h : Filled source k ns) (r : Range) (hj : j ≠ .override) {inside : List Node}
    (hi : Filled source j inside) : Filled source k (.branch j r inside :: ns) := by
  refine h.cons (fun he => by cases he) (fun a ha hk => ?_) (fun n hn ht => .inr ?_) fun r' cs ho => ?_
  · rcases List.mem_cons.1 ha with rfl | ha
    · exact hi.text_ne_empty
    · exact hi.child_text_ne_empty a ha hk
  · rcases List.mem_cons.1 hn with rfl | hn
    · cases ht
    rcases hi.unnamed n hn ht with ⟨hk, hn⟩ | ⟨a, ha, hk, hn⟩
    · exact ⟨_, List.mem_cons_self, hk, hn⟩
    · exact ⟨a, .tail _ (List.mem_append_left _ ha), hk, hn⟩
  · rcases List.mem_cons.1 ho with heq | ho
    · cases heq
      exact absurd rfl hj
    · exact hi.named r' cs ho

/-- Nodes stay filled with an override in front of them that has a colon and a name as leaves. -/
theorem override (h : Filled source k ns) {r r₁ r₂ : Range} {colon name : String} (hcolon : colon ≠ "")
    (hnamed : (Node.branch .override r [.leaf .punctuation r₁ colon, .leaf .identifier r₂ name]).NamedIn
      source)
    (hunnamed : name = "" → (Node.leaf .identifier r₂ name).UnnamedAmong k
      (.branch .override r [.leaf .punctuation r₁ colon, .leaf .identifier r₂ name] :: ns)) :
    Filled source k
      (.branch .override r [.leaf .punctuation r₁ colon, .leaf .identifier r₂ name] :: ns) := by
  have hcases : ∀ n ∈ (Node.branch .override r
      [.leaf .punctuation r₁ colon, .leaf .identifier r₂ name]).preorder,
      n = .branch .override r [.leaf .punctuation r₁ colon, .leaf .identifier r₂ name] ∨
        n = .leaf .punctuation r₁ colon ∨ n = .leaf .identifier r₂ name := by
    intro n hn
    simpa only [preorder, preorderAll, List.cons_append, List.nil_append, List.mem_cons,
      List.not_mem_nil, or_false] using hn
  refine h.cons (fun he => by cases he) (fun a ha hk => ?_) (fun n hn ht => ?_) fun r' cs ho => ?_
  · rcases hcases a ha with rfl | rfl | rfl
    · exact absurd rfl hk
    · exact List.forall_mem_nil _
    · exact List.forall_mem_nil _
  · rcases hcases n hn with rfl | rfl | rfl
    · cases ht
    · exact absurd (Option.some.inj ht) hcolon
    · exact hunnamed (Option.some.inj ht)
  · rcases hcases _ ho with heq | heq | heq
    · exact heq ▸ hnamed
    · cases heq
    · cases heq

end Filled

end Node

namespace Piece

variable {k : Kind} {ps : List Piece}

/-- The colon of an override after a text. -/
def colonLeaf (pre : List Char) : Node :=
  .leaf .punctuation ((Cursor.after pre).rangeTo (.after (pre ++ [':']))) ":"

/-- The name of an override after a text that ends with its colon. -/
def nameLeaf (pre name : List Char) : Node :=
  .leaf .identifier ((Cursor.after pre).rangeTo (.after (pre ++ name))) (String.ofList name)

/-- The node of an override after a text. -/
def overrideNode (pre name : List Char) : Node :=
  .branch .override ((Cursor.after pre).rangeTo (.after (pre ++ ':' :: name)))
    [colonLeaf pre, nameLeaf (pre ++ [':']) name]

theorem nodes_override (pre name : List Char) (ps : List Piece) :
    (locateAll (.after pre) (overridePiece name :: ps)).nodes
      = overrideNode pre name :: (locateAll (.after (pre ++ ':' :: name)) ps).nodes := by
  have htext : textAll [Piece.mark ':', .token .identifier name] = ':' :: name := by
    simp [textAll, text, Piece.mark]
  rw [overridePiece, nodes_group, htext, Piece.mark, nodes_token, nodes_token, overrideNode, colonLeaf,
    nameLeaf]
  rfl

theorem namedIn_overrideNode {pre name rest : List Char}
    (h : name = [] ↔ StartsNameOperator (name ++ rest)) :
    (overrideNode pre name).NamedIn (pre ++ (':' :: name ++ rest)) := by
  refine ⟨_, _, _, rfl, rfl, ?_⟩
  have hdrop : Text.dropBytes (bytes (pre ++ [':'])) (pre ++ (':' :: name ++ rest))
      = some (name ++ rest) := by
    rw [← Text.dropBytes_append (pre ++ [':']) (name ++ rest)]
    simp
  rw [String.ofList_eq_empty_iff, h]
  show _ ↔ ∃ after, Text.dropBytes (Cursor.after (pre ++ [':'])).offset _ = some after ∧ _
  rw [Cursor.offset_after, hdrop]
  simp

/-- The nodes of filled pieces are filled. -/
theorem Filled.nodes (h : Filled k ps) (pre post : List Char) :
    Node.Filled (pre ++ (textAll ps ++ post)) k (locateAll (.after pre) ps).nodes := by
  induction h generalizing pre post with
  | nil => exact .nil
  | @token k j t ps htext _ ih =>
    rw [nodes_token, textAll, text, List.append_assoc, ← List.append_assoc]
    exact (ih _ post).leaf _ fun he => htext (String.ofList_eq_empty_iff.1 he)
  | @gap k g ps _ ih =>
    rw [nodes_gap, textAll, text, List.append_assoc, ← List.append_assoc]
    exact ih _ post
  | @group k j inside ps hj _ _ ihi ih =>
    rw [nodes_group, textAll, text, List.append_assoc]
    refine Node.Filled.branch ?_ _ hj (ihi pre _)
    rw [← List.append_assoc]
    exact ih _ post
  | @override k name ps hname hnot _ ih =>
    have hsource : pre ++ (textAll (overridePiece name :: ps) ++ post)
        = pre ++ (':' :: name ++ (textAll ps ++ post)) := by
      simp [textAll, text, overridePiece, Piece.mark]
    rw [nodes_override, hsource]
    refine Node.Filled.override ?_ (by decide) (namedIn_overrideNode (iff_of_false hname (hnot post)))
      fun he => absurd (String.ofList_eq_empty_iff.1 he) hname
    rw [← List.append_assoc]
    exact ih _ post
  | @bare j op ps hop _ ih =>
    have hsource : pre ++ (textAll (overridePiece [] :: .gap [] :: .token j op.toList :: ps) ++ post)
        = pre ++ (':' :: [] ++ (op.toList ++ (textAll ps ++ post))) := by
      simp [textAll, text, overridePiece, Piece.mark]
    have hne : ∀ op ∈ nameOperators, op ≠ "" := by decide
    rw [nodes_override, nodes_gap, nodes_token, hsource]
    refine Node.Filled.override ?_ (by decide)
      (namedIn_overrideNode (iff_of_true rfl ⟨op, hop, List.prefix_append _ _⟩)) fun _ => ?_
    · refine Node.Filled.leaf ?_ _ (by rw [String.ofList_toList]; exact hne op hop)
      have h := ih (pre ++ [':'] ++ [] ++ op.toList) post
      simpa using h
    · refine .inl ⟨rfl, [], _, _, _, _, rfl, rfl, ⟨op, hop, ?_⟩, ?_⟩
      · rw [Node.text?, String.ofList_toList]
      · show (Cursor.after _).offset = (Cursor.after _).offset
        simp

end Piece

/-- The statements of a text are filled. -/
theorem filled_rootNode (cs : List Char) : Node.Filled cs .sourceFile (rootNode cs).children := by
  have h := (Grammar.filled_read (k := .sourceFile) cs).nodes [] []
  rwa [List.nil_append, List.append_nil, Grammar.textAll_read] at h

theorem unnamedIn_rootNode (cs : List Char) {n : Node} (hn : n ∈ (rootNode cs).preorder)
    (ht : n.text? = some "") :
    ∃ a ∈ (rootNode cs).preorder, a.kind = .variableAssignment ∧ n.UnnamedIn a.children := by
  rcases List.mem_cons.1 hn with rfl | hn
  · cases ht
  rcases (filled_rootNode cs).unnamed n hn ht with ⟨hk, -⟩ | ⟨a, ha, hk, hn⟩
  · cases hk
  · exact ⟨a, .tail _ ha, hk, hn⟩

theorem child_text_ne_empty_rootNode (cs : List Char) {a n : Node} {s : String}
    (ha : a ∈ (rootNode cs).preorder) (hk : a.kind ≠ .override) (hn : n ∈ a.children)
    (ht : n.text? = some s) : s ≠ "" := by
  rintro rfl
  rcases List.mem_cons.1 ha with rfl | ha
  · exact (filled_rootNode cs).text_ne_empty n hn ht
  · exact (filled_rootNode cs).child_text_ne_empty a ha hk n hn ht

theorem namedIn_rootNode (cs : List Char) {o : Node} (ho : o ∈ (rootNode cs).preorder)
    (hk : o.kind = .override) : o.NamedIn cs := by
  cases o with
  | leaf k r t =>
    have hfits := fitsContent_rootNode cs _ ho
    rw [Node.FitsContent, show k = .override from hk] at hfits
    cases hfits
  | branch k r ns =>
    obtain rfl : k = .override := hk
    rcases List.mem_cons.1 ho with heq | ho
    · cases heq
    · exact (filled_rootNode cs).named r ns ho

/-- In the tree of a text within the limit, a leaf without text is the name of an override right before
an operator that begins with a character of names, in an assignment. An override has no name if and only
if such an operator stands right after its colon. -/
theorem parse_filled (limit : Nat) (source : String) (h : bytes source.toList ≤ limit) :
    ∃ t root, parse limit source = .ok t ∧ t.root? = some root ∧
      (∀ n ∈ root.preorder, n.text? = some "" →
        ∃ a ∈ root.preorder, a.kind = .variableAssignment ∧ n.UnnamedIn a.children) ∧
      ∀ o ∈ root.preorder, o.kind = .override → o.NamedIn source.toList :=
  ⟨_, _, parse_eq_ok h, rfl, fun _ => unnamedIn_rootNode source.toList,
    fun _ => namedIn_rootNode source.toList⟩

/-- Overrides without names after others that have one, in an export too, and a name that begins like an
operator. -/
def unnamedOverrides : String :=
  "A:b:+= \"x\"\nexport B:c:.= \"y\"\nC:.d += \"z\"\n"

theorem parse_filled_unnamedOverrides :
    bytes unnamedOverrides.toList ≤ 64 ∧
      ∃ t root, parse 64 unnamedOverrides = .ok t ∧ t.root? = some root ∧
        (∀ n ∈ root.preorder, n.text? = some "" →
          ∃ a ∈ root.preorder, a.kind = .variableAssignment ∧ n.UnnamedIn a.children) ∧
        ∀ o ∈ root.preorder, o.kind = .override → o.NamedIn unnamedOverrides.toList :=
  ⟨by decide, parse_filled 64 unnamedOverrides (by decide)⟩

/-- A colon before an operator is an override with an empty name, and no error. -/
theorem override_without_name :
    ∃ t, parse 16 "A:+= \"x\"" = .ok t ∧
      (t.nodes.filter (·.text? == some "")).map (fun n => (n.kind, n.range.span))
        = [(.identifier, ⟨2, 2⟩)] ∧
      (t.nodes.filter (·.kind == .override)).map (fun o => o.children.map Node.text?)
        = [[some ":", some ""]] ∧
      t.errors.map Node.range = [] := by
  refine ⟨_, parse_eq_ok (by decide), ?_, ?_, ?_⟩
  · decide +kernel
  · decide +kernel
  · decide +kernel

end Recipe
