import Recipe.Proofs.Grammar.Content
import Recipe.Proofs.Tree.Layout

/-!
# The content of nodes

The children of a node spell a word of its kind. Consumers of a tree look up children by their kind,
and this is what they find: `parse_fitsContent` states it of every node of every tree, from what the
grammar says of the groups that the nodes are laid out from.
-/

namespace Recipe

open Text (bytes)

/-- A leaf has a kind without content; the kinds of a branch's children are a word of its kind, and a
python task has a child that is the keyword `python`. -/
def Node.FitsContent : Node → Prop
  | leaf k _ _ => k.content? = none
  | branch k _ cs =>
    (∃ r, k.content? = some r ∧ cs.map kind ∈ r.matches') ∧
      (k = .pythonFunctionDefinition → ∃ c ∈ cs, c.kind = .keyword ∧ c.text? = some "python")

/-- A node of a kind without content is a leaf. -/
theorem Node.FitsContent.exists_text {n : Node} (h : n.FitsContent) (hk : n.kind.content? = none) :
    ∃ s, n.text? = some s := by
  cases n with
  | leaf k r s => exact ⟨s, rfl⟩
  | branch k r cs =>
    obtain ⟨⟨language, hlanguage, -⟩, -⟩ := h
    rw [show k.content? = none from hk] at hlanguage
    cases hlanguage

namespace Piece

theorem map_kind_nodes (pre : List Char) (ps : List Piece) :
    (locateAll (.after pre) ps).nodes.map Node.kind = kinds ps := by
  induction ps generalizing pre with
  | nil => rfl
  | cons p ps ih =>
    cases p with
    | token k t => rw [nodes_token, List.map_cons, ih, kinds_token]; rfl
    | gap g => rw [nodes_gap, ih, kinds_gap]
    | group k inside => rw [nodes_group, List.map_cons, ih, kinds_group]; rfl

/-- A token among pieces is a leaf among their nodes. -/
theorem exists_leaf_of_mem {k : Kind} {t : List Char} {ps : List Piece} (h : token k t ∈ ps)
    (pre : List Char) :
    ∃ n ∈ (locateAll (.after pre) ps).nodes, n.kind = k ∧ n.text? = some (String.ofList t) := by
  induction ps generalizing pre with
  | nil => cases h
  | cons p ps ih =>
    rcases List.mem_cons.1 h with rfl | h
    · rw [nodes_token]
      exact ⟨_, List.mem_cons_self, rfl, rfl⟩
    · have hp := ih h (pre ++ p.text)
      rw [locateAll, stop_locate]
      exact hp.imp fun n hn => ⟨List.mem_append_right _ hn.1, hn.2⟩

/-- The nodes of pieces that fit have children that fit. -/
theorem Fits.fitsContent {ps : List Piece} (h : Fits ps) (pre : List Char) :
    ∀ n ∈ Node.preorderAll (locateAll (.after pre) ps).nodes, n.FitsContent := by
  induction h generalizing pre with
  | nil => exact List.forall_mem_nil _
  | @token k t ps hk _ ih =>
    rw [nodes_token]
    exact List.forall_mem_cons.2 ⟨hk, ih (pre ++ t)⟩
  | @gap g ps _ ih =>
    rw [nodes_gap]
    exact ih (pre ++ g)
  | @group k r inside ps hk hw hs _ _ ihi ih =>
    rw [nodes_group]
    refine List.forall_mem_cons.2 ⟨⟨⟨r, hk, ?_⟩, fun hp => ?_⟩, ?_⟩
    · rwa [map_kind_nodes]
    · exact exists_leaf_of_mem (hs hp) pre
    · exact List.forall_mem_append.2 ⟨ihi pre, ih (pre ++ textAll inside)⟩

end Piece

theorem fitsContent_rootNode (cs : List Char) : ∀ n ∈ (rootNode cs).preorder, n.FitsContent := by
  have h := (Grammar.fits_read cs).fitsContent []
  rwa [Piece.nodes_group, Grammar.textAll_read, Node.preorderAll, Piece.locateAll,
    Node.preorderAll, List.append_nil, List.nil_append, ← range_rootNode] at h

/-- A text within the limit has a tree of which every node has the children that its kind asks for. -/
theorem parse_fitsContent (limit : Nat) (source : String) (h : bytes source.toList ≤ limit) :
    ∃ t root, parse limit source = .ok t ∧ t.root? = some root ∧ root.kind = .sourceFile ∧
      ∀ n ∈ root.preorder, n.FitsContent :=
  ⟨_, _, parse_eq_ok h, rfl, rfl, fitsContent_rootNode source.toList⟩

/-- An export whose value has no closing quote, an expansion without a name, and a python task that
no line closes. -/
def unclosed : String :=
  "export A:b[c] = \"x\nB = \"$\x7b\x7d$\x7b@d()\x7d\" y\nfakeroot python () \x7b\n  pass\n"

theorem parse_fitsContent_unclosed :
    bytes unclosed.toList ≤ 128 ∧
      ∃ t root, parse 128 unclosed = .ok t ∧ t.root? = some root ∧ root.kind = .sourceFile ∧
        ∀ n ∈ root.preorder, n.FitsContent :=
  ⟨by decide, parse_fitsContent 128 unclosed (by decide)⟩

end Recipe
