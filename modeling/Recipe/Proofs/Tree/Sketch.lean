import Recipe.Proofs.Tree.Append
import Recipe.Proofs.Tree.Walk

/-!
# Sketches of trees

A sketch is a tree without its places: kinds, and the texts of leaves. Where a recipe's nodes stand is
told by their texts (`parse_wellPlaced`), so a sketch says what was read. Pieces have a sketch of their
own, and it is the one of the nodes that they are laid out to, wherever they begin
(`Piece.map_sketch_nodesAfter`).
-/

namespace Recipe

/-- A tree without places. -/
inductive Sketch where
  | leaf (kind : Kind) (text : String)
  | branch (kind : Kind) (children : List Sketch)
deriving Repr, Inhabited

namespace Sketch

/-- The kind at the top of a sketch. -/
def kind : Sketch → Kind
  | leaf k _ => k
  | branch k _ => k

/-- The leaf of a text that may be empty: a leaf, or nothing. -/
def leaves (kind : Kind) (text : List Char) : List Sketch :=
  if text.isEmpty then [] else [.leaf kind (String.ofList text)]

mutual

/-- The kinds of a sketch, each before those below it. -/
def kinds : Sketch → List Kind
  | leaf k _ => [k]
  | branch k cs => k :: kindsAll cs

/-- The kinds of several sketches. -/
def kindsAll : List Sketch → List Kind
  | [] => []
  | s :: ss => s.kinds ++ kindsAll ss

end

theorem kindsAll_append (ss ts : List Sketch) : kindsAll (ss ++ ts) = kindsAll ss ++ kindsAll ts := by
  induction ss with
  | nil => rfl
  | cons s ss ih => rw [List.cons_append, kindsAll, kindsAll, ih, List.append_assoc]

theorem kindsAll_singleton (s : Sketch) : kindsAll [s] = s.kinds := by
  rw [kindsAll, kindsAll, List.append_nil]

theorem mem_kindsAll {k : Kind} {ss : List Sketch} : k ∈ kindsAll ss ↔ ∃ s ∈ ss, k ∈ s.kinds := by
  induction ss with
  | nil => simp [kindsAll]
  | cons s ss ih => simp [kindsAll, ih]

theorem kindsAll_leaves (kind : Kind) (text : List Char) : kindsAll (leaves kind text) ⊆ [kind] := by
  unfold leaves
  split
  · exact List.nil_subset _
  · exact List.Subset.refl _

end Sketch

namespace Node

mutual

/-- The sketch of a node. -/
def sketch : Node → Sketch
  | leaf k _ t => .leaf k t
  | branch k _ cs => .branch k (sketchAll cs)

/-- The sketches of several nodes. -/
def sketchAll : List Node → List Sketch
  | [] => []
  | n :: ns => n.sketch :: sketchAll ns

end

theorem kind_sketch (n : Node) : n.sketch.kind = n.kind := by
  cases n with
  | leaf k r t => rfl
  | branch k r cs => rfl

theorem sketchAll_eq_map (ns : List Node) : sketchAll ns = ns.map sketch := by
  induction ns with
  | nil => rfl
  | cons n ns ih => rw [sketchAll, ih, List.map_cons]

mutual

theorem kinds_sketch : ∀ n : Node, n.sketch.kinds = n.preorder.map kind
  | leaf k r t => rfl
  | branch k r cs => by
    rw [sketch, Sketch.kinds, kindsAll_sketchAll cs, preorder, List.map_cons]
    rfl

/-- A sketch has the kinds of the nodes. -/
theorem kindsAll_sketchAll : ∀ ns : List Node,
    Sketch.kindsAll (sketchAll ns) = (preorderAll ns).map kind
  | [] => rfl
  | n :: ns => by
    rw [sketchAll, Sketch.kindsAll, kinds_sketch n, kindsAll_sketchAll ns, preorderAll,
      List.map_append]

end

end Node

namespace Piece

mutual

/-- The sketch of what a piece becomes: none for a gap. -/
def sketches : Piece → List Sketch
  | token k cs => [.leaf k (String.ofList cs)]
  | gap _ => []
  | group k ps => [.branch k (sketchesAll ps)]

/-- The sketches of several pieces. -/
def sketchesAll : List Piece → List Sketch
  | [] => []
  | p :: ps => p.sketches ++ sketchesAll ps

end

@[simp] theorem sketchesAll_append (ps qs : List Piece) :
    sketchesAll (ps ++ qs) = sketchesAll ps ++ sketchesAll qs := by
  induction ps with
  | nil => rfl
  | cons p ps ih => rw [List.cons_append, sketchesAll, sketchesAll, ih, List.append_assoc]

@[simp] theorem sketchesAll_tokens (k : Kind) (cs : List Char) :
    sketchesAll (tokens k cs) = Sketch.leaves k cs := by
  unfold tokens Sketch.leaves
  split <;> rfl

theorem sketchesAll_map {α : Type} {f : α → Piece} {g : α → Sketch} (h : ∀ x, (f x).sketches = [g x])
    (xs : List α) : sketchesAll (xs.map f) = xs.map g := by
  induction xs with
  | nil => rfl
  | cons x xs ih => rw [List.map_cons, List.map_cons, sketchesAll, h, ih, List.singleton_append]

mutual

theorem sketchAll_locate (c : Cursor) : ∀ p : Piece,
    Node.sketchAll (p.locate c).nodes = p.sketches
  | token _ _ => rfl
  | gap _ => rfl
  | group k ps => by
    rw [locate, sketches, ← sketchAll_locateAll c ps]
    rfl

theorem sketchAll_locateAll (c : Cursor) : ∀ ps : List Piece,
    Node.sketchAll (locateAll c ps).nodes = sketchesAll ps
  | [] => rfl
  | p :: ps => by
    have hp := sketchAll_locate c p
    have hps := sketchAll_locateAll (p.locate c).stop ps
    rw [Node.sketchAll_eq_map] at hp hps ⊢
    rw [locateAll, sketchesAll, List.map_append, hp, hps]

end

/-- Pieces are laid out to nodes of the same sketch wherever they begin. -/
theorem map_sketch_nodesAfter (pre : List Char) (ps : List Piece) :
    (nodesAfter pre ps).map Node.sketch = sketchesAll ps := by
  rw [← Node.sketchAll_eq_map]
  exact sketchAll_locateAll _ ps

end Piece

/-- A tree has no error if and only if no node below its statements is one. -/
theorem errors_eq_nil_iff {limit : Nat} {source : String} {t : Tree}
    (h : parse limit source = .ok t) :
    t.errors = [] ↔ .error ∉ Sketch.kindsAll (t.statements.map Node.sketch) := by
  have herrors : t.errors = (Node.preorderAll t.statements).filter Node.isError := by
    rw [(of_parse h).2]
    show (rootNode source.toList).walk.filter Node.isError = _
    have hroot : ¬(rootNode source.toList).isError = true := by
      simp [rootNode, Node.isError, Node.kind]
    rw [Node.walk_eq_preorder, Node.preorder_eq, List.filter_cons_of_neg hroot]
    rfl
  rw [herrors, ← Node.sketchAll_eq_map, Node.kindsAll_sketchAll, List.filter_eq_nil_iff, List.mem_map]
  simp [Node.isError]

end Recipe
