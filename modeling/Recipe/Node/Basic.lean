import Recipe.Node.Kind
import Recipe.Position

/-!
# Nodes

A node of a recipe's tree is a leaf with its text or a branch with its children; both have a kind
and a range. `walk` visits a tree with a stack of nodes still to visit, `preorder` lists it by
recursion. `pathTo` descends to the deepest node that contains a position, and `follow` goes back
down a path. A `NodeRef` is a node as its root and the path to it.
-/

namespace Recipe

/-- A node of a recipe's tree. -/
inductive Node where
  | leaf (kind : Kind) (range : Range) (text : String)
  | branch (kind : Kind) (range : Range) (children : List Node)
deriving Repr, Inhabited

namespace Node

/-- The kind of a node. -/
def kind : Node → Kind
  | leaf k _ _ => k
  | branch k _ _ => k

/-- The range of a node. -/
def range : Node → Range
  | leaf _ r _ => r
  | branch _ r _ => r

/-- The text of a leaf. -/
def text? : Node → Option String
  | leaf _ _ t => some t
  | branch _ _ _ => none

/-- The children of a node; a leaf has none. -/
def children : Node → List Node
  | leaf _ _ _ => []
  | branch _ _ cs => cs

/-- Whether the node marks text that fits no rule. -/
def isError (n : Node) : Bool :=
  n.kind == .error

/-- The first child of a kind. -/
def child? (n : Node) (k : Kind) : Option Node :=
  n.children.find? (·.kind == k)

/-- The children of a kind. -/
def childrenOfKind (n : Node) (k : Kind) : List Node :=
  n.children.filter (·.kind == k)

/-! ## Visiting every node -/

mutual

/-- The node, then the nodes below it, child after child. -/
def preorder : Node → List Node
  | leaf k r t => [leaf k r t]
  | branch k r cs => branch k r cs :: preorderAll cs

/-- The nodes of several trees, tree after tree. -/
def preorderAll : List Node → List Node
  | [] => []
  | n :: ns => n.preorder ++ preorderAll ns

end

mutual

/-- The number of nodes of a tree. -/
def size : Node → Nat
  | leaf _ _ _ => 1
  | branch _ _ cs => 1 + sizeAll cs

/-- The number of nodes of several trees. -/
def sizeAll : List Node → Nat
  | [] => 0
  | n :: ns => n.size + sizeAll ns

end

theorem sizeAll_append (ms ns : List Node) : sizeAll (ms ++ ns) = sizeAll ms + sizeAll ns := by
  induction ms with
  | nil => simp [sizeAll]
  | cons m ms ih => simp [sizeAll, ih, Nat.add_assoc]

theorem size_eq (n : Node) : n.size = 1 + sizeAll n.children := by
  cases n <;> simp [size, children, sizeAll]

/-- Visits the nodes on a stack: the top one comes next, and its children take its place. -/
def walkStack : List Node → List Node
  | [] => []
  | n :: stack => n :: walkStack (n.children ++ stack)
termination_by stack => sizeAll stack
decreasing_by
  rw [sizeAll_append, sizeAll, size_eq]
  omega

/-- The nodes of a tree in the order in which a walk meets them. -/
def walk (n : Node) : List Node :=
  walkStack [n]

/-! ## Paths -/

mutual

/-- The child indices that lead from a node to the deepest node below it that contains a position;
of several children that contain it the first one is taken. -/
def pathTo (p : Position) : Node → List Nat
  | leaf _ _ _ => []
  | branch _ _ cs => pathAmong p 0 cs

/-- The path to a position through the first of `cs` that contains it; `i` is the index of the
first of them. -/
def pathAmong (p : Position) (i : Nat) : List Node → List Nat
  | [] => []
  | c :: cs => if c.range.contains p then i :: c.pathTo p else pathAmong p (i + 1) cs

end

/-- The node at the end of a path of child indices. -/
def follow (n : Node) : List Nat → Option Node
  | [] => some n
  | i :: path => n.children[i]?.bind (·.follow path)

/-- The deepest node that contains a position, or the node itself. -/
def deepest (n : Node) (p : Position) : Node :=
  (n.follow (n.pathTo p)).getD n

end Node

/-- A node of a tree, told by the root of the tree and the path to it. -/
structure NodeRef where
  root : Node
  path : List Nat
deriving Repr, Inhabited

/-- The node that is told; an index that no child has is passed over. -/
def NodeRef.node (r : NodeRef) : Node :=
  r.path.foldl (fun n i => n.children[i]?.getD n) r.root

end Recipe
