import Recipe.Proofs.Tree.Lookup

/-!
# Walks step by step

A walk under way is told by the stack of nodes whose trees are still to be met, the next one at its
end. A step takes that node off and puts its children there, the last one first (`Walk.next`), so it
meets the first of the nodes that are left (`Walk.next_cases`). From any stack the steps come to an
end, and they meet what is left, in preorder (`Walk.meets_iff`).

Equal nodes may stand at several places of a tree; a place is told by the path that leads there.
`Node.paths` lists the places in the order of their paths, each once (`Node.mem_paths_iff`,
`Node.pairwise_paths`), and these are the places of the nodes in preorder (`Node.map_follow_paths`).
-/

namespace Recipe

/-- A walk under way: the nodes whose trees are still to be met, the next one last. -/
structure Walk where
  stack : Array Node

namespace Walk

/-- The walk of a tree, before its first step. -/
def start (root : Node) : Walk :=
  ⟨#[root]⟩

/-- One step: the node that is met, if one is left, and the walk from there. -/
def next (w : Walk) : Option Node × Walk :=
  match w.stack.back? with
  | none => (none, w)
  | some n => (some n, ⟨w.stack.pop ++ n.children.reverse⟩)

/-- Taking steps until no node is left meets these nodes, in this order. -/
inductive Meets : Walk → List Node → Prop
  | done {w w' : Walk} : w.next = (none, w') → Meets w []
  | step {w w' : Walk} {n : Node} {met : List Node} :
    w.next = (some n, w') → Meets w' met → Meets w (n :: met)

/-- The nodes that are left to be met. -/
def left (w : Walk) : List Node :=
  Node.preorderAll w.stack.toList.reverse

@[simp] theorem left_start (root : Node) : (start root).left = root.preorder := by
  simp [left, start, Node.preorderAll]

/-- A step meets the first of the nodes that are left and leaves the others, whatever stands below on
the stack; it meets none if and only if no node is left. -/
theorem next_cases (w : Walk) :
    w.left = [] ∧ w.next = (none, w) ∨
      ∃ n w', w.left = n :: w'.left ∧ w.next = (some n, w') := by
  obtain ⟨stack⟩ := w
  by_cases hempty : stack = #[]
  · subst hempty
    exact .inl ⟨rfl, rfl⟩
  · obtain ⟨below, n, rfl⟩ := Array.exists_push_of_ne_empty hempty
    refine .inr ⟨n, ⟨below ++ n.children.reverse⟩, ?_, by simp [next]⟩
    -- The children were put on in reverse, so seen from the top they are in order again.
    have hchildren : (below ++ n.children.reverse).toList.reverse =
        n.children ++ below.toList.reverse := by simp
    have htop : (below.push n).toList.reverse = n :: below.toList.reverse := by simp
    rw [left, left, hchildren, htop, Node.preorderAll, Node.preorder_eq, Node.preorderAll_append,
      List.cons_append]

/-- The steps come to an end. Each leaves one node fewer, which the induction is on. -/
theorem meets_left (w : Walk) : w.Meets w.left := by
  generalize hleft : w.left = met
  induction met generalizing w with
  | nil =>
    rcases w.next_cases with ⟨-, hnext⟩ | ⟨n, w', hcons, -⟩
    · exact .done hnext
    · cases hleft.symm.trans hcons
  | cons m met ih =>
    rcases w.next_cases with ⟨hnil, -⟩ | ⟨n, w', hcons, hnext⟩
    · cases hleft.symm.trans hnil
    · obtain ⟨rfl, htail⟩ := List.cons.inj (hleft.symm.trans hcons)
      exact .step hnext (ih w' htail.symm)

theorem Meets.eq_left {w : Walk} {met : List Node} (h : w.Meets met) : met = w.left := by
  induction h with
  | @done w w' hnone =>
    rcases w.next_cases with ⟨hnil, -⟩ | ⟨n, v, -, hnext⟩
    · exact hnil.symm
    · cases hnone.symm.trans hnext
  | @step w w' n met hsome _ ih =>
    rcases w.next_cases with ⟨-, hnext⟩ | ⟨m, v, hcons, hnext⟩
    · cases hsome.symm.trans hnext
    · cases hsome.symm.trans hnext
      rw [ih, hcons]

/-- From any stack, the nodes that are met are those that are left. -/
theorem meets_iff {w : Walk} {met : List Node} : w.Meets met ↔ met = w.left :=
  ⟨Meets.eq_left, fun h => h ▸ w.meets_left⟩

end Walk

namespace Node

theorem preorderAll_eq_flatMap_walk (ns : List Node) : preorderAll ns = ns.flatMap walk := by
  induction ns with
  | nil => rfl
  | cons n ns ih => rw [preorderAll, ih, List.flatMap_cons, walk_eq_preorder]

/-! ## Places -/

mutual

/-- The paths to the nodes of a tree, a path before those that go on from it. -/
def paths : Node → List (List Nat)
  | leaf _ _ _ => [[]]
  | branch _ _ cs => [] :: pathsFrom 0 cs

/-- The paths to the nodes of several trees, of which the first is the child at index `i`. -/
def pathsFrom (i : Nat) : List Node → List (List Nat)
  | [] => []
  | n :: ns => n.paths.map (i :: ·) ++ pathsFrom (i + 1) ns

end

theorem paths_eq (n : Node) : n.paths = [] :: pathsFrom 0 n.children := by
  cases n with
  | leaf k r t => rfl
  | branch k r cs => rfl

theorem mem_pathsFrom_iff {i : Nat} {ns : List Node} {path : List Nat} :
    path ∈ pathsFrom i ns ↔
      ∃ j c rest, ns[j]? = some c ∧ rest ∈ c.paths ∧ path = (i + j) :: rest := by
  induction ns generalizing i with
  | nil => simp [pathsFrom]
  | cons n ns ih =>
    rw [pathsFrom, List.mem_append, List.mem_map, ih]
    constructor
    · rintro (⟨rest, hrest, rfl⟩ | ⟨j, c, rest, hc, hrest, rfl⟩)
      · exact ⟨0, n, rest, rfl, hrest, rfl⟩
      · exact ⟨j + 1, c, rest, hc, hrest, by rw [Nat.add_right_comm, Nat.add_assoc]⟩
    · rintro ⟨j, c, rest, hc, hrest, rfl⟩
      cases j with
      | zero => exact .inl ⟨rest, Option.some.inj hc ▸ hrest, rfl⟩
      | succ j => exact .inr ⟨j, c, rest, hc, hrest, by rw [Nat.add_right_comm, Nat.add_assoc]⟩

/-- The paths of a tree are those that lead to a node of it. -/
theorem mem_paths_iff {n : Node} {path : List Nat} : path ∈ n.paths ↔ (n.follow path).isSome := by
  induction path generalizing n with
  | nil => exact iff_of_true (n.paths_eq ▸ List.mem_cons_self) rfl
  | cons i path ih =>
    rw [paths_eq, List.mem_cons, mem_pathsFrom_iff, Option.isSome_iff_exists]
    constructor
    · rintro (h | ⟨j, c, rest, hc, hrest, h⟩)
      · cases h
      · obtain ⟨rfl, rfl⟩ := List.cons.inj h
        obtain ⟨m, hm⟩ := Option.isSome_iff_exists.1 (ih.1 hrest)
        exact ⟨m, follow_cons_eq_some.2 ⟨c, by rwa [Nat.zero_add], hm⟩⟩
    · rintro ⟨m, h⟩
      obtain ⟨c, hc, hm⟩ := follow_cons_eq_some.1 h
      exact .inr ⟨i, c, path, hc, ih.2 (Option.isSome_iff_exists.2 ⟨m, hm⟩), by rw [Nat.zero_add]⟩

mutual

/-- The paths of a tree are listed in lexicographic order, so none of them is listed twice. -/
theorem pairwise_paths : ∀ n : Node, n.paths.Pairwise (List.Lex (· < ·))
  | leaf k r t => List.pairwise_singleton _ _
  | branch k r cs => by
    refine List.pairwise_cons.2 ⟨fun path hpath => ?_, pairwise_pathsFrom 0 cs⟩
    obtain ⟨j, c, rest, -, -, rfl⟩ := mem_pathsFrom_iff.1 hpath
    exact .nil

theorem pairwise_pathsFrom (i : Nat) : ∀ ns : List Node, (pathsFrom i ns).Pairwise (List.Lex (· < ·))
  | [] => List.Pairwise.nil
  | n :: ns => by
    refine List.pairwise_append.2
      ⟨List.pairwise_map.2 ((pairwise_paths n).imp .cons), pairwise_pathsFrom (i + 1) ns, ?_⟩
    intro path hpath path' hpath'
    obtain ⟨rest, -, rfl⟩ := List.mem_map.1 hpath
    obtain ⟨j, c, rest', -, -, rfl⟩ := mem_pathsFrom_iff.1 hpath'
    have hlt : i < i + 1 + j := by omega
    exact .rel hlt

end

/-- Equal leaves are places of their own. -/
example (k : Kind) (r : Range) (t : String) :
    (branch k r [branch k r [leaf k r t, leaf k r t], leaf k r t]).paths =
      [[], [0], [0, 0], [0, 1], [1]] := rfl

mutual

/-- The paths of a tree lead to its nodes in preorder. -/
theorem map_follow_paths : ∀ n : Node, n.paths.map n.follow = n.preorder.map some
  | leaf k r t => rfl
  | branch k r cs => by
    have hchild : ∀ j c, cs[j]? = some c → ∀ path,
        (branch k r cs).follow ((0 + j) :: path) = c.follow path := by
      intro j c hc path
      rw [Nat.zero_add, follow, children, hc, Option.bind_some]
    rw [paths, preorder, List.map_cons, List.map_cons, map_pathsFrom hchild, follow]

/-- `f` follows paths down from a node that has `ns` among its children, the first at index `i`. -/
theorem map_pathsFrom {f : List Nat → Option Node} : ∀ {i : Nat} {ns : List Node},
    (∀ j c, ns[j]? = some c → ∀ path, f ((i + j) :: path) = c.follow path) →
    (pathsFrom i ns).map f = (preorderAll ns).map some
  | _, [], _ => rfl
  | i, n :: ns, hf => by
    have hfirst : n.paths.map (f ∘ (i :: ·)) = n.preorder.map some := by
      rw [← map_follow_paths n]
      exact List.map_congr_left fun path _ => hf 0 n rfl path
    have hrest : ∀ j c, ns[j]? = some c → ∀ path, f ((i + 1 + j) :: path) = c.follow path := by
      intro j c hc path
      rw [Nat.add_right_comm, Nat.add_assoc]
      exact hf (j + 1) c hc path
    rw [pathsFrom, preorderAll, List.map_append, List.map_append, List.map_map, hfirst,
      map_pathsFrom hrest]

end

/-- Taking steps from the root of a tree comes to an end and meets the nodes that the walk of the tree
lists, which is the preorder: the root, and then what the walks of its children list, child after child.
Every place of the tree is met exactly once, in the lexicographic order of the paths. -/
theorem meets_in_preorder (n : Node) :
    (∀ met, (Walk.start n).Meets met ↔ met = n.walk) ∧
      n.walk = n.preorder ∧
      n.walk = n :: n.children.flatMap walk ∧
      ∃ places : List (List Nat),
        (∀ path, path ∈ places ↔ (n.follow path).isSome) ∧
        places.Pairwise (List.Lex (· < ·)) ∧
        places.map n.follow = n.walk.map some := by
  have hwalk := n.walk_eq_preorder
  refine ⟨fun met => ?_, hwalk, ?_, n.paths, fun _ => mem_paths_iff, n.pairwise_paths, ?_⟩
  · rw [Walk.meets_iff, Walk.left_start, hwalk]
  · rw [hwalk, preorder_eq, preorderAll_eq_flatMap_walk]
  · rw [hwalk, map_follow_paths]

end Node

end Recipe
