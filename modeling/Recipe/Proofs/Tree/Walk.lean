import Recipe.Node.Basic

/-!
# Walks

Walking a tree with a stack meets its nodes in preorder (`walk_eq_preorder`), and the nodes below a
node are nodes of every tree that has the node (`preorder_subset`).
-/

namespace Recipe.Node

theorem preorderAll_append (ms ns : List Node) :
    preorderAll (ms ++ ns) = preorderAll ms ++ preorderAll ns := by
  induction ms with
  | nil => rfl
  | cons m ms ih => rw [List.cons_append, preorderAll, preorderAll, ih, List.append_assoc]

theorem preorder_eq (n : Node) : n.preorder = n :: preorderAll n.children := by
  cases n with
  | leaf k r t => rfl
  | branch k r cs => rfl

theorem walkStack_eq_preorderAll (stack : List Node) : walkStack stack = preorderAll stack := by
  fun_induction walkStack stack with
  | case1 => rfl
  | case2 n stack ih => rw [ih, preorderAll_append, preorderAll, preorder_eq, List.cons_append]

theorem walk_eq_preorder (n : Node) : n.walk = n.preorder := by
  rw [walk, walkStack_eq_preorderAll, preorderAll, preorderAll, List.append_nil]

theorem mem_preorderAll_of_mem {n : Node} {ns : List Node} (h : n ∈ ns) : n ∈ preorderAll ns := by
  induction ns with
  | nil => cases h
  | cons m ns ih =>
    rw [preorderAll, List.mem_append]
    rcases List.mem_cons.1 h with rfl | h
    · exact .inl (preorder_eq n ▸ List.mem_cons_self)
    · exact .inr (ih h)

mutual

/-- The nodes below a node of a tree are nodes of the tree. -/
theorem preorder_subset {m : Node} : ∀ {n : Node}, m ∈ n.preorder → m.preorder ⊆ n.preorder
  | leaf k r t, h => by rw [List.mem_singleton.1 h]; exact List.Subset.refl _
  | branch k r cs, h => by
    rcases List.mem_cons.1 h with rfl | h
    · exact List.Subset.refl _
    · exact List.Subset.trans (preorder_subset_preorderAll h) (List.subset_cons_self _ _)

theorem preorder_subset_preorderAll {m : Node} :
    ∀ {ns : List Node}, m ∈ preorderAll ns → m.preorder ⊆ preorderAll ns
  | n :: ns, h => by
    rw [preorderAll]
    rcases List.mem_append.1 h with h | h
    · exact List.Subset.trans (preorder_subset h) (List.subset_append_left _ _)
    · exact List.Subset.trans (preorder_subset_preorderAll h) (List.subset_append_right _ _)

end

/-- A child of a node of a tree is a node of the tree. -/
theorem mem_preorder_of_mem_children {root n c : Node} (hn : n ∈ root.preorder)
    (hc : c ∈ n.children) : c ∈ root.preorder :=
  preorder_subset hn (preorder_eq n ▸ List.mem_cons_of_mem n (mem_preorderAll_of_mem hc))

end Recipe.Node
