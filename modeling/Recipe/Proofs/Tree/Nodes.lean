import Recipe.Document
import Recipe.Outline
import Recipe.Proofs.Table
import Recipe.Proofs.Tree.Layout
import Recipe.Proofs.Tree.Walk

/-!
# Ranges that are read off a tree

Diagnostics, outlines, declarations and descriptions have no ranges of their own: each of their ranges
is that of a node of the tree they are read off (`Tree.nodes`). So whatever is known about the nodes of
a tree, such as that they are well placed (`Document.wellPlaced_of_mem_nodes`), is known about all these
ranges.
-/

namespace Recipe

open Text (bytes)

namespace Node

theorem self_mem_preorder (n : Node) : n ∈ n.preorder :=
  preorder_eq n ▸ List.mem_cons_self

theorem mem_preorder_of_child? {n c : Node} {k : Kind} (h : n.child? k = some c) : c ∈ n.preorder :=
  mem_preorder_of_mem_children n.self_mem_preorder (List.mem_of_find?_eq_some h)

theorem kind_of_child? {n c : Node} {k : Kind} (h : n.child? k = some c) : c.kind = k := by
  have hk := List.find?_some h
  exact eq_of_beq hk

/-- The name that a statement declares is the first name in the statement or in the assignment that it
exports. -/
theorem exists_parent_of_declaredName? {n name : Node} {k : SymbolKind}
    (h : n.declaredName? = some (name, k)) :
    ∃ a ∈ n.preorder, a.kind ≠ .override ∧ a.child? .identifier = some name := by
  have hname : ∀ {name? : Option Node} {j : SymbolKind},
      (name?.map fun m => (m, j)) = some (name, k) → name? = some name := by
    intro name? j h
    obtain ⟨m, hm, heq⟩ := Option.map_eq_some_iff.1 h
    cases heq
    exact hm
  have hself : n.kind ≠ .override → n.child? .identifier = some name →
      ∃ a ∈ n.preorder, a.kind ≠ .override ∧ a.child? .identifier = some name :=
    fun hk h => ⟨n, n.self_mem_preorder, hk, h⟩
  unfold declaredName? at h
  split at h
  · rename_i hk
    exact hself (by simp [hk]) (hname h)
  · obtain ⟨a, ha, hm⟩ := Option.bind_eq_some_iff.1 (hname h)
    exact ⟨a, mem_preorder_of_child? ha, by simp [kind_of_child? ha], hm⟩
  · rename_i hk
    exact hself (by simp [hk]) (Option.eq_some_of_filter_eq_some (hname h))
  · rename_i hk
    exact hself (by simp [hk]) (Option.eq_some_of_filter_eq_some (hname h))
  · rename_i hk
    exact hself (by simp [hk]) (Option.eq_some_of_filter_eq_some (hname h))
  · cases h

/-- The name that a statement declares is a node of the statement. -/
theorem mem_preorder_of_declaredName? {n name : Node} {k : SymbolKind}
    (h : n.declaredName? = some (name, k)) : name ∈ n.preorder := by
  obtain ⟨a, ha, -, hname⟩ := exists_parent_of_declaredName? h
  exact preorder_subset ha (mem_preorder_of_child? hname)

end Node

/-- An entry of a statement selects a name or a path in it. -/
theorem OutlineEntry.exists_part {n : Node} {e : OutlineEntry} (h : e ∈ ofStatement n) :
    ∃ a ∈ n.preorder, a.kind ≠ .override ∧ ∃ m ∈ a.children,
      (m.kind = .identifier ∨ m.kind = .path) ∧ e.range = n.range ∧ e.selection = m.range := by
  have hpaths : ∀ {kind : SymbolKind} {detail : String}, n.kind ≠ .override →
      e ∈ ofPaths n kind detail → ∃ a ∈ n.preorder, a.kind ≠ .override ∧ ∃ m ∈ a.children,
        (m.kind = .identifier ∨ m.kind = .path) ∧ e.range = n.range ∧ e.selection = m.range := by
    intro kind detail hk he
    obtain ⟨path, hp, rfl⟩ := List.mem_map.1 he
    obtain ⟨hmem, hpath⟩ := List.mem_filter.1 hp
    exact ⟨n, n.self_mem_preorder, hk, path, hmem, .inr (eq_of_beq hpath), rfl, rfl⟩
  unfold ofStatement at h
  split at h
  · rename_i hk
    exact hpaths (by simp [hk]) h
  · rename_i hk
    exact hpaths (by simp [hk]) h
  · rename_i hk
    exact hpaths (by simp [hk]) h
  · obtain ⟨⟨name, kind⟩, hname, rfl⟩ := Option.map_eq_some_iff.1 (Option.mem_toList.1 h)
    obtain ⟨a, ha, hk, hchild⟩ := Node.exists_parent_of_declaredName? hname
    exact ⟨a, ha, hk, name, List.mem_of_find?_eq_some hchild,
      .inl (Node.kind_of_child? hchild), rfl, rfl⟩

namespace Tree

/-- The nodes of a tree. -/
def nodes (t : Tree) : List Node :=
  (t.root?.map Node.preorder).getD []

theorem mem_nodes {t : Tree} {n : Node} :
    n ∈ t.nodes ↔ ∃ root, t.root? = some root ∧ n ∈ root.preorder := by
  unfold nodes
  cases t.root? <;> simp

theorem preorder_subset_nodes {t : Tree} {n : Node} (h : n ∈ t.nodes) : n.preorder ⊆ t.nodes := by
  obtain ⟨root, hroot, hn⟩ := mem_nodes.1 h
  intro m hm
  exact mem_nodes.2 ⟨root, hroot, Node.preorder_subset hn hm⟩

theorem statements_subset_nodes (t : Tree) : t.statements ⊆ t.nodes := by
  intro n hn
  unfold statements at hn
  cases hr : t.root? with
  | none =>
    rw [hr] at hn
    cases hn
  | some root =>
    rw [hr] at hn
    exact mem_nodes.2 ⟨root, hr, Node.mem_preorder_of_mem_children root.self_mem_preorder hn⟩

/-- The range is that of a node of the tree. -/
def HasRange (t : Tree) (r : Range) : Prop :=
  ∃ n ∈ t.nodes, n.range = r

theorem hasRange_of_declaredName? {t : Tree} {n name : Node} {k : SymbolKind} (hn : n ∈ t.statements)
    (h : n.declaredName? = some (name, k)) : t.HasRange name.range :=
  ⟨name, preorder_subset_nodes (t.statements_subset_nodes hn) (Node.mem_preorder_of_declaredName? h), rfl⟩

theorem hasRange_of_mem_diagnostics {t : Tree} {d : Diagnostic} (h : d ∈ t.diagnostics) :
    t.HasRange d.range := by
  obtain ⟨n, hn, rfl⟩ := List.mem_map.1 h
  refine ⟨n, ?_, rfl⟩
  unfold errors at hn
  cases hr : t.root? with
  | none =>
    rw [hr] at hn
    cases hn
  | some root =>
    rw [hr] at hn
    have hm := (List.mem_filter.1 hn).1
    rw [Node.walk_eq_preorder] at hm
    exact mem_nodes.2 ⟨root, hr, hm⟩

theorem hasRange_of_mem_outline {t : Tree} {e : OutlineEntry} (h : e ∈ t.outline) :
    t.HasRange e.range ∧ t.HasRange e.selection := by
  obtain ⟨n, hn, he⟩ := List.mem_flatMap.1 h
  have hnode := t.statements_subset_nodes hn
  obtain ⟨a, ha, -, m, hm, -, hrange, hselection⟩ := OutlineEntry.exists_part he
  have hpart := preorder_subset_nodes hnode (Node.mem_preorder_of_mem_children ha hm)
  exact ⟨⟨n, hnode, hrange.symm⟩, ⟨m, hpart, hselection.symm⟩⟩

end Tree

/-! ## Declarations -/

theorem Declarations.exists_of_mem_values {uri : Uri} {ns : List Node} {s : Symbol}
    (h : s ∈ (ofStatements uri ns).values) : ∃ n ∈ ns, Symbol.ofStatement? uri n = some s := by
  have hfold : ∀ (ss : List Symbol) (t : Declarations), s ∈ (ss.foldl (fun t s => t.insert s.name s) t).values →
      s ∈ t.values ∨ s ∈ ss := by
    intro ss
    induction ss with
    | nil => exact fun t h => .inl h
    | cons x ss ih =>
      intro t h
      rcases ih _ h with h | h
      · rw [Table.values_insert] at h
        rcases List.mem_append.1 h with h | h
        · exact .inl ((t.values_erase_sublist x.name).subset h)
        · exact .inr (List.mem_cons.2 (.inl (List.mem_singleton.1 h)))
      · exact .inr (List.mem_cons_of_mem x h)
  rcases hfold _ _ h with h | h
  · cases h
  · exact List.mem_filterMap.1 h

theorem Declarations.of_mem_values {uri : Uri} {t : Tree} {s : Symbol} (h : s ∈ (ofTree uri t).values) :
    s.uri = uri ∧ t.HasRange s.range := by
  obtain ⟨n, hn, hs⟩ := exists_of_mem_values h
  obtain ⟨⟨name, kind⟩, hname, rfl⟩ := Option.map_eq_some_iff.1 hs
  exact ⟨rfl, Tree.hasRange_of_declaredName? hn hname⟩

/-! ## Documents -/

namespace Document

variable {limit : Nat} {uri : Uri} {source : String}

theorem of_mem_declarations {s : Symbol} (h : s ∈ (read limit uri source).declarations.values) :
    s.uri = uri ∧ (read limit uri source).tree.HasRange s.range :=
  Declarations.of_mem_values h

theorem mem_preorder_of_wordOnPath {n m : Node} {path : List Nat} (h : wordOnPath n path = some m) :
    m ∈ n.preorder := by
  induction path generalizing n with
  | nil =>
    rw [wordOnPath] at h
    split at h
    · exact Option.some.inj h ▸ n.self_mem_preorder
    · cases h
  | cons i path ih =>
    rw [wordOnPath] at h
    obtain ⟨c, hc, h⟩ := Option.bind_eq_some_iff.1 h
    have hsub := Node.preorder_subset
      (Node.mem_preorder_of_mem_children n.self_mem_preorder (List.mem_of_getElem? hc))
    split at h
    · exact hsub (Node.mem_preorder_of_child? h)
    · exact hsub (ih h)

theorem hasRange_of_hover? {d : Document} {p : Position} {h : Hover} (hh : d.hover? p = some h) :
    d.tree.HasRange h.range := by
  obtain ⟨word, hw, hh⟩ := Option.bind_eq_some_iff.1 hh
  obtain ⟨s, -, rfl⟩ := Option.map_eq_some_iff.1 hh
  obtain ⟨root, hroot, hw⟩ := Option.bind_eq_some_iff.1 hw
  exact ⟨word, Tree.mem_nodes.2 ⟨root, hroot, mem_preorder_of_wordOnPath hw⟩, rfl⟩

/-- The symbol that is named at a position is one of the declarations. -/
theorem mem_values_of_definition? {d : Document} {p : Position} {s : Symbol}
    (h : d.definition? p = some s) : s ∈ d.declarations.values := by
  obtain ⟨word, -, hs⟩ := Option.bind_eq_some_iff.1 h
  obtain ⟨text, -, hs⟩ := Option.bind_eq_some_iff.1 hs
  exact Table.mem_values_of_get? hs

/-- The nodes of a document that was read are well placed, and its text is within the limit. -/
theorem wellPlaced_of_mem_nodes {n : Node} (h : n ∈ (read limit uri source).tree.nodes) :
    n.WellPlaced source.toList ∧ bytes source.toList ≤ limit := by
  obtain ⟨root, hroot, hn⟩ := Tree.mem_nodes.1 h
  unfold read parse at hroot
  dsimp only at hroot
  split at hroot
  · cases hroot
  · rename_i hle
    cases hroot
    exact ⟨wellPlaced_rootNode source.toList hn, Nat.not_lt.1 hle⟩

end Document

end Recipe
