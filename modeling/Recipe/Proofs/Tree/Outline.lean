import Recipe.Outline
import Recipe.Proofs.Tree.Diagnostics

/-!
# Outlines and declarations

An entry of an outline selects a name or a path with text inside its statement
(`OutlineEntry.exists_part_rootNode`). So selections lie inside the ranges of their entries, and they
stand in the text in the order of the outline (`inside_of_mem_outline`, `precedes_outline`). The
declarations of a tree are read off the same statements: a name stands for the last entry that declares
it (`Declarations.get?_ofTree`).
-/

namespace Recipe

open Text (bytes)

/-- A range lies inside another one, in bytes and in positions. -/
structure Range.Inside (r s : Range) : Prop where
  span_start_le : s.span.start ≤ r.span.start
  span_stop_le : r.span.stop ≤ s.span.stop
  start_le : s.start ≤ r.start
  stop_le : r.stop ≤ s.stop

/-! ## Parts of statements -/

section Parts

variable {cs : List Char}

/-- A name or a path that stands in a node has text, unless the node is an override. -/
theorem span_lt_of_mem_children {a m : Node} (ha : a ∈ (rootNode cs).preorder)
    (hk : a.kind ≠ .override) (hm : m ∈ a.children) (hkind : m.kind = .identifier ∨ m.kind = .path) :
    m.range.span.start < m.range.span.stop := by
  have hnode := Node.mem_preorder_of_mem_children ha hm
  have hleaf : m.kind.content? = none := by
    rcases hkind with hkind | hkind <;> rw [hkind] <;> rfl
  obtain ⟨s, hs⟩ := (fitsContent_rootNode cs m hnode).exists_text hleaf
  exact (wellPlaced_rootNode cs hnode).span_lt hs (child_text_ne_empty_rootNode cs ha hk hm hs)

theorem preorder_subset_rootNode {n : Node} (hn : n ∈ (rootNode cs).children) :
    n.preorder ⊆ (rootNode cs).preorder :=
  Node.preorder_subset (Node.mem_preorder_of_mem_children (Node.self_mem_preorder _) hn)

theorem wellPlaced_of_mem_children {n m : Node} (hn : n ∈ (rootNode cs).children) (hm : m ∈ n.preorder) :
    m.WellPlaced cs :=
  wellPlaced_rootNode cs (preorder_subset_rootNode hn hm)

/-- What an entry of a statement selects is a part of the statement with text. -/
theorem OutlineEntry.exists_part_rootNode {n : Node} {e : OutlineEntry}
    (hn : n ∈ (rootNode cs).children) (he : e ∈ ofStatement n) :
    ∃ m ∈ n.preorder, e.range = n.range ∧ e.selection = m.range ∧
      m.range.span.start < m.range.span.stop := by
  obtain ⟨a, ha, hk, m, hm, hkind, hrange, hselection⟩ := exists_part he
  exact ⟨m, Node.mem_preorder_of_mem_children ha hm, hrange, hselection,
    span_lt_of_mem_children (preorder_subset_rootNode hn ha) hk hm hkind⟩

/-- Parts of two statements stand in the order of the statements. -/
theorem precedes_of_statements {n n' m m' : Node} (hn : n ∈ (rootNode cs).children)
    (hn' : n' ∈ (rootNode cs).children) (hle : n.range.span.stop ≤ n'.range.span.start)
    (hm : m ∈ n.preorder) (hm' : m' ∈ n'.preorder) (hspan : m.range.span.start < m.range.span.stop) :
    m.range.Precedes m'.range := by
  have hinside := Node.inside_of_mem_preorder (fun a => wellPlaced_of_mem_children hn) hm
  have hinside' := Node.inside_of_mem_preorder (fun a => wellPlaced_of_mem_children hn') hm'
  exact (wellPlaced_of_mem_children hn hm).precedes (wellPlaced_of_mem_children hn' hm') hspan (by omega)

/-! ## The order of an outline -/

/-- The entries of a directive stand in the order of their paths. -/
theorem OutlineEntry.precedes_ofPaths {n : Node} (hn : n ∈ (rootNode cs).children)
    (hk : n.kind ≠ .override) (kind : SymbolKind) (detail : String) :
    (ofPaths n kind detail).Pairwise fun d e => d.selection.Precedes e.selection := by
  have hself := wellPlaced_of_mem_children hn n.self_mem_preorder
  refine List.pairwise_map.2 ((hself.children_ordered.filter _).imp_of_mem fun {c d} hc hd hle => ?_)
  obtain ⟨hc, hpath⟩ := List.mem_filter.1 hc
  have hd := (List.mem_filter.1 hd).1
  have hplaced : ∀ c ∈ n.children, c.WellPlaced cs := fun c hc =>
    wellPlaced_of_mem_children hn (Node.mem_preorder_of_mem_children n.self_mem_preorder hc)
  have hspan := span_lt_of_mem_children (preorder_subset_rootNode hn n.self_mem_preorder) hk hc
    (.inr (eq_of_beq hpath))
  exact (hplaced c hc).precedes (hplaced d hd) hspan hle

theorem OutlineEntry.precedes_ofStatement {n : Node} (hn : n ∈ (rootNode cs).children) :
    (ofStatement n).Pairwise fun d e => d.selection.Precedes e.selection := by
  unfold ofStatement
  split
  · rename_i hk
    exact precedes_ofPaths hn (by simp [hk]) _ _
  · rename_i hk
    exact precedes_ofPaths hn (by simp [hk]) _ _
  · rename_i hk
    exact precedes_ofPaths hn (by simp [hk]) _ _
  · cases ofDeclaration? n with
    | none => exact List.Pairwise.nil
    | some e => exact List.pairwise_singleton _ e

end Parts

/-- What an outline selects stands in the text in the order of the outline. -/
theorem precedes_outline (source : String) :
    (Tree.mk source (some (rootNode source.toList))).outline.Pairwise
      fun d e => d.selection.Precedes e.selection := by
  have hroot := wellPlaced_rootNode source.toList (Node.self_mem_preorder _)
  refine List.pairwise_flatMap.2 ⟨fun n => OutlineEntry.precedes_ofStatement, ?_⟩
  refine hroot.children_ordered.imp_of_mem fun {n n'} hn hn' hle d hd e he => ?_
  obtain ⟨m, hm, -, hselection, hspan⟩ := OutlineEntry.exists_part_rootNode hn hd
  obtain ⟨m', hm', -, hselection', -⟩ := OutlineEntry.exists_part_rootNode hn' he
  rw [hselection, hselection']
  exact precedes_of_statements hn hn' hle hm hm' hspan

/-- What an entry selects lies inside its range. -/
theorem inside_of_mem_outline {source : String} {e : OutlineEntry}
    (he : e ∈ (Tree.mk source (some (rootNode source.toList))).outline) :
    e.selection.Inside e.range := by
  obtain ⟨n, hn, he⟩ := List.mem_flatMap.1 he
  obtain ⟨m, hm, hrange, hselection, -⟩ := OutlineEntry.exists_part_rootNode hn he
  have hplaced := wellPlaced_of_mem_children hn n.self_mem_preorder
  have hpart := wellPlaced_of_mem_children hn hm
  obtain ⟨hstart, hstop⟩ := Node.inside_of_mem_preorder (fun a => wellPlaced_of_mem_children hn) hm
  rw [hrange, hselection]
  exact ⟨hstart, hstop, hplaced.start_le_start hpart hstart, hpart.stop_le_stop hplaced hstop⟩

/-! ## Declarations -/

namespace OutlineEntry

/-- Whether an entry is that of a declaration. -/
def isDeclaration (e : OutlineEntry) : Bool :=
  e.kind == .var || e.kind == .function

/-- The symbol that the entry of a declaration tells. -/
def symbol (uri : Uri) (e : OutlineEntry) : Symbol :=
  { name := e.name, kind := e.kind, range := e.selection, uri }

/-- Whether an entry is that of a variable or a function of a name. -/
def declares (name : String) (e : OutlineEntry) : Bool :=
  e.isDeclaration && e.name = name

theorem declares_iff {name : String} {e : OutlineEntry} :
    e.declares name = true ↔ (e.kind = .var ∨ e.kind = .function) ∧ e.name = name := by
  simp [declares, isDeclaration]

theorem filter_ofPaths (n : Node) {kind : SymbolKind} (h : kind = .module ∨ kind = .file)
    (detail : String) : (ofPaths n kind detail).filter isDeclaration = [] := by
  rw [List.filter_eq_nil_iff]
  intro e he
  obtain ⟨path, -, rfl⟩ := List.mem_map.1 he
  rcases h with rfl | rfl <;> exact Bool.false_ne_true

theorem isDeclaration_of_ofDeclaration? {n : Node} {e : OutlineEntry} (h : ofDeclaration? n = some e) :
    e.isDeclaration = true := by
  obtain ⟨⟨name, kind⟩, hname, rfl⟩ := Option.map_eq_some_iff.1 h
  have hkind : ∀ {name? : Option Node} {j : SymbolKind},
      (name?.map fun m => (m, j)) = some (name, kind) → kind = j := by
    intro name? j h
    obtain ⟨m, -, heq⟩ := Option.map_eq_some_iff.1 h
    exact (Prod.mk.inj heq).2.symm
  unfold Node.declaredName? at hname
  split at hname
  · simp [isDeclaration, hkind hname]
  · simp [isDeclaration, hkind hname]
  · simp [isDeclaration, hkind hname]
  · simp [isDeclaration, hkind hname]
  · simp [isDeclaration, hkind hname]
  · cases hname

/-- The entries and the symbol of a statement tell the same declaration. -/
theorem map_symbol_ofStatement (uri : Uri) (n : Node) :
    ((ofStatement n).filter isDeclaration).map (symbol uri) = (Symbol.ofStatement? uri n).toList := by
  have hnone : n.declaredName? = none → (Symbol.ofStatement? uri n).toList = [] := by
    intro h
    rw [Symbol.ofStatement?, h]
    rfl
  unfold ofStatement
  split
  · rename_i hk
    rw [filter_ofPaths n (.inl rfl), hnone (by rw [Node.declaredName?, hk])]
    rfl
  · rename_i hk
    rw [filter_ofPaths n (.inr rfl), hnone (by rw [Node.declaredName?, hk])]
    rfl
  · rename_i hk
    rw [filter_ofPaths n (.inr rfl), hnone (by rw [Node.declaredName?, hk])]
    rfl
  · have hall : ((ofDeclaration? n).toList).filter isDeclaration = (ofDeclaration? n).toList :=
      List.filter_eq_self.2 fun e he => isDeclaration_of_ofDeclaration? (Option.mem_toList.1 he)
    rw [hall, ofDeclaration?, Symbol.ofStatement?]
    cases n.declaredName? <;> rfl

end OutlineEntry

/-- The declarations of an outline tell the symbols of the statements. -/
theorem Tree.map_symbol_outline (uri : Uri) (t : Tree) :
    (t.outline.filter OutlineEntry.isDeclaration).map (OutlineEntry.symbol uri)
      = t.statements.filterMap (Symbol.ofStatement? uri) := by
  rw [outline, List.filter_flatMap, List.map_flatMap, List.filterMap_eq_flatMap_toList]
  exact List.flatMap_congr fun n _ => OutlineEntry.map_symbol_ofStatement uri n

namespace Declarations

/-- A name stands for the last statement that declares it. -/
theorem get?_ofStatements (uri : Uri) (ns : List Node) (name : String) :
    (ofStatements uri ns).get? name
      = ((ns.filterMap (Symbol.ofStatement? uri)).filter fun s => s.name = name).getLast? := by
  have htable : ofStatements uri ns
      = Table.insertAll Symbol.name id (ns.filterMap (Symbol.ofStatement? uri)) .empty := rfl
  rw [htable, Table.get?_insertAll, Option.map_id]
  exact Option.or_none

/-- A name stands for the last entry of the outline that declares it. -/
theorem get?_ofTree (uri : Uri) (t : Tree) (name : String) :
    (ofTree uri t).get? name
      = ((t.outline.filter (·.declares name)).getLast?).map (OutlineEntry.symbol uri) := by
  rw [ofTree, get?_ofStatements, ← Tree.map_symbol_outline, List.filter_map, List.getLast?_map,
    List.filter_filter]
  congr 2
  exact List.filter_congr fun e _ => Bool.and_comm _ _

theorem mem_keys_ofTree {uri : Uri} {t : Tree} {name : String} : name ∈ (ofTree uri t).keys ↔
    ∃ e ∈ t.outline, (e.kind = .var ∨ e.kind = .function) ∧ e.name = name := by
  rw [Table.mem_keys, get?_ofTree, Option.isSome_map, List.getLast?_isSome, ne_eq,
    List.filter_eq_nil_iff]
  simp [OutlineEntry.declares_iff]

end Declarations

end Recipe
