import Recipe.Proofs.Text.Offset
import Recipe.Proofs.Tree.Layout
import Recipe.Proofs.Tree.Walk

/-!
# Nesting of nodes

What is known of the children of a well placed node carries over to all nodes below it: they stand inside
the node (`Node.inside_of_mem_preorder`), and what a walk meets after a leaf begins where the leaf has
ended (`Node.pairwise_preorder`). Offsets and positions agree on this, since positions grow with offsets.
-/

namespace Recipe

namespace Node

variable {source : List Char} {n c d : Node}

/-! ## Positions -/

namespace WellPlaced

theorem start_le_bytes (h : n.WellPlaced source) : n.range.span.start ≤ Text.bytes source :=
  Nat.le_trans h.start_le_stop h.stop_le_bytes

/-- What ends before a node begins has ended at the position where the node begins. -/
theorem stop_le_start (hc : c.WellPlaced source) (hd : d.WellPlaced source)
    (h : c.range.span.stop ≤ d.range.span.start) : c.range.stop ≤ d.range.start := by
  rw [hc.stop_eq_position, hd.start_eq_position]
  exact LineTable.position_le h hd.start_le_bytes

theorem start_le_start (hc : c.WellPlaced source) (hd : d.WellPlaced source)
    (h : c.range.span.start ≤ d.range.span.start) : c.range.start ≤ d.range.start := by
  rw [hc.start_eq_position, hd.start_eq_position]
  exact LineTable.position_le h hd.start_le_bytes

theorem stop_le_stop (hc : c.WellPlaced source) (hd : d.WellPlaced source)
    (h : c.range.span.stop ≤ d.range.span.stop) : c.range.stop ≤ d.range.stop := by
  rw [hc.stop_eq_position, hd.stop_eq_position]
  exact LineTable.position_le h hd.stop_le_bytes

theorem start_lt_stop (hn : n.WellPlaced source) (h : n.range.span.start < n.range.span.stop) :
    n.range.start < n.range.stop := by
  rw [hn.start_eq_position, hn.stop_eq_position]
  exact LineTable.position_lt h hn.stop_le_bytes

end WellPlaced

/-! ## Nodes below a node -/

mutual

theorem inside_of_mem_preorder {m : Node} : ∀ {n : Node}, (∀ a ∈ n.preorder, a.WellPlaced source) →
    m ∈ n.preorder → n.range.span.start ≤ m.range.span.start ∧ m.range.span.stop ≤ n.range.span.stop
  | leaf k r t, _, hm => by
    rw [List.mem_singleton.1 hm]
    exact ⟨Nat.le_refl _, Nat.le_refl _⟩
  | branch k r cs, h, hm => by
    rcases List.mem_cons.1 hm with rfl | hm
    · exact ⟨Nat.le_refl _, Nat.le_refl _⟩
    · obtain ⟨c, hc, hstart, hstop⟩ := exists_around (fun a ha => h a (.tail _ ha)) hm
      obtain ⟨hfirst, hlast⟩ := (h _ List.mem_cons_self).children_inside c hc
      exact ⟨Nat.le_trans hfirst hstart, Nat.le_trans hstop hlast⟩

theorem exists_around {m : Node} : ∀ {ns : List Node}, (∀ a ∈ preorderAll ns, a.WellPlaced source) →
    m ∈ preorderAll ns →
    ∃ c ∈ ns, c.range.span.start ≤ m.range.span.start ∧ m.range.span.stop ≤ c.range.span.stop
  | n :: ns, h, hm => by
    obtain ⟨hn, hns⟩ := List.forall_mem_append.1 h
    rcases List.mem_append.1 hm with hm | hm
    · exact ⟨n, List.mem_cons_self, inside_of_mem_preorder hn hm⟩
    · obtain ⟨c, hc, hinside⟩ := exists_around hns hm
      exact ⟨c, .tail n hc, hinside⟩

end

mutual

/-- What a walk meets after a leaf begins where the leaf has ended, or after that. -/
theorem pairwise_preorder : ∀ {n : Node}, (∀ a ∈ n.preorder, a.WellPlaced source) →
    n.preorder.Pairwise fun a b => a.text?.isSome → a.range.span.stop ≤ b.range.span.start
  | leaf k r t, _ => List.pairwise_singleton _ _
  | branch k r cs, h => by
    obtain ⟨hself, hcs⟩ := List.forall_mem_cons.1 h
    exact List.pairwise_cons.2
      ⟨fun _ _ => Bool.noConfusion, pairwise_preorderAll hcs hself.children_ordered⟩

theorem pairwise_preorderAll : ∀ {ns : List Node}, (∀ a ∈ preorderAll ns, a.WellPlaced source) →
    (ns.Pairwise fun c d => c.range.span.stop ≤ d.range.span.start) →
    (preorderAll ns).Pairwise fun a b => a.text?.isSome → a.range.span.stop ≤ b.range.span.start
  | [], _, _ => List.Pairwise.nil
  | n :: ns, h, hordered => by
    obtain ⟨hn, hns⟩ := List.forall_mem_append.1 h
    obtain ⟨hfirst, hordered⟩ := List.pairwise_cons.1 hordered
    refine List.pairwise_append.2
      ⟨pairwise_preorder hn, pairwise_preorderAll hns hordered, fun a ha b hb _ => ?_⟩
    obtain ⟨-, hstop⟩ := inside_of_mem_preorder hn ha
    obtain ⟨c, hc, hstart, -⟩ := exists_around hns hb
    exact Nat.le_trans hstop (Nat.le_trans (hfirst c hc) hstart)

end

end Node

end Recipe
