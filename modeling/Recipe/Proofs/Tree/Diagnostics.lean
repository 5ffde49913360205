import Mathlib.Data.List.Forall2
import Recipe.Diagnostic
import Recipe.Proofs.Tree.Filled
import Recipe.Proofs.Tree.Nesting

/-!
# Diagnostics

A tree has one diagnostic for each of its error nodes, in the order in which the errors stand in the
text (`parse_diagnostics`). Errors are leaves, and leaves that are no names of overrides have text
(`unnamedIn_rootNode`); so no diagnostic is about an empty range, and each begins where the one before
it has ended.
-/

namespace Recipe

open Text (bytes isBlank)

/-- A diagnostic reports an error node of a source. -/
structure Diagnostic.Reports (source : List Char) (n : Node) (d : Diagnostic) : Prop where
  range_eq : d.range = n.range
  /-- The message quotes what the source has in the range, without the blanks around it. -/
  quotes : ∃ before core after,
    Text.slice source n.range.span.start n.range.span.stop = some (before ++ (core ++ after)) ∧
    before.all isBlank = true ∧ after.all isBlank = true ∧
    (∀ c, core.head? = some c ∨ core.getLast? = some c → isBlank c = false) ∧
    d.message = "Invalid syntax \"" ++ String.ofList core ++ "\""

/-- A range ends before another one begins, and begins before it, in bytes and in positions. -/
structure Range.Precedes (r s : Range) : Prop where
  stop_le : r.span.stop ≤ s.span.start
  start_lt : r.span.start < s.span.start
  stop_position_le : r.stop ≤ s.start
  start_position_lt : r.start < s.start

/-! ## Error nodes -/

namespace Node

variable {source : List Char} {n m : Node}

/-- A leaf with text has a span that is not empty. -/
theorem WellPlaced.span_lt (h : n.WellPlaced source) {s : String} (ht : n.text? = some s)
    (hs : s ≠ "") : n.range.span.start < n.range.span.stop := by
  refine Nat.lt_of_le_of_ne h.start_le_stop fun heq => hs ?_
  have hslice := h.slice_eq_text s ht
  rw [← heq, Text.slice, if_pos (Nat.le_refl _), Nat.sub_self] at hslice
  obtain ⟨rest, -, htake⟩ := Option.bind_eq_some_iff.1 hslice
  rw [Text.takeBytes] at htake
  exact String.toList_eq_nil_iff.1 (Option.some.inj htake).symm

/-- Of two nodes with text the first one that a walk meets precedes the other. -/
theorem WellPlaced.precedes (hn : n.WellPlaced source) (hm : m.WellPlaced source)
    (hspan : n.range.span.start < n.range.span.stop)
    (hle : n.range.span.stop ≤ m.range.span.start) : n.range.Precedes m.range where
  stop_le := hle
  start_lt := Nat.lt_of_lt_of_le hspan hle
  stop_position_le := hn.stop_le_start hm hle
  start_position_lt := Position.lt_of_lt_of_le (hn.start_lt_stop hspan) (hn.stop_le_start hm hle)

theorem WellPlaced.reports (h : n.WellPlaced source) {s : String} (ht : n.text? = some s)
    (t : Tree) : Diagnostic.Reports source n (.ofError t n) where
  range_eq := rfl
  quotes := by
    have hparts := Text.splitTrim_append s.toList
    refine ⟨(Text.splitTrim s.toList).before, (Text.splitTrim s.toList).core,
      (Text.splitTrim s.toList).after, ?_, Text.all_before _, Text.all_after _, fun c hc => ?_, ?_⟩
    · rw [h.slice_eq_text s ht, hparts]
    · exact hc.elim Text.head?_core Text.getLast?_core
    · rw [Diagnostic.ofError, ht]
      rfl

end Node

section Errors

variable {cs : List Char} {n : Node} (hn : n ∈ (rootNode cs).preorder) (he : n.isError = true)

include hn he

/-- An error node is a leaf that has text. -/
theorem exists_text_of_isError : ∃ s, n.text? = some s ∧ s ≠ "" := by
  have hkind : n.kind = .error := eq_of_beq he
  obtain ⟨s, hs⟩ := (fitsContent_rootNode cs n hn).exists_text (by rw [hkind]; rfl)
  refine ⟨s, hs, ?_⟩
  rintro rfl
  obtain ⟨a, -, -, -, -, -, -, -, -, hkind, -⟩ := unnamedIn_rootNode cs hn hs
  rw [Node.isError, hkind] at he
  cases he

theorem span_lt_of_isError : n.range.span.start < n.range.span.stop := by
  obtain ⟨s, hs, hne⟩ := exists_text_of_isError hn he
  exact (wellPlaced_rootNode cs hn).span_lt hs hne

end Errors

/-- Errors stand in the text in the order of the tree, one after the other. -/
theorem precedes_errors (cs : List Char) :
    ((rootNode cs).preorder.filter Node.isError).Pairwise fun n m => n.range.Precedes m.range := by
  have hplaced : ∀ n ∈ (rootNode cs).preorder, n.WellPlaced cs := fun n => wellPlaced_rootNode cs
  have hordered := (Node.pairwise_preorder hplaced).filter Node.isError
  refine hordered.imp_of_mem fun {n m} hn hm hle => ?_
  obtain ⟨hn, he⟩ := List.mem_filter.1 hn
  have hm := (List.mem_filter.1 hm).1
  obtain ⟨s, hs, -⟩ := exists_text_of_isError hn he
  exact (hplaced n hn).precedes (hplaced m hm) (span_lt_of_isError hn he) (hle (by rw [hs]; rfl))

theorem Tree.diagnostics_eq (source : String) (root : Node) :
    (Tree.mk source (some root)).diagnostics
      = (root.preorder.filter Node.isError).map (.ofError ⟨source, some root⟩) := by
  rw [diagnostics, errors, Option.map_some, Option.getD_some, Node.walk_eq_preorder]

/-- A text within the limit has one diagnostic for each error node of its tree. Each has the range of its
node and quotes the source there without the blanks around it. The ranges are not empty and stand one
after the other, in the order of the text. -/
theorem parse_diagnostics (limit : Nat) (source : String) (h : bytes source.toList ≤ limit) :
    ∃ t root, parse limit source = .ok t ∧ t.root? = some root ∧
      List.Forall₂ (Diagnostic.Reports source.toList) (root.preorder.filter Node.isError)
        t.diagnostics ∧
      (∀ d ∈ t.diagnostics,
        d.range.span.start < d.range.span.stop ∧ d.range.start < d.range.stop) ∧
      t.diagnostics.Pairwise fun d e => d.range.Precedes e.range := by
  refine ⟨_, rootNode source.toList, parse_eq_ok h, rfl, ?_⟩
  rw [Tree.diagnostics_eq]
  have herror : ∀ n ∈ (rootNode source.toList).preorder.filter Node.isError,
      n ∈ (rootNode source.toList).preorder ∧ n.isError = true := fun n => List.mem_filter.1
  refine ⟨?_, List.forall_mem_map.2 fun n hn => ?_, List.pairwise_map.2 (precedes_errors source.toList)⟩
  · rw [List.forall₂_map_right_iff, List.forall₂_same]
    intro n hn
    obtain ⟨hn, he⟩ := herror n hn
    obtain ⟨s, hs, -⟩ := exists_text_of_isError hn he
    exact (wellPlaced_rootNode source.toList hn).reports hs _
  · obtain ⟨hn, he⟩ := herror n hn
    have hspan := span_lt_of_isError hn he
    exact ⟨hspan, (wellPlaced_rootNode source.toList hn).start_lt_stop hspan⟩

/-- Errors in an exported assignment, in one whose override has no name, on a line that fits no rule, and
at the brace of a task that no line closes. A wide blank stands before two of them. -/
def scatteredErrors : String :=
  "export A = \"x\" 　é \nB:+= 'y\n　? \\\n ?\ninherit a\ndo_a() \x7b\n  x\n"

theorem parse_diagnostics_scatteredErrors :
    bytes scatteredErrors.toList ≤ 64 ∧
      ∃ t root, parse 64 scatteredErrors = .ok t ∧ t.root? = some root ∧
        List.Forall₂ (Diagnostic.Reports scatteredErrors.toList) (root.preorder.filter Node.isError)
          t.diagnostics ∧
        (∀ d ∈ t.diagnostics,
          d.range.span.start < d.range.span.stop ∧ d.range.start < d.range.stop) ∧
        t.diagnostics.Pairwise fun d e => d.range.Precedes e.range :=
  ⟨by decide, parse_diagnostics 64 scatteredErrors (by decide)⟩

end Recipe
