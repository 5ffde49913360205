import Recipe.Document
import Recipe.Proofs.Embedded.Body
import Recipe.Proofs.Tree.Lookup
import Recipe.Proofs.Tree.Outline

/-!
# Hover and definition

Both look up one name: that of the expansion at a position (`Document.wordNode?_of_expansionAt`), or else
the word there (`Document.wordNode?_of_no_expansion`). Expansions do not nest, so a position is in one at
most. What a name stands for is told by the last statement that declares it. A hover finds that statement
by the range of the name, which no other statement has (`Document.definingStatement?_eq`), and shows its
first line (`Document.navigates`).
-/

namespace Recipe

open Text (bytes isBlank)
open RegularExpression (char)

/-! ## Expansions -/

/-- An expansion holds a name at most. -/
theorem Content.kind_of_mem_expansion {w : List Kind}
    (h : w ∈ (char Kind.punctuation * opt (char Kind.identifier) * char Kind.punctuation).matches') :
    ∀ k ∈ w, k = .punctuation ∨ k = .identifier := by
  obtain ⟨u, ⟨a, ha, b, hb, rfl⟩, c, hc, rfl⟩ := h
  obtain rfl : a = [.punctuation] := ha
  obtain rfl : c = [.punctuation] := hc
  rcases hb with hb | hb
  · obtain rfl : b = [.identifier] := hb
    decide
  · obtain rfl : b = [] := hb
    decide

namespace Node

theorem children_of_text? {n : Node} {s : String} (h : n.text? = some s) : n.children = [] := by
  cases n with
  | leaf k r t => rfl
  | branch k r cs => cases h

/-- What stands in an expansion has no parts. -/
theorem exists_text_of_mem_expansion {x c : Node} (h : ∀ m ∈ x.preorder, m.FitsContent)
    (hk : x.kind = .variableExpansion) (hc : c ∈ x.children) :
    (c.kind = .punctuation ∨ c.kind = .identifier) ∧ ∃ s, c.text? = some s := by
  have hkind : c.kind = .punctuation ∨ c.kind = .identifier := by
    have hself := h x x.self_mem_preorder
    cases x with
    | leaf k r t => cases hc
    | branch k r cs =>
      obtain ⟨⟨language, hlanguage, hword⟩, -⟩ := hself
      rw [show k = .variableExpansion from hk] at hlanguage
      cases hlanguage
      exact Content.kind_of_mem_expansion hword c.kind (List.mem_map_of_mem hc)
  have hleaf : c.kind.content? = none := by
    rcases hkind with hkind | hkind <;> rw [hkind] <;> rfl
  exact ⟨hkind, (h c (mem_preorder_of_mem_children x.self_mem_preorder hc)).exists_text hleaf⟩

/-- No expansion stands below an expansion. -/
theorem kind_of_follow_expansion {x y : Node} (h : ∀ m ∈ x.preorder, m.FitsContent)
    (hk : x.kind = .variableExpansion) {i : Nat} {path : List Nat} (hy : x.follow (i :: path) = some y) :
    y.kind ≠ .variableExpansion := by
  obtain ⟨c, hc, hy⟩ := follow_cons_eq_some.1 hy
  obtain ⟨hkind, s, hs⟩ := exists_text_of_mem_expansion h hk (List.mem_of_getElem? hc)
  cases path with
  | nil =>
    obtain rfl : c = y := Option.some.inj hy
    rcases hkind with hkind | hkind <;> simp [hkind]
  | cons j path =>
    obtain ⟨d, hd, -⟩ := follow_cons_eq_some.1 hy
    rw [children_of_text? hs] at hd
    cases hd

/-- Whether a statement declares a name. -/
def declares (name : String) (n : Node) : Bool :=
  n.declaredName?.any fun (m, _) => m.text? == some name

end Node

theorem Tree.statements_eq {t : Tree} {root : Node} (h : t.root? = some root) :
    t.statements = root.children := by
  rw [statements, h]
  rfl

namespace Document

/-- The node is an expansion of a document at a position. -/
structure ExpansionAt (d : Document) (p : Position) (x : Node) : Prop where
  mem_nodes : x ∈ d.tree.nodes
  kind_eq : x.kind = .variableExpansion
  contains : x.range.contains p = true

/-! ## Words -/

/-- A path through an expansion leads to the name of the expansion. -/
theorem wordOnPath_of_expansion {n x : Node} {front path : List Nat}
    (h : ∀ m ∈ n.preorder, m.FitsContent) (hx : n.follow front = some x)
    (hk : x.kind = .variableExpansion) (hne : front ≠ []) (hpath : front <+: path) :
    wordOnPath n path = x.child? .identifier := by
  induction front generalizing n path with
  | nil => exact absurd rfl hne
  | cons i front ih =>
    obtain ⟨c, hc, hx⟩ := Node.follow_cons_eq_some.1 hx
    obtain ⟨rest, rfl⟩ := hpath
    have hbelow : ∀ m ∈ c.preorder, m.FitsContent := fun m hm =>
      h m (Node.preorder_subset
        (Node.mem_preorder_of_mem_children n.self_mem_preorder (List.mem_of_getElem? hc)) hm)
    rw [List.cons_append, wordOnPath, hc, Option.bind_some]
    cases front with
    | nil =>
      obtain rfl : c = x := Option.some.inj hx
      rw [if_pos hk]
    | cons j front =>
      rw [if_neg fun hck => Node.kind_of_follow_expansion hbelow hck hx hk]
      exact ih hbelow hx (List.cons_ne_nil j front) (List.prefix_append _ _)

/-- Whether a node is a word: a leaf that is not blank. -/
def isWord (n : Node) : Bool :=
  n.children.isEmpty && !n.text?.any Text.isBlankString

/-- A path through no expansion leads to the node at its end, if that is a word. -/
theorem wordOnPath_of_no_expansion {n : Node} {path : List Nat}
    (h : ∀ front m, front ≠ [] → front <+: path → n.follow front = some m →
      m.kind ≠ .variableExpansion) : wordOnPath n path = (n.follow path).filter isWord := by
  induction path generalizing n with
  | nil => rfl
  | cons i path ih =>
    rw [wordOnPath, Node.follow]
    cases hc : n.children[i]? with
    | none => rfl
    | some c =>
      have hkind : c.kind ≠ .variableExpansion :=
        h [i] c (List.cons_ne_nil i []) (List.prefix_append [i] path)
          (Node.follow_cons_eq_some.2 ⟨c, hc, rfl⟩)
      rw [Option.bind_some, Option.bind_some, if_neg hkind]
      exact ih fun front m _ hprefix hm => h (i :: front) m (List.cons_ne_nil i front)
        (List.cons_prefix_cons.2 ⟨rfl, hprefix⟩) (Node.follow_cons_eq_some.2 ⟨c, hc, hm⟩)

section Words

variable {d : Document} {cs : List Char} (hroot : d.tree.root? = some (rootNode cs)) {p : Position}

include hroot

/-- An expansion at a position is on the path to the position. -/
theorem ExpansionAt.exists_follow {x : Node} (hx : d.ExpansionAt p x) :
    ∃ front, (rootNode cs).follow front = some x ∧ front ≠ [] ∧ front <+: (rootNode cs).pathTo p := by
  obtain ⟨root, hr, hmem⟩ := Tree.mem_nodes.1 hx.mem_nodes
  obtain rfl : rootNode cs = root := Option.some.inj (hroot.symm.trans hr)
  obtain ⟨front, hfront⟩ := Node.exists_follow hmem
  refine ⟨front, hfront, ?_, ?_⟩
  · rintro rfl
    have hkind := hx.kind_eq
    rw [← Option.some.inj hfront] at hkind
    cases hkind
  · exact (Node.prefix_pathTo_iff fun m => wellPlaced_rootNode cs).2 ⟨x, hfront, .inr hx.contains⟩

/-- A position is in one expansion at most. -/
theorem ExpansionAt.unique {x y : Node} (hx : d.ExpansionAt p x) (hy : d.ExpansionAt p y) : x = y := by
  -- Of two nodes on a path the longer way leads below the other.
  have hbelow : ∀ {x y : Node} {u v : List Nat}, x.kind = .variableExpansion →
      y.kind = .variableExpansion → (rootNode cs).follow u = some x → (rootNode cs).follow v = some y →
      u <+: v → x = y := by
    rintro x y u v hx hy hu hv ⟨rest, rfl⟩
    rw [Node.follow_append, hu, Option.bind_some] at hv
    cases rest with
    | nil => exact Option.some.inj hv
    | cons i rest =>
      have hfits : ∀ m ∈ x.preorder, m.FitsContent := fun m hm =>
        fitsContent_rootNode cs m (Node.preorder_subset (Node.mem_preorder_of_follow hu) hm)
      exact absurd hy (Node.kind_of_follow_expansion hfits hx hv)
  obtain ⟨u, hu, -, hup⟩ := hx.exists_follow hroot
  obtain ⟨v, hv, -, hvp⟩ := hy.exists_follow hroot
  rcases List.prefix_or_prefix_of_prefix hup hvp with huv | hvu
  · exact hbelow hx.kind_eq hy.kind_eq hu hv huv
  · exact (hbelow hy.kind_eq hx.kind_eq hv hu hvu).symm

theorem wordNode?_of_expansionAt {x : Node} (hx : d.ExpansionAt p x) :
    d.wordNode? p = x.child? .identifier := by
  obtain ⟨front, hfront, hne, hprefix⟩ := hx.exists_follow hroot
  rw [wordNode?, hroot, Option.bind_some]
  exact wordOnPath_of_expansion (fitsContent_rootNode cs) hfront hx.kind_eq hne hprefix

/-- The node at a position contains it, unless it is the root. -/
theorem exists_nodeAt? (p : Position) : ∃ n, d.nodeAt? p = some n ∧
    (rootNode cs).follow ((rootNode cs).pathTo p) = some n ∧
    (n = rootNode cs ∨ n.range.contains p = true) := by
  obtain ⟨n, hn, hp⟩ := (Node.prefix_pathTo_iff fun m => wellPlaced_rootNode cs).1
    (List.prefix_rfl (l := (rootNode cs).pathTo p))
  refine ⟨n, ?_, hn, hp.imp_left fun hnil => ?_⟩
  · rw [nodeAt?, hroot, Option.map_some, Node.deepest, hn, Option.getD_some]
  · rw [hnil] at hn
    exact (Option.some.inj hn).symm

theorem wordNode?_of_no_expansion (h : ∀ x, ¬ d.ExpansionAt p x) :
    d.wordNode? p = (d.nodeAt? p).filter isWord := by
  obtain ⟨n, hn, hfollow, -⟩ := exists_nodeAt? hroot p
  rw [wordNode?, hroot, Option.bind_some, hn, ← hfollow]
  refine wordOnPath_of_no_expansion fun front m hne hprefix hm hk => h m ⟨?_, hk, ?_⟩
  · exact Tree.mem_nodes.2 ⟨_, hroot, Node.mem_preorder_of_follow hm⟩
  · obtain ⟨m', hm', hp⟩ := (Node.prefix_pathTo_iff fun m => wellPlaced_rootNode cs).1 hprefix
    obtain rfl : m = m' := Option.some.inj (hm.symm.trans hm')
    exact hp.resolve_left hne

end Words

theorem isEmpty_trimString (s : String) : (Text.trimString s).isEmpty = Text.isBlankString s := by
  rw [Bool.eq_iff_iff, String.isEmpty_iff, Text.trimString, String.ofList_eq_empty_iff]
  exact ⟨Text.all_of_core_eq_nil, Text.core_eq_nil⟩

/-- The word node and the word at a position name the same symbol. -/
theorem bind_symbolOf?_nodeAt? (d : Document) (p : Position) :
    ((d.nodeAt? p).filter isWord).bind d.symbolOf? = (d.wordAt? p).bind d.declarations.get? := by
  rw [wordAt?]
  cases d.nodeAt? p with
  | none => rfl
  | some n =>
    rw [Option.bind_some, Option.filter_some, isWord]
    cases n.children.isEmpty with
    | false => rfl
    | true =>
      cases ht : n.text? with
      | none => simp [symbolOf?, ht]
      | some s =>
        have hblank := isEmpty_trimString s
        cases hs : Text.isBlankString s with
        | true => simp [hs, hblank, Option.filter_some]
        | false => simp [hs, hblank, symbolOf?, ht, Option.filter_some]

end Document

/-! ## Statements that declare a name -/

theorem exists_of_getLast?_filterMap {α β : Type} {f : α → Option β} {xs : List α} {b : β}
    (h : (xs.filterMap f).getLast? = some b) :
    ∃ front x back, xs = front ++ x :: back ∧ f x = some b ∧ ∀ y ∈ back, f y = none := by
  rw [List.getLast?_eq_head?_reverse, ← List.filterMap_reverse, List.head?_filterMap,
    List.findSome?_eq_some_iff] at h
  obtain ⟨back, x, front, hxs, hx, hback⟩ := h
  refine ⟨front.reverse, x, back.reverse, ?_, hx, fun y hy => hback y (List.mem_reverse.1 hy)⟩
  rw [← List.reverse_reverse xs, hxs]
  simp

theorem Symbol.exists_of_ofStatement? {uri : Uri} {n : Node} {s : Symbol} (h : ofStatement? uri n = some s) :
    ∃ m, n.declaredName? = some (m, s.kind) ∧ m.range = s.range ∧ s.name = m.text?.getD "" := by
  obtain ⟨⟨m, k⟩, hm, rfl⟩ := Option.map_eq_some_iff.1 h
  exact ⟨m, hm, rfl, rfl⟩

/-- The statement that a symbol is read off is the last one that declares its name. -/
theorem Declarations.exists_last {uri : Uri} {ns : List Node} {name : String} {s : Symbol}
    (h : (ofStatements uri ns).get? name = some s) :
    ∃ front n back, ns = front ++ n :: back ∧ Symbol.ofStatement? uri n = some s ∧ s.name = name ∧
      ∀ m ∈ back, m.declares name = false := by
  rw [get?_ofStatements, List.filter_filterMap] at h
  obtain ⟨front, n, back, hns, hn, hback⟩ := exists_of_getLast?_filterMap h
  refine ⟨front, n, back, hns, Option.eq_some_of_filter_eq_some hn, ?_, fun m hm => ?_⟩
  · simpa using (Option.filter_eq_some_iff.1 hn).2
  · have hnone := hback m hm
    rw [Symbol.ofStatement?] at hnone
    rw [Node.declares]
    cases hname : m.declaredName? with
    | none => rfl
    | some a =>
      obtain ⟨a, k⟩ := a
      rw [hname] at hnone
      have hne : a.text?.getD "" ≠ name := by simpa using hnone
      have htext : a.text? ≠ some name := fun ht => hne (by rw [ht, Option.getD_some])
      simpa using htext

/-- The name that a statement declares is a leaf with text. -/
theorem exists_text_of_declaredName? {cs : List Char} {n m : Node} {k : SymbolKind}
    (hn : n ∈ (rootNode cs).children) (h : n.declaredName? = some (m, k)) :
    (∃ text, m.text? = some text) ∧ m.range.span.start < m.range.span.stop := by
  obtain ⟨a, ha, hk, hchild⟩ := Node.exists_parent_of_declaredName? h
  have hkind := Node.kind_of_child? hchild
  have hmem := List.mem_of_find?_eq_some hchild
  have hnode := preorder_subset_rootNode hn (Node.mem_preorder_of_declaredName? h)
  exact ⟨(fitsContent_rootNode cs m hnode).exists_text (by rw [hkind]; rfl),
    span_lt_of_mem_children (preorder_subset_rootNode hn ha) hk hmem (.inl hkind)⟩

/-- A text is the first line of another one without the blanks at its end. -/
def Text.IsTrimmedFirstLine (body line : List Char) : Prop :=
  ∃ blanks rest, body = line ++ (blanks ++ rest) ∧ '\n' ∉ line ++ blanks ∧
    (rest = [] ∨ rest.head? = some '\n') ∧ blanks.all isBlank = true ∧
    ∀ c, line.getLast? = some c → isBlank c = false

theorem Text.isTrimmedFirstLine (body : List Char) :
    IsTrimmedFirstLine body (trimEnd (body.takeWhile (· != '\n'))) := by
  have hline := trimEnd_append_trailing (body.takeWhile (· != '\n'))
  refine ⟨trailing (body.takeWhile (· != '\n')), body.dropWhile (· != '\n'), ?_, ?_, ?_,
    all_trailing _, fun c => getLast?_trimEnd⟩
  · rw [← List.append_assoc, hline, List.takeWhile_append_dropWhile]
  · rw [hline]
    intro hmem
    simpa using List.all_eq_true.1 List.all_takeWhile _ hmem
  · cases hrest : body.dropWhile (· != '\n') with
    | nil => exact .inl rfl
    | cons c rest =>
      have hhead := List.head?_dropWhile_not (· != '\n') body
      rw [hrest] at hhead
      exact .inr (by simpa using hhead)

namespace Document

/-- A description shows the first line of the last statement that declares the name of a symbol, and
tells the line of the symbol. -/
def Describes (d : Document) (s : Symbol) (contents : String) : Prop :=
  ∃ front n back name body line,
    d.tree.statements = front ++ n :: back ∧ n.declaredName? = some (name, s.kind) ∧
    name.text? = some s.name ∧ name.range = s.range ∧ (∀ m ∈ back, m.declares s.name = false) ∧
    Text.slice d.text.toList n.range.span.start n.range.span.stop = some body ∧
    Text.IsTrimmedFirstLine body line ∧
    contents = String.intercalate "\n\n"
      ["**" ++ kindWord s.kind ++ "** \x60" ++ s.name ++ "\x60",
        "\x60\x60\x60bitbake\n" ++ String.ofList line ++ "\n\x60\x60\x60",
        "Defined on line " ++ toString (s.range.start.line + 1)]

/-- What hover and definition answer at a position. -/
structure Navigates (d : Document) (p : Position) : Prop where
  isSome_iff : (d.hover? p).isSome = true ↔ (d.definition? p).isSome = true
  expansion_unique : ∀ {x y : Node}, d.ExpansionAt p x → d.ExpansionAt p y → x = y
  /-- In an expansion its name is looked up. -/
  in_expansion : ∀ {x : Node}, d.ExpansionAt p x →
    (x.child? .identifier = none ∧ d.definition? p = none) ∨
      ∃ name text, x.child? .identifier = some name ∧ name.text? = some text ∧
        d.definition? p = d.declarations.get? (Text.trimString text) ∧
        ∀ v, d.hover? p = some v → v.range = name.range
  /-- Elsewhere the word at the position is looked up, and hover has its range. -/
  in_word : (∀ x, ¬ d.ExpansionAt p x) →
    d.definition? p = (d.wordAt? p).bind d.declarations.get? ∧
      ∀ v, d.hover? p = some v →
        ∃ n, d.nodeAt? p = some n ∧ v.range = n.range ∧ n.range.contains p = true
  describes : ∀ {s : Symbol} {v : Hover}, d.definition? p = some s → d.hover? p = some v →
    d.Describes s v.contents

/-- A hover describes the symbol that is named at the position, and has the range of the word. -/
theorem exists_of_hover? {d : Document} {p : Position} {v : Hover} (h : d.hover? p = some v) :
    ∃ word s, d.wordNode? p = some word ∧ d.symbolOf? word = some s ∧ d.definition? p = some s ∧
      v = ⟨word.range, String.intercalate "\n\n" (d.describe s)⟩ := by
  obtain ⟨word, hword, h⟩ := Option.bind_eq_some_iff.1 h
  obtain ⟨s, hs, rfl⟩ := Option.map_eq_some_iff.1 h
  exact ⟨word, s, hword, hs, by rw [definition?, hword, Option.bind_some, hs], rfl⟩

theorem isSome_hover? (d : Document) (p : Position) :
    (d.hover? p).isSome = true ↔ (d.definition? p).isSome = true := by
  rw [hover?, definition?]
  cases d.wordNode? p with
  | none => rfl
  | some word => simp

section Statements

variable {d : Document} {cs : List Char} (hroot : d.tree.root? = some (rootNode cs))

include hroot

/-- A statement is found by the range of the name that it declares. -/
theorem definingStatement?_eq {front back : List Node} {n m : Node} {s : Symbol}
    (hns : d.tree.statements = front ++ n :: back) (hm : n.declaredName? = some (m, s.kind))
    (hrange : m.range = s.range) : d.definingStatement? s = some n := by
  have hstatements := Tree.statements_eq hroot
  have hordered := (wellPlaced_rootNode cs (Node.self_mem_preorder _)).children_ordered
  rw [← hstatements, hns] at hordered
  have hmem : ∀ a ∈ front ++ n :: back, a ∈ (rootNode cs).children := fun a ha => by
    rwa [← hstatements, hns]
  refine List.find?_eq_some_iff_append.2 ⟨by simp [hm, hrange], front, back, hns, fun a ha => ?_⟩
  cases hname : a.declaredName? with
  | none => rfl
  | some name =>
    obtain ⟨m', k⟩ := name
    -- The name of an earlier statement begins before.
    have hle := (List.pairwise_append.1 hordered).2.2 a ha n List.mem_cons_self
    have ha := hmem a (List.mem_append_left _ ha)
    have hn := hmem n (List.mem_append_right _ List.mem_cons_self)
    have hbefore := precedes_of_statements ha hn hle (Node.mem_preorder_of_declaredName? hname)
      (Node.mem_preorder_of_declaredName? hm) (exists_text_of_declaredName? ha hname).2
    have hne : m'.range ≠ s.range := by
      intro heq
      have hlt := hbefore.start_lt
      rw [heq, hrange] at hlt
      omega
    simpa using hne

/-- The text that a document shows about a symbol that it declares under `name` describes the
symbol. -/
theorem describes_of_get? (hd : d.declarations = .ofTree d.uri d.tree) (hsource : d.tree.source.toList = cs)
    {name : String} {s : Symbol} (hs : d.declarations.get? name = some s) :
    d.Describes s (String.intercalate "\n\n" (d.describe s)) := by
  rw [hd] at hs
  obtain ⟨front, n, back, hns, hn, rfl, hback⟩ := Declarations.exists_last hs
  obtain ⟨m, hm, hrange, hname⟩ := Symbol.exists_of_ofStatement? hn
  have hmem : n ∈ (rootNode cs).children := by
    rw [← Tree.statements_eq hroot, hns]
    exact List.mem_append_right _ List.mem_cons_self
  obtain ⟨⟨text, htext⟩, -⟩ := exists_text_of_declaredName? hmem hm
  have hplaced := wellPlaced_of_mem_children hmem n.self_mem_preorder
  obtain ⟨body, hbody⟩ := hplaced.covers
  have hslice : Text.slice d.tree.source.toList n.range.span.start n.range.span.stop = some body := by
    rw [hsource]
    exact hbody.slice
  have hfirst : firstLine (d.tree.textOf n)
      = String.ofList (Text.trimEnd (body.takeWhile (· != '\n'))) := by
    rw [firstLine, Tree.textOf, hslice, Option.getD_some, String.toList_ofList]
  refine ⟨front, n, back, m, body, _, hns, hm, by rw [hname, htext, Option.getD_some], hrange, hback,
    hslice, Text.isTrimmedFirstLine body, ?_⟩
  rw [describe, definingStatement?_eq hroot hns hm hrange, ← hfirst]
  rfl

end Statements

/-! ## Answers at a position -/

section Answers

variable {d : Document} {cs : List Char} (hroot : d.tree.root? = some (rootNode cs)) {p : Position}

include hroot

/-- In an expansion its name is looked up, and a hover has the range of the name. -/
theorem definition?_of_expansionAt {x : Node} (hx : d.ExpansionAt p x) :
    (x.child? .identifier = none ∧ d.definition? p = none) ∨
      ∃ name text, x.child? .identifier = some name ∧ name.text? = some text ∧
        d.definition? p = d.declarations.get? (Text.trimString text) ∧
        ∀ v, d.hover? p = some v → v.range = name.range := by
  have hword := wordNode?_of_expansionAt hroot hx
  cases hname : x.child? .identifier with
  | none => exact .inl ⟨rfl, by rw [definition?, hword, hname, Option.bind_none]⟩
  | some name =>
    rw [hname] at hword
    obtain ⟨root, hr, hmem⟩ := Tree.mem_nodes.1 hx.mem_nodes
    obtain rfl : rootNode cs = root := Option.some.inj (hroot.symm.trans hr)
    have hnode := Node.preorder_subset hmem (Node.mem_preorder_of_child? hname)
    obtain ⟨text, htext⟩ := (fitsContent_rootNode cs name hnode).exists_text (by
      rw [Node.kind_of_child? hname]
      rfl)
    refine .inr ⟨name, text, rfl, htext, ?_, fun v hv => ?_⟩
    · rw [definition?, hword, Option.bind_some, symbolOf?, htext, Option.bind_some]
    · obtain ⟨word, s, hw, -, -, rfl⟩ := exists_of_hover? hv
      rw [Option.some.inj (hword.symm.trans hw)]

theorem definition?_of_no_expansion (h : ∀ x, ¬ d.ExpansionAt p x) :
    d.definition? p = (d.wordAt? p).bind d.declarations.get? := by
  rw [definition?, wordNode?_of_no_expansion hroot h, bind_symbolOf?_nodeAt?]

/-- Outside of expansions a hover has the range of the node at the position. -/
theorem range_of_hover? (h : ∀ x, ¬ d.ExpansionAt p x) {v : Hover} (hv : d.hover? p = some v) :
    ∃ n, d.nodeAt? p = some n ∧ v.range = n.range ∧ n.range.contains p = true := by
  obtain ⟨word, s, hword, hs, -, rfl⟩ := exists_of_hover? hv
  rw [wordNode?_of_no_expansion hroot h] at hword
  obtain ⟨n, hn, -, hp⟩ := exists_nodeAt? hroot p
  obtain rfl : n = word := Option.some.inj (hn.symm.trans (Option.eq_some_of_filter_eq_some hword))
  refine ⟨n, hn, rfl, hp.resolve_left ?_⟩
  -- The root has no text, so it names no symbol.
  rintro rfl
  cases hs

theorem describes_of_hover? (hd : d.declarations = .ofTree d.uri d.tree)
    (hsource : d.tree.source.toList = cs) {s : Symbol} {v : Hover} (hs : d.definition? p = some s)
    (hv : d.hover? p = some v) : d.Describes s v.contents := by
  obtain ⟨word, s', -, hs', hdefinition, rfl⟩ := exists_of_hover? hv
  obtain rfl : s' = s := Option.some.inj (hdefinition.symm.trans hs)
  obtain ⟨text, -, hget⟩ := Option.bind_eq_some_iff.1 hs'
  exact describes_of_get? hroot hd hsource hget

end Answers

theorem read_eq {limit : Nat} {source : String} (h : bytes source.toList ≤ limit) (uri : Uri) :
    read limit uri source = ofTree uri ⟨source, some (rootNode source.toList)⟩ := by
  rw [read, parse_eq_ok h]
  rfl

/-- At every position of a text within the limit, hover and definition are about the same symbol: that of
the expansion at the position, or else of the word there. A hover describes it by the last statement that
declares it. -/
theorem navigates (limit : Nat) (source : String) (h : bytes source.toList ≤ limit) (uri : Uri)
    (p : Position) : (read limit uri source).Navigates p := by
  rw [read_eq h]
  have hroot : (ofTree uri ⟨source, some (rootNode source.toList)⟩).tree.root?
      = some (rootNode source.toList) := rfl
  exact {
    isSome_iff := isSome_hover? _ p
    expansion_unique := ExpansionAt.unique hroot
    in_expansion := definition?_of_expansionAt hroot
    in_word := fun hx => ⟨definition?_of_no_expansion hroot hx, fun _ => range_of_hover? hroot hx⟩
    describes := describes_of_hover? hroot rfl rfl }

/-- A name that is assigned twice, over two lines, and expansions of it, of a task, of nothing and with
blanks around a name. -/
def namesAndExpansions : String :=
  "A = \"$\x7bB\x7d\"\nB = \"$\x7b\x7d$\x7b f \x7d\"\nf() \x7b\n x\n\x7d\nB = \"é \\\n $\x7bB\x7d\"\n"

theorem navigates_namesAndExpansions :
    bytes namesAndExpansions.toList ≤ 64 ∧
      ∀ uri p, (read 64 uri namesAndExpansions).Navigates p :=
  ⟨by decide, navigates 64 namesAndExpansions (by decide)⟩

end Document

end Recipe
