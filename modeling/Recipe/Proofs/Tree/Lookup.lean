import Recipe.Proofs.Tree.Nesting
import Recipe.Proofs.Tree.Nodes

/-!
# Looking up positions

A position is looked up by going down from the root, at each node to the first child that contains
it. In a tree of well placed nodes at most one child of a node does (`Node.WellPlaced.eq_of_contains`),
and a node contains what the nodes below it contain (`Node.contains_of_follow`). So a path is a
beginning of the path to a position if and only if it leads to a node that contains the position
(`Node.prefix_pathTo_iff`), the root apart, which every look-up begins with. The look-up ends at the
deepest of these nodes (`parse_pathTo`).
-/

namespace Recipe

open Text (bytes)

theorem Range.contains_iff {r : Range} {p : Position} :
    r.contains p = true ↔ r.start ≤ p ∧ p < r.stop := by
  rw [contains, Bool.and_eq_true, decide_eq_true_eq, decide_eq_true_eq]

/-! ## Children at a position -/

namespace Node.WellPlaced

variable {source : List Char} {n c d : Node} {p : Position}

/-- A node contains the positions that a node inside it contains. -/
theorem contains_of_inside (hn : n.WellPlaced source) (hc : c.WellPlaced source)
    (hstart : n.range.span.start ≤ c.range.span.start) (hstop : c.range.span.stop ≤ n.range.span.stop)
    (hp : c.range.contains p = true) : n.range.contains p = true := by
  obtain ⟨hfirst, hlast⟩ := Range.contains_iff.1 hp
  exact Range.contains_iff.2 ⟨Position.le_trans (hn.start_le_start hc hstart) hfirst,
    Position.lt_of_lt_of_le hlast (hc.stop_le_stop hn hstop)⟩

/-- At most one child of a node contains a position. -/
theorem eq_of_contains (hn : n.WellPlaced source) (hcs : ∀ c ∈ n.children, c.WellPlaced source)
    {i j : Nat} (hi : n.children[i]? = some c) (hj : n.children[j]? = some d)
    (hc : c.range.contains p = true) (hd : d.range.contains p = true) : i = j := by
  -- Of two children the first one has ended where the other begins.
  have hapart : ∀ {i j : Nat} {c d : Node}, n.children[i]? = some c → n.children[j]? = some d →
      c.range.contains p = true → d.range.contains p = true → ¬ i < j := by
    intro i j c d hi hj hc hd hij
    have hcm := List.mem_of_getElem? hi
    have hdm := List.mem_of_getElem? hj
    obtain ⟨hil, rfl⟩ := List.getElem?_eq_some_iff.1 hi
    obtain ⟨hjl, rfl⟩ := List.getElem?_eq_some_iff.1 hj
    have hspan := List.pairwise_iff_getElem.1 hn.children_ordered i j hil hjl hij
    have hle := (hcs _ hcm).stop_le_start (hcs _ hdm) hspan
    have hlt := (Range.contains_iff.1 hc).2
    exact Position.not_le_of_lt hlt (Position.le_trans hle (Range.contains_iff.1 hd).1)
  have hij := hapart hi hj hc hd
  have hji := hapart hj hi hd hc
  omega

end Node.WellPlaced

/-! ## Paths -/

namespace Node

variable {source : List Char} {p : Position}

theorem follow_cons_eq_some {n m : Node} {i : Nat} {path : List Nat} :
    n.follow (i :: path) = some m ↔ ∃ c, n.children[i]? = some c ∧ c.follow path = some m := by
  rw [follow, Option.bind_eq_some_iff]

theorem follow_append (n : Node) (path path' : List Nat) :
    n.follow (path ++ path') = (n.follow path).bind (·.follow path') := by
  induction path generalizing n with
  | nil => rfl
  | cons i path ih =>
    rw [List.cons_append, follow, follow, Option.bind_assoc]
    exact congrArg (n.children[i]?.bind ·) (funext ih)

/-- If `follow` leads from `root` along `path` to `n`, then `NodeRef.node`, which skips the indices
of children that do not exist, leads to `n` as well. -/
theorem node_of_follow {root n : Node} {path : List Nat} (h : root.follow path = some n) :
    NodeRef.node ⟨root, path⟩ = n := by
  induction path generalizing root with
  | nil => exact Option.some.inj h
  | cons i path ih =>
    obtain ⟨c, hc, h⟩ := follow_cons_eq_some.1 h
    rw [NodeRef.node, List.foldl_cons, hc]
    exact ih h

/-- Paths lead to nodes of the tree. -/
theorem mem_preorder_of_follow {root n : Node} {path : List Nat} (h : root.follow path = some n) :
    n ∈ root.preorder := by
  induction path generalizing root with
  | nil =>
    rw [← Option.some.inj h]
    exact root.self_mem_preorder
  | cons i path ih =>
    obtain ⟨c, hc, h⟩ := follow_cons_eq_some.1 h
    have hmem := mem_preorder_of_mem_children root.self_mem_preorder (List.mem_of_getElem? hc)
    exact preorder_subset hmem (ih h)

mutual

/-- Every node of a tree has a path that leads to it. -/
theorem exists_follow {m : Node} : ∀ {n : Node}, m ∈ n.preorder → ∃ path, n.follow path = some m
  | leaf k r t, h => ⟨[], by rw [follow, List.mem_singleton.1 h]⟩
  | branch k r cs, h => by
    rcases List.mem_cons.1 h with rfl | h
    · exact ⟨[], rfl⟩
    · obtain ⟨i, c, path, hc, hp⟩ := exists_follow_among h
      exact ⟨i :: path, follow_cons_eq_some.2 ⟨c, hc, hp⟩⟩

theorem exists_follow_among {m : Node} : ∀ {ns : List Node}, m ∈ preorderAll ns →
    ∃ (i : Nat) (c : Node) (path : List Nat), ns[i]? = some c ∧ c.follow path = some m
  | n :: ns, h => by
    rw [preorderAll] at h
    rcases List.mem_append.1 h with h | h
    · obtain ⟨path, hp⟩ := exists_follow h
      exact ⟨0, n, path, rfl, hp⟩
    · obtain ⟨i, c, path, hc, hp⟩ := exists_follow_among h
      exact ⟨i + 1, c, path, hc, hp⟩

end

theorem pathAmong_cases (p : Position) (i : Nat) (cs : List Node) :
    pathAmong p i cs = [] ∧ (∀ c ∈ cs, c.range.contains p = false) ∨
      ∃ k c, cs[k]? = some c ∧ c.range.contains p = true ∧
        pathAmong p i cs = (i + k) :: c.pathTo p := by
  induction cs generalizing i with
  | nil => exact .inl ⟨rfl, List.forall_mem_nil _⟩
  | cons c cs ih =>
    rw [pathAmong]
    split
    · rename_i hc
      exact .inr ⟨0, c, rfl, hc, rfl⟩
    · rename_i hc
      rcases ih (i + 1) with ⟨hnil, hall⟩ | ⟨k, d, hd, hp, hpath⟩
      · exact .inl ⟨hnil, List.forall_mem_cons.2 ⟨Bool.eq_false_iff.2 hc, hall⟩⟩
      · exact .inr ⟨k + 1, d, hd, hp, by rw [hpath, Nat.add_right_comm, Nat.add_assoc]⟩

/-- The path to a position is empty if no child contains it, and goes on from a child that does. -/
theorem pathTo_cases (n : Node) (p : Position) :
    n.pathTo p = [] ∧ (∀ c ∈ n.children, c.range.contains p = false) ∨
      ∃ i c, n.children[i]? = some c ∧ c.range.contains p = true ∧
        n.pathTo p = i :: c.pathTo p := by
  cases n with
  | leaf k r t => exact .inl ⟨rfl, List.forall_mem_nil _⟩
  | branch k r cs =>
    rw [pathTo]
    have h := pathAmong_cases p 0 cs
    simp only [Nat.zero_add] at h
    exact h

/-- A node contains the positions that a node below it contains. -/
theorem contains_of_follow {n m : Node} {path : List Nat} (h : ∀ m ∈ n.preorder, m.WellPlaced source)
    (hm : n.follow path = some m) (hp : m.range.contains p = true) : n.range.contains p = true := by
  have hmem := mem_preorder_of_follow hm
  obtain ⟨hstart, hstop⟩ := inside_of_mem_preorder h hmem
  exact (h n n.self_mem_preorder).contains_of_inside (h m hmem) hstart hstop hp

/-- The path to a position begins with the paths to the nodes that contain it, and with no others but
the empty one. -/
theorem prefix_pathTo_iff {n : Node} (h : ∀ m ∈ n.preorder, m.WellPlaced source) {path : List Nat} :
    path <+: n.pathTo p ↔
      ∃ m, n.follow path = some m ∧ (path = [] ∨ m.range.contains p = true) := by
  induction path generalizing n with
  | nil => exact iff_of_true List.nil_prefix ⟨n, rfl, .inl rfl⟩
  | cons i path ih =>
    have hmem : ∀ c ∈ n.children, c ∈ n.preorder :=
      fun c => mem_preorder_of_mem_children n.self_mem_preorder
    have hbelow : ∀ c ∈ n.children, ∀ m ∈ c.preorder, m.WellPlaced source :=
      fun c hc m hm => h m (preorder_subset (hmem c hc) hm)
    constructor
    · intro hprefix
      rcases pathTo_cases n p with ⟨hnil, -⟩ | ⟨j, c, hc, hcp, hpath⟩
      · rw [hnil] at hprefix
        cases List.prefix_nil.1 hprefix
      · rw [hpath, List.cons_prefix_cons] at hprefix
        obtain ⟨rfl, hprefix⟩ := hprefix
        obtain ⟨m, hm, hmp⟩ := (ih (hbelow c (List.mem_of_getElem? hc))).1 hprefix
        refine ⟨m, follow_cons_eq_some.2 ⟨c, hc, hm⟩, .inr ?_⟩
        rcases hmp with rfl | hmp
        · rwa [← Option.some.inj hm]
        · exact hmp
    · rintro ⟨m, hm, hmp⟩
      have hmp := hmp.resolve_left (List.cons_ne_nil i path)
      obtain ⟨c, hc, hm⟩ := follow_cons_eq_some.1 hm
      have hchild := List.mem_of_getElem? hc
      have hcp := contains_of_follow (hbelow c hchild) hm hmp
      rcases pathTo_cases n p with ⟨-, hnone⟩ | ⟨j, d, hd, hdp, hpath⟩
      · rw [hnone c hchild] at hcp
        cases hcp
      · have hcs : ∀ c ∈ n.children, c.WellPlaced source := fun c hc => h c (hmem c hc)
        obtain rfl := (h n n.self_mem_preorder).eq_of_contains hcs hc hd hcp hdp
        obtain rfl : c = d := Option.some.inj (hc.symm.trans hd)
        rw [hpath, List.cons_prefix_cons]
        exact ⟨rfl, (ih (hbelow c hchild)).2 ⟨m, hm, .inr hmp⟩⟩

end Node

/-- The path from the root of a tree to a position leads to the one deepest node that contains the
position: that node contains it, unless it is the root, no child of it does, and all other nodes of the
tree that contain the position are on the path. -/
theorem parse_pathTo (limit : Nat) (source : String) (h : bytes source.toList ≤ limit) :
    ∃ t root, parse limit source = .ok t ∧ t.root? = some root ∧
      ∀ p : Position, ∃ n,
        root.follow (root.pathTo p) = some n ∧
        NodeRef.node ⟨root, root.pathTo p⟩ = n ∧ root.deepest p = n ∧
        (root.pathTo p = [] ∨ n.range.contains p = true) ∧
        (∀ c ∈ n.children, c.range.contains p = false) ∧
        (∀ m ∈ root.preorder, m.range.contains p = true →
          ∃ path, path <+: root.pathTo p ∧ root.follow path = some m) ∧
        ∀ path, path <+: root.pathTo p ↔
          ∃ m, root.follow path = some m ∧ (path = [] ∨ m.range.contains p = true) := by
  refine ⟨_, rootNode source.toList, parse_eq_ok h, rfl, fun p => ?_⟩
  have hiff (path : List Nat) : path <+: (rootNode source.toList).pathTo p ↔ ∃ m,
      (rootNode source.toList).follow path = some m ∧ (path = [] ∨ m.range.contains p = true) :=
    Node.prefix_pathTo_iff fun m => wellPlaced_rootNode source.toList
  generalize rootNode source.toList = root at hiff
  obtain ⟨n, hn, hp⟩ := (hiff _).1 List.prefix_rfl
  refine ⟨n, hn, Node.node_of_follow hn, by rw [Node.deepest, hn]; rfl, hp, fun c hc => ?_,
    fun m hm hmp => ?_, hiff⟩
  · -- The path to a child that contains the position is too long.
    refine Bool.eq_false_iff.2 fun hcp => ?_
    obtain ⟨i, hi⟩ := List.mem_iff_getElem?.1 hc
    have hfollow : root.follow (root.pathTo p ++ [i]) = some c := by
      rw [Node.follow_append, hn]
      exact Node.follow_cons_eq_some.2 ⟨c, hi, rfl⟩
    have hlength := ((hiff _).2 ⟨c, hfollow, .inr hcp⟩).length_le
    rw [List.length_append, List.length_singleton] at hlength
    omega
  · obtain ⟨path, hpath⟩ := Node.exists_follow hm
    exact ⟨path, (hiff path).2 ⟨m, hpath, .inr hmp⟩, hpath⟩

/-- A value over two lines with a wide character before an expansion, after an override whose name is
empty. -/
def twoLineValue : String :=
  "A:+= \"é\\\n$\x7bB\x7d\"\n"

theorem parse_pathTo_twoLineValue :
    bytes twoLineValue.toList ≤ 32 ∧
      ∃ t root, parse 32 twoLineValue = .ok t ∧ t.root? = some root ∧
        ∀ p : Position, ∃ n,
          root.follow (root.pathTo p) = some n ∧
          NodeRef.node ⟨root, root.pathTo p⟩ = n ∧ root.deepest p = n ∧
          (root.pathTo p = [] ∨ n.range.contains p = true) ∧
          (∀ c ∈ n.children, c.range.contains p = false) ∧
          (∀ m ∈ root.preorder, m.range.contains p = true →
            ∃ path, path <+: root.pathTo p ∧ root.follow path = some m) ∧
          ∀ path, path <+: root.pathTo p ↔
            ∃ m, root.follow path = some m ∧ (path = [] ∨ m.range.contains p = true) :=
  ⟨by decide, parse_pathTo 32 twoLineValue (by decide)⟩

end Recipe
