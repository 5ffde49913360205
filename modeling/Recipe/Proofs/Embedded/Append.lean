import Recipe.Proofs.Embedded.Complete

/-!
# Regions of texts put together

What stands further down in a text embeds the same code further down (`Candidate.ofStatement_shift`),
and its regions count on from those before them (`Candidate.number_append`). So if the statements of a
tree are some nodes and then the statements of another tree, further down, its regions are those of the
nodes and then those of the other tree (`Tree.regions_append`).
-/

namespace Recipe

/-! ## Nodes further down -/

namespace Node

variable (b l : Nat)

@[simp] theorem kind_shift (n : Node) : (n.shift b l).kind = n.kind := by
  cases n with
  | leaf k r t => rfl
  | branch k r cs => rfl

theorem range_shift (n : Node) : (n.shift b l).range = n.range.shift b l := by
  cases n with
  | leaf k r t => rfl
  | branch k r cs => rfl

theorem children_shift (n : Node) : (n.shift b l).children = n.children.map (shift b l) := by
  cases n with
  | leaf k r t => rfl
  | branch k r cs => exact shiftAll_eq_map b l cs

theorem child?_shift (n : Node) (k : Kind) :
    (n.shift b l).child? k = (n.child? k).map (shift b l) := by
  have hkind : (fun m : Node => m.kind == k) ∘ shift b l = fun m => m.kind == k := by
    funext m
    rw [Function.comp_apply, kind_shift]
  rw [child?, child?, children_shift, List.find?_map, hkind]

mutual

theorem preorder_shift : ∀ n : Node, (n.shift b l).preorder = n.preorder.map (shift b l)
  | leaf k r t => rfl
  | branch k r cs => by
    rw [shift, preorder, preorder, preorderAll_shiftAll cs, List.map_cons, shift]

theorem preorderAll_shiftAll :
    ∀ ns : List Node, preorderAll (shiftAll b l ns) = (preorderAll ns).map (shift b l)
  | [] => rfl
  | n :: ns => by
    rw [shiftAll, preorderAll, preorderAll, preorder_shift n, preorderAll_shiftAll ns, List.map_append]

end

theorem inlines_shift (n : Node) : inlines [n.shift b l] = (inlines [n]).map (shift b l) := by
  have hkind : (fun m : Node => m.kind == .inlinePython) ∘ shift b l = fun m => m.kind == .inlinePython := by
    funext m
    rw [Function.comp_apply, kind_shift]
  have hall := preorderAll_shiftAll b l [n]
  rw [shiftAll, shiftAll] at hall
  rw [inlines, inlines, hall, List.filter_map, hkind]

end Node

/-! ## Candidates further down -/

namespace Candidate

variable (b l : Nat)

/-- The candidate some bytes and lines further down. -/
def shift (c : Candidate) : Candidate :=
  { c with range := c.range.shift b l }

theorem trimmedRange?_shift (n : Node) :
    trimmedRange? (n.shift b l) = (trimmedRange? n).map (Range.shift b l) := by
  cases n with
  | branch k r cs => rfl
  | leaf k r t =>
    have hstart : Cursor.mk (r.shift b l).span.start (r.shift b l).start
        = (Cursor.mk r.span.start r.start).shift b l := rfl
    simp only [trimmedRange?, Node.shift, Node.text?, Node.range, Option.bind_some, hstart,
      Cursor.advance_shift]
    split
    · rfl
    · rfl

theorem ofInline_shift (n : Node) : ofInline (n.shift b l) = (ofInline n).map (shift b l) := by
  unfold ofInline
  rw [Node.child?_shift]
  cases n.child? .pythonContent with
  | none => rfl
  | some content =>
    rw [Option.map_some, Option.bind_some, Option.bind_some, trimmedRange?_shift]
    cases trimmedRange? content with
    | none => rfl
    | some r => rfl

/-- What stands further down embeds the same code further down. -/
theorem ofStatement_shift (n : Node) : ofStatement (n.shift b l) = (ofStatement n).map (shift b l) := by
  have hchild : ∀ (k : Kind) (lang : Language) (dedent : Bool),
      (((n.shift b l).child? k).toList.map fun body => Candidate.mk lang body.range dedent)
        = ((n.child? k).toList.map fun body => Candidate.mk lang body.range dedent).map (shift b l) := by
    intro k lang dedent
    rw [Node.child?_shift]
    cases n.child? k with
    | none => rfl
    | some body => simp [shift, Node.range_shift]
  unfold ofStatement
  rw [Node.kind_shift]
  split
  · exact hchild ..
  · exact hchild ..
  · rw [Node.range_shift]
    rfl
  · rw [inline_eq, inline_eq, Node.inlines_shift, List.flatMap_map, List.map_flatMap]
    exact List.flatMap_congr fun m _ => ofInline_shift b l m

theorem flatMap_ofStatement_shift (ns : List Node) :
    (ns.map (Node.shift b l)).flatMap ofStatement = (ns.flatMap ofStatement).map (shift b l) := by
  rw [List.flatMap_map, List.map_flatMap]
  exact List.flatMap_congr fun n _ => ofStatement_shift b l n

end Candidate

/-! ## Numbers -/

/-- The region some bytes and lines further down, numbered after the regions `first`. -/
def Region.below (first : List Region) (b l : Nat) (r : Region) : Region :=
  { r with range := r.range.shift b l, index := (Region.ofLanguage first r.language).length + r.index }

namespace Candidate

/-- The regions of a language that the first candidates become are counted before the others. -/
theorem number_append (counts : Language → Nat) (cs ds : List Candidate) :
    number counts (cs ++ ds) = number counts cs
      ++ number (fun l => counts l + (Region.ofLanguage (number counts cs) l).length) ds := by
  induction cs generalizing counts with
  | nil => rfl
  | cons c cs ih =>
    rw [List.cons_append, number, number, ih, List.cons_append]
    congr 3
    funext l
    rw [Region.ofLanguage, Region.ofLanguage, List.filter_cons]
    by_cases hl : l = c.language
    · subst hl
      rw [if_pos rfl, if_pos (by simp), List.length_cons]
      omega
    · rw [if_neg hl, if_neg (by simpa using Ne.symm hl)]

/-- Candidates further down are numbered from the given counts on as they are from zero on. -/
theorem number_shift (first : List Region) (b l : Nat) (counts : Language → Nat)
    (cs : List Candidate) :
    number (fun lang => (Region.ofLanguage first lang).length + counts lang) (cs.map (shift b l))
      = (number counts cs).map (Region.below first b l) := by
  induction cs generalizing counts with
  | nil => rfl
  | cons c cs ih =>
    have hcounts : (fun lang => if lang = (c.shift b l).language
          then (Region.ofLanguage first lang).length + counts lang + 1
          else (Region.ofLanguage first lang).length + counts lang)
        = fun lang => (Region.ofLanguage first lang).length
          + if lang = c.language then counts lang + 1 else counts lang := by
      funext lang
      show (if lang = c.language then _ else _) = _
      split <;> omega
    rw [List.map_cons, number, number, hcounts, ih, List.map_cons]
    rfl

end Candidate

/-! ## Regions -/

/-- The regions of statements that begin a text. -/
def Region.ofStatements (ns : List Node) : List Region :=
  Candidate.number (fun _ => 0) (ns.flatMap Candidate.ofStatement)

namespace Tree

variable {limit : Nat} {source rest : String} {t u : Tree}

theorem regions_of_parse (h : parse limit source = .ok t) :
    t.regions = Region.ofStatements t.statements := by
  rw [regions, (embeds_of_parse h).kept, Region.ofStatements]

/-- If the statements of a tree are some nodes and then the statements of another tree further down,
its regions are those of the nodes and then those of the other tree, further down and counted on. -/
theorem regions_append (ht : parse limit source = .ok t) (hu : parse limit rest = .ok u)
    {ns : List Node} {b l : Nat} (h : t.statements = ns ++ u.statements.map (Node.shift b l)) :
    t.regions = Region.ofStatements ns
      ++ u.regions.map (Region.below (Region.ofStatements ns) b l) := by
  have hcounts : (fun lang => 0 + (Region.ofLanguage (Region.ofStatements ns) lang).length)
      = fun lang => (Region.ofLanguage (Region.ofStatements ns) lang).length + 0 := by
    funext lang
    exact Nat.add_comm _ _
  rw [regions_of_parse ht, h, Region.ofStatements, List.flatMap_append,
    Candidate.flatMap_ofStatement_shift, Candidate.number_append, ← Region.ofStatements, hcounts,
    Candidate.number_shift, ← Region.ofStatements, ← regions_of_parse hu]

end Tree

end Recipe
