import Recipe.Embedded.Rendering
import Recipe.Proofs.Grammar.Task
import Recipe.Proofs.Tree.Layout
import Recipe.Proofs.Tree.Walk

/-!
# Bodies of regions

The range of a region is that of a text in the source, its body (`Range.Covers`), and the body of a
region that loses its indentation does not end with a blank (`placed_of_mem_regions`).
-/

namespace Recipe

open Text (bytes)

/-! ## Ranges -/

/-- A range is that of a text in a source. -/
def Range.Covers (r : Range) (source body : List Char) : Prop :=
  ∃ pre post, source = pre ++ (body ++ post) ∧
    r = (Cursor.after pre).rangeTo (.after (pre ++ body))

theorem Range.Covers.slice {r : Range} {source body : List Char} (h : r.Covers source body) :
    Text.slice source r.span.start r.span.stop = some body := by
  obtain ⟨pre, post, rfl, rfl⟩ := h
  rw [Cursor.rangeTo, Cursor.offset_after, Cursor.offset_after, Text.bytes_append]
  exact Text.slice_append pre body post

/-- The range between two boundaries of a source is that of the text between them. -/
theorem Range.covers_range {source : List Char} {s e : Nat} (hle : s ≤ e)
    (hs : Text.isBoundary source s = true) (he : Text.isBoundary source e = true) :
    ∃ body, ((LineTable.ofText source).range ⟨s, e⟩).Covers source body := by
  obtain ⟨pre, rest, hpre, rfl⟩ := Text.isBoundary_iff.1 hs
  obtain ⟨pre', post, hpre', rfl⟩ := Text.isBoundary_iff.1 he
  -- The longer of the two fronts begins with the other.
  have hbody : ∃ body, pre' = pre ++ body ∧ rest = body ++ post := by
    rcases List.append_eq_append_iff.1 (hpre.symm.trans hpre') with ⟨body, h₁, h₂⟩ | ⟨body, h₁, h₂⟩
    · exact ⟨body, h₁, h₂⟩
    · rw [h₁, Text.bytes_append] at hle
      have hnil : body = [] := Text.bytes_eq_zero.1 (by omega)
      subst hnil
      exact ⟨[], by simp [h₁], by simpa using h₂.symm⟩
  obtain ⟨body, rfl, rfl⟩ := hbody
  refine ⟨body, pre, post, hpre, ?_⟩
  have h₁ := LineTable.position_bytes pre (body ++ post)
  have h₂ := LineTable.position_bytes (pre ++ body) post
  rw [← hpre] at h₁
  rw [← hpre'] at h₂
  rw [LineTable.range, Cursor.rangeTo, Cursor.offset_after, Cursor.offset_after, h₁, h₂]

/-- A well placed node has the range of a text. -/
theorem Node.WellPlaced.covers {source : List Char} {n : Node} (h : n.WellPlaced source) :
    ∃ body, n.range.Covers source body := by
  have hr : n.range = (LineTable.ofText source).range n.range.span := by
    rw [LineTable.range, ← h.start_eq_position, ← h.stop_eq_position]
  rw [hr]
  exact Range.covers_range h.start_le_stop h.isBoundary_start h.isBoundary_stop

/-- The body of a leaf is its text. -/
theorem Node.WellPlaced.covers_text {source : List Char} {n : Node} (h : n.WellPlaced source)
    {t : String} (ht : n.text? = some t) : n.range.Covers source t.toList := by
  obtain ⟨body, hb⟩ := h.covers
  have hs := h.slice_eq_text t ht
  rw [hb.slice, Option.some.injEq] at hs
  exact hs ▸ hb

/-! ## Candidates -/

namespace Candidate

theorem covers_of_trimmedRange? {source : List Char} {n : Node} (h : n.WellPlaced source)
    {r : Range} (hr : trimmedRange? n = some r) : ∃ body, r.Covers source body := by
  obtain ⟨t, ht, hr⟩ := Option.bind_eq_some_iff.1 hr
  obtain ⟨pre, post, hs, hrange⟩ := h.covers_text ht
  dsimp only at hr
  split at hr
  · cases hr
  · cases hr
    have hsplit := Text.splitTrim_append t.toList
    generalize Text.splitTrim t.toList = u at hsplit
    refine ⟨u.core, pre ++ u.before, u.after ++ post, ?_, ?_⟩
    · rw [hs, ← hsplit]
      simp
    · have hcursor : Cursor.mk n.range.span.start n.range.start = .after pre := by rw [hrange]; rfl
      rw [hcursor, Cursor.advance_after, Cursor.advance_after]

/-- The body of a python task is a leaf that does not end with a blank. -/
theorem endsSolid_of_python {cs : List Char} {n body : Node} (hn : n ∈ (rootNode cs).children)
    (hk : n.kind = .pythonFunctionDefinition) (hb : n.child? .pythonContent = some body) :
    ∃ t, body.text? = some (String.ofList t) ∧ Text.EndsSolid t := by
  have hmem := List.mem_of_find?_eq_some hb
  have hbk : body.kind = .pythonContent := by simpa using List.find?_some hb
  have hnode : n ∈ (Piece.locateAll (.after []) (Grammar.read cs)).nodes := hn
  rcases Piece.exists_of_mem_nodes hnode with ⟨t, -, ht⟩ | ⟨inside, pre, hg, hc⟩
  · cases n with
    | leaf => cases hmem
    | branch => cases ht
  · rw [hk] at hg
    rw [hc] at hmem
    have hsolid := Grammar.solidTask_read hg inside rfl
    rcases Piece.exists_of_mem_nodes hmem with ⟨t, ht, htext⟩ | ⟨_, _, hg', -⟩
    · obtain ⟨u, hu, hends⟩ := hsolid _ ht (by rw [hbk]; rfl)
      obtain ⟨-, rfl⟩ := Piece.token.inj hu
      exact ⟨t, htext, hends⟩
    · obtain ⟨u, hu, -⟩ := hsolid _ hg' (by rw [hbk]; rfl)
      cases hu

/-- The range of a candidate of a statement covers a text of the source, and this text ends in no
blank if the candidate is to be dedented. -/
theorem covers_of_mem_ofStatement {cs : List Char} {n : Node} (hn : n ∈ (rootNode cs).children)
    {c : Candidate} (hc : c ∈ ofStatement n) :
    ∃ body, c.range.Covers cs body ∧ (c.dedent = true → Text.EndsSolid body) := by
  have hroot : n ∈ (rootNode cs).preorder :=
    Node.mem_preorder_of_mem_children (Node.preorder_eq _ ▸ List.mem_cons_self) hn
  have hchild : ∀ {k m}, n.child? k = some m → m.WellPlaced cs := fun hm =>
    wellPlaced_rootNode cs (Node.mem_preorder_of_mem_children hroot (List.mem_of_find?_eq_some hm))
  unfold ofStatement at hc
  split at hc
  · obtain ⟨body, hb, rfl⟩ := List.mem_map.1 hc
    obtain ⟨text, ht⟩ := (hchild (Option.mem_toList.1 hb)).covers
    exact ⟨text, ht, fun h => nomatch h⟩
  · rename_i hk
    obtain ⟨body, hb, rfl⟩ := List.mem_map.1 hc
    obtain ⟨t, ht, hsolid⟩ := endsSolid_of_python hn hk (Option.mem_toList.1 hb)
    have hcov := (hchild (Option.mem_toList.1 hb)).covers_text ht
    rw [String.toList_ofList] at hcov
    exact ⟨t, hcov, fun _ => hsolid⟩
  · obtain rfl := List.mem_singleton.1 hc
    obtain ⟨text, ht⟩ := (wellPlaced_rootNode cs hroot).covers
    exact ⟨text, ht, fun h => nomatch h⟩
  · obtain ⟨r, hr, rfl⟩ := List.mem_map.1 hc
    obtain ⟨m, hm, ht⟩ := List.mem_filterMap.1 hr
    obtain ⟨p, hp, hchild⟩ := List.mem_filterMap.1 hm
    have hpre : p ∈ n.preorder := Node.walk_eq_preorder n ▸ (List.mem_filter.1 hp).1
    have hm' := Node.mem_preorder_of_mem_children (Node.preorder_subset hroot hpre)
      (List.mem_of_find?_eq_some hchild)
    obtain ⟨text, ht⟩ := covers_of_trimmedRange? (wellPlaced_rootNode cs hm') ht
    exact ⟨text, ht, fun h => nomatch h⟩

theorem dropNested_subset (stop : Nat) (cs : List Candidate) : dropNested stop cs ⊆ cs := by
  fun_induction dropNested stop cs with
  | case1 => exact List.Subset.refl _
  | case2 stop c cs _ ih => exact List.subset_cons_of_subset c ih
  | case3 stop c cs _ ih => exact List.cons_subset_cons c ih

theorem exists_of_mem_number {counts : Language → Nat} {cs : List Candidate} {r : Region}
    (h : r ∈ number counts cs) : ∃ c ∈ cs, r.range = c.range ∧ r.dedent = c.dedent := by
  induction cs generalizing counts with
  | nil => cases h
  | cons c cs ih =>
    rcases List.mem_cons.1 h with rfl | h
    · exact ⟨c, List.mem_cons_self, rfl, rfl⟩
    · obtain ⟨d, hd, hrd⟩ := ih h
      exact ⟨d, List.mem_cons_of_mem c hd, hrd⟩

end Candidate

/-- A region has the range of a body, which does not end with a blank if it loses its indentation. -/
def Region.Placed (source : String) (r : Region) : Prop :=
  ∃ body, r.range.Covers source.toList body ∧ (r.dedent = true → Text.EndsSolid body)

theorem placed_of_mem_regions {limit : Nat} {source : String} {t : Tree}
    (ht : parse limit source = .ok t) {r : Region} (hr : r ∈ t.regions) : r.Placed source := by
  obtain ⟨c, hc, hrange, hdedent⟩ := Candidate.exists_of_mem_number hr
  obtain ⟨n, hn, hcn⟩ := List.mem_flatMap.1 (List.mem_mergeSort.1 (Candidate.dropNested_subset _ _ hc))
  unfold parse at ht
  dsimp only at ht
  split at ht
  · cases ht
  · cases ht
    rw [Region.Placed, hrange, hdedent]
    exact Candidate.covers_of_mem_ofStatement hn hcn

/-- A region is rendered from its body. -/
theorem Region.render_eq {source : String} {r : Region} {body : List Char}
    (h : r.range.Covers source.toList body) :
    r.render source = Rendering.ofLines r.range.start r.dedent (Text.lines body) := by
  rw [render, h.slice]
  rfl

end Recipe
