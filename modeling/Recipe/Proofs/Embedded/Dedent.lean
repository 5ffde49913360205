import Recipe.Proofs.Embedded.Place

/-!
# Indentation of renderings

The lines of a python task lose indentation when they are rendered: the first line loses what stands
before the region, and the others what they have in common. The two are measured apart. So the lines
after the first keep their indentation relative to each other, always, and the first line keeps its
own relative to them if and only if one of them is indented as it is, or none of them has code
(`Region.dedents_iff`). A body that is one compound statement loses its block
(`Region.not_dedents_nestedBlock`).
-/

namespace Recipe

open Text (bytes)

/-! ## One line -/

namespace Rendering

theorem indentation_drop {l : List Char} {n : Nat} (h : n ≤ indentation l) :
    indentation (l.drop n) + n = indentation l := by
  induction l generalizing n with
  | nil =>
    obtain rfl : n = 0 := Nat.le_zero.1 h
    rfl
  | cons c l ih =>
    cases n with
    | zero => rfl
    | succ n =>
      simp only [indentation, List.takeWhile_cons] at h ih ⊢
      split at h
      · rename_i hc
        have := ih (Nat.le_of_succ_le_succ h)
        simp only [List.drop_succ_cons, hc, if_true, List.length_cons]
        omega
      · exact absurd h (by simp)

/-- The indentation of a line ends with the first character that is not blank. -/
theorem indentation_append {l : List Char} (h : l.all Text.isBlank = false) (m : List Char) :
    indentation (l ++ m) = indentation l := by
  induction l with
  | nil => cases h
  | cons c l ih =>
    simp only [indentation, List.cons_append, List.takeWhile_cons] at ih ⊢
    split
    · rename_i hc
      have hblank : Text.isBlank c = true := by
        simp only [Bool.or_eq_true, beq_iff_eq] at hc
        rcases hc with rfl | rfl <;> decide
      rw [List.all_cons, hblank, Bool.true_and] at h
      rw [List.length_cons, List.length_cons, ih h]
    · rfl

/-- A text that does not begin with a blank has no indentation. -/
theorem indentation_of_head? {l : List Char} {c : Char} (hc : l.head? = some c)
    (hb : Text.isBlank c = false) : indentation l = 0 := by
  obtain ⟨m, rfl⟩ := List.head?_eq_some_iff.1 hc
  have hne : (c == ' ' || c == '\t') = false := by
    rw [Bool.eq_false_iff]
    intro h
    simp only [Bool.or_eq_true, beq_iff_eq] at h
    rcases h with rfl | rfl <;> exact absurd hb (by decide)
  simp [indentation, hne]

/-- A line that loses the part `cut` of its indentation keeps the rest of its indentation. -/
theorem indentation_cut {cut shown : List Char} (h : bytes cut ≤ indentation (cut ++ shown)) :
    indentation shown + bytes cut = indentation (cut ++ shown) := by
  have hle := Nat.le_trans (Text.length_le_bytes cut) h
  have hbytes := (drop_indentation hle).1
  have hdrop := indentation_drop hle
  rw [List.drop_left] at hbytes hdrop
  rw [Text.bytes_append] at hbytes
  omega

/-- Of lines that are not all blank, one has the indentation that they have in common. -/
theorem exists_commonIndentation {ls : List (List Char)} {l : List Char} (h : l ∈ ls)
    (hb : l.all Text.isBlank = false) :
    ∃ m ∈ ls, m.all Text.isBlank = false ∧ indentation m = commonIndentation ls := by
  have hm : indentation l ∈ (ls.filter fun l => !l.all Text.isBlank).map indentation :=
    List.mem_map_of_mem (List.mem_filter.2 ⟨h, by rw [hb]; rfl⟩)
  unfold commonIndentation
  cases hmin : ((ls.filter fun l => !l.all Text.isBlank).map indentation).min? with
  | none =>
    rw [List.min?_eq_none_iff] at hmin
    rw [hmin] at hm
    cases hm
  | some n =>
    obtain ⟨m, hmem, hn⟩ := List.mem_map.1 (List.min?_eq_some_iff.1 hmin).1
    obtain ⟨hls, hsolid⟩ := List.mem_filter.1 hmem
    exact ⟨m, hls, by simpa using hsolid, hn⟩

end Rendering

/-! ## The lines of a region -/

open Rendering (indentation commonIndentation)

/-- A line of a region: the line of the source that it stands on, and the line as it is shown. -/
structure ShownLine where
  host : List Char
  shown : List Char
deriving DecidableEq, Repr

/-- Whether the line of the source is not blank. -/
def ShownLine.hasCode (l : ShownLine) : Bool :=
  !l.host.all Text.isBlank

/-- The lines of a region. -/
def Region.shownLines (source : String) (r : Region) : List ShownLine :=
  List.zipWith ShownLine.mk ((Text.lines source.toList).drop r.range.start.line)
    (Text.lines (r.render source).text.toList)

/-- The region is a block that is indented by `n`: only `n` spaces and tabs stand before its first
line, and the others that have code are indented by at least as much. -/
structure Region.IsBlock (source : String) (r : Region) (n : Nat) : Prop where
  column_eq : r.range.start.column = n
  first : ∀ l ∈ (r.shownLines source).head?, n ≤ indentation l.host
  later : ∀ l ∈ (r.shownLines source).tail, l.hasCode = true → n ≤ indentation l.host

/-- Every line with code is indented by `n` less in the rendering than in the source. -/
def Region.Dedents (source : String) (r : Region) (n : Nat) : Prop :=
  ∀ l ∈ r.shownLines source, l.hasCode = true → indentation l.shown + n = indentation l.host

instance (source : String) (r : Region) (n : Nat) : Decidable (r.Dedents source n) :=
  inferInstanceAs (Decidable (∀ l ∈ r.shownLines source, l.hasCode = true →
    indentation l.shown + n = indentation l.host))

section Lines

variable {source : String} {r : Region} {body : List Char} {k : Nat} {l : ShownLine}

theorem Region.getElem?_shownLines : (r.shownLines source)[k]? = some l ↔
    (Text.lines source.toList)[r.range.start.line + k]? = some l.host ∧
      (Text.lines (r.render source).text.toList)[k]? = some l.shown := by
  rw [shownLines, List.getElem?_zipWith, List.getElem?_drop]
  split
  · rename_i host shown hh hs
    rw [hh, hs, Option.some.injEq, Option.some.injEq, Option.some.injEq]
    exact ⟨by rintro rfl; exact ⟨rfl, rfl⟩, by rintro ⟨rfl, rfl⟩; rfl⟩
  · rename_i hne
    constructor
    · intro h
      cases h
    · rintro ⟨hh, hs⟩
      exact absurd hs (hne l.host l.shown hh)

/-- A line with code is a line of the body that is not blank, and where it stands in the source. -/
theorem Region.exists_line_of_hasCode (h : r.range.Covers source.toList body) (hb : Text.Solid body)
    (hl : (r.shownLines source)[k]? = some l) (hcode : l.hasCode = true) : ∃ u cut v,
      (Text.lines body)[k]? = some (cut ++ l.shown) ∧ l.shown.all Text.isBlank = false ∧
      l.host = u ++ (cut ++ (l.shown ++ v)) ∧
      (r.render source).mapping.stripped[k]? = some (bytes (u ++ cut)) ∧
      bytes cut ≤ indentation (cut ++ l.shown) ∧ (k = 0 → cut = []) ∧ (k ≠ 0 → u = []) := by
  obtain ⟨hhost, hshown⟩ := Region.getElem?_shownLines.1 hl
  have hk := (List.getElem?_eq_some_iff.1 hshown).1
  rw [(Region.length_lines_render h).1] at hk
  obtain ⟨before, cut, m, after, L, hm, -⟩ := Region.exists_line h (List.getElem?_eq_getElem hk)
  obtain ⟨u, v, hline, hcolumn, hu, -⟩ := Region.exists_line_of_source L
  obtain rfl : m = l.shown := Option.some.inj (L.shown_eq.symm.trans hshown)
  obtain ⟨_, _, m', _, H⟩ := Region.exists_hostLine h hb hk
  have hm' : m' = l.shown := Option.some.inj (H.shown_eq.symm.trans hshown)
  have hsolid : l.shown.all Text.isBlank = false := by
    rw [← hm']
    refine H.solid ?_
    rw [← Option.some.inj (hhost.symm.trans H.line_eq)]
    simpa [ShownLine.hasCode] using hcode
  exact ⟨u, cut, v, by rw [List.getElem?_eq_getElem hk, hm], hsolid,
    Option.some.inj (hhost.symm.trans hline), by rw [L.stripped_eq, hcolumn],
    L.cut_le_indentation, fun hk => L.cut_eq_nil (.inl hk), hu⟩

/-- The first line of a block is shown without indentation. -/
theorem Region.first_line_of_isBlock (h : r.range.Covers source.toList body) (hb : Text.Solid body)
    {n : Nat} (hn : r.IsBlock source n) (hl : (r.shownLines source)[0]? = some l)
    (hcode : l.hasCode = true) : indentation l.host = n ∧ indentation l.shown = 0 := by
  obtain ⟨u, cut, v, hline, -, hhost, hstripped, -, hcut, -⟩ :=
    Region.exists_line_of_hasCode h hb hl hcode
  obtain rfl := hcut rfl
  rw [List.nil_append] at hline hhost
  obtain ⟨c, hc, hblank⟩ := hb.starts_first_line hline
  have hu : bytes u = n := by
    obtain ⟨f, ls, hlines⟩ := List.exists_cons_of_ne_nil (Text.lines_ne_nil body)
    rw [Region.render_eq h, hlines, Rendering.ofLines_cons, List.append_nil] at hstripped
    rw [← hn.column_eq]
    exact (Option.some.inj hstripped).symm
  have hle : n ≤ indentation l.host := hn.first l (by rw [List.head?_eq_getElem?]; exact hl)
  rw [hhost, ← hu] at hle
  have hcut := Rendering.indentation_cut hle
  rw [Rendering.indentation_of_head? (by rw [List.head?_append, hc]; rfl) hblank, hu,
    Nat.zero_add] at hcut
  exact ⟨by rw [hhost, ← hcut], Rendering.indentation_of_head? hc hblank⟩

/-- A line of the body that is not blank has code. -/
theorem Region.exists_hasCode (h : r.range.Covers source.toList body) {m : List Char}
    (hm : (Text.lines body)[k]? = some m) (hb : m.all Text.isBlank = false) :
    ∃ l, (r.shownLines source)[k]? = some l ∧ l.hasCode = true := by
  obtain ⟨before, cut, shown, after, L, rfl, -⟩ := Region.exists_line h hm
  obtain ⟨u, v, hline, -, -, -⟩ := Region.exists_line_of_source L
  refine ⟨⟨_, shown⟩, Region.getElem?_shownLines.2 ⟨hline, L.shown_eq⟩, ?_⟩
  rw [ShownLine.hasCode, ← List.append_assoc cut, List.all_append, List.all_append, hb,
    Bool.false_and, Bool.and_false]
  rfl

/-- A line after the first has the indentation of the line of the body, and loses what the lines of
the body after the first have in common. -/
theorem Region.later_line_of_dedent (h : r.range.Covers source.toList body) (hb : Text.Solid body)
    (hd : r.dedent = true) {f : List Char} {ls : List (List Char)} (hlines : Text.lines body = f :: ls)
    (hl : (r.shownLines source)[k + 1]? = some l) (hcode : l.hasCode = true) :
    ∃ m, ls[k]? = some m ∧ m.all Text.isBlank = false ∧ indentation m = indentation l.host ∧
      indentation l.shown + commonIndentation ls = indentation l.host := by
  obtain ⟨u, cut, v, hline, hsolid, hhost, hstripped, hcut, -, hu⟩ :=
    Region.exists_line_of_hasCode h hb hl hcode
  obtain rfl := hu (Nat.succ_ne_zero k)
  rw [hlines, List.getElem?_cons_succ] at hline
  have hblank : (cut ++ l.shown).all Text.isBlank = false := by
    rw [List.all_append, hsolid, Bool.and_false]
  have hcommon : commonIndentation ls = bytes cut := by
    rw [Region.render_eq h, hlines, Rendering.ofLines_cons, List.getElem?_cons_succ,
      List.getElem?_map, hline, Option.map_some, Option.some.injEq,
      Rendering.cut_indent (List.mem_of_getElem? hline) (fun _ => hblank), hd] at hstripped
    exact hstripped
  have hindent : indentation l.host = indentation (cut ++ l.shown) := by
    rw [hhost, List.nil_append, ← List.append_assoc, Rendering.indentation_append hblank]
  rw [hindent, hcommon]
  exact ⟨_, hline, hblank, rfl, Rendering.indentation_cut hcut⟩

/-- The lines after the first lose what they have in common, which is all that one of them has. -/
theorem Region.exists_common (h : r.range.Covers source.toList body) (hb : Text.Solid body)
    (hd : r.dedent = true) : ∃ d,
      (∀ l ∈ (r.shownLines source).tail, l.hasCode = true →
        indentation l.shown + d = indentation l.host) ∧
      ∀ l ∈ (r.shownLines source).tail, l.hasCode = true →
        ∃ m ∈ (r.shownLines source).tail, m.hasCode = true ∧ indentation m.host = d := by
  obtain ⟨f, ls, hlines⟩ := List.exists_cons_of_ne_nil (Text.lines_ne_nil body)
  have hlater : ∀ l ∈ (r.shownLines source).tail, l.hasCode = true →
      ∃ m ∈ ls, m.all Text.isBlank = false ∧
        indentation l.shown + commonIndentation ls = indentation l.host := by
    intro l hl hcode
    obtain ⟨k, hk⟩ := List.getElem?_of_mem hl
    rw [List.getElem?_tail] at hk
    obtain ⟨m, hm, hsolid, -, hindent⟩ := Region.later_line_of_dedent h hb hd hlines hk hcode
    exact ⟨m, List.mem_of_getElem? hm, hsolid, hindent⟩
  refine ⟨commonIndentation ls, fun l hl hcode => ?_, fun l hl hcode => ?_⟩
  · obtain ⟨-, -, -, hindent⟩ := hlater l hl hcode
    exact hindent
  · obtain ⟨m, hm, hsolid, -⟩ := hlater l hl hcode
    obtain ⟨m, hm, hsolid, hmin⟩ := Rendering.exists_commonIndentation hm hsolid
    obtain ⟨j, hj⟩ := List.getElem?_of_mem hm
    obtain ⟨l', hl', hcode'⟩ := Region.exists_hasCode (k := j + 1) h
      (by rw [hlines, List.getElem?_cons_succ, hj]) hsolid
    obtain ⟨m', hm', -, hindent, -⟩ := Region.later_line_of_dedent h hb hd hlines hl' hcode'
    obtain rfl : m = m' := Option.some.inj (hj.symm.trans hm')
    refine ⟨l', ?_, hcode', by rw [← hindent, hmin]⟩
    rw [← List.getElem?_tail] at hl'
    exact List.mem_of_getElem? hl'

end Lines

/-- The body of a python task that is a block indented by `n`: its first line is shown without
indentation, and its other lines lose an indentation of at least `n` that they have in common, so they
keep their indentation relative to each other. All lines lose `n`, and with it keep their indentation
relative to the first one, if and only if no other line has code or one of them is indented by `n`. -/
theorem Region.dedents_iff {limit : Nat} {source : String} {t : Tree}
    (ht : parse limit source = .ok t) {r : Region} (hr : r ∈ t.regions) (hd : r.dedent = true)
    {n : Nat} (hn : r.IsBlock source n) :
    (∀ l ∈ (r.shownLines source).head?, l.hasCode = true →
      indentation l.host = n ∧ indentation l.shown = 0) ∧
    (∃ d, n ≤ d ∧ ∀ l ∈ (r.shownLines source).tail, l.hasCode = true →
      indentation l.shown + d = indentation l.host) ∧
    (r.Dedents source n ↔ (∀ l ∈ (r.shownLines source).tail, l.hasCode = false) ∨
      ∃ l ∈ (r.shownLines source).tail, l.hasCode = true ∧ indentation l.host = n) := by
  have hsource : t.source = source := by rw [(of_parse ht).2]
  obtain ⟨body, hc, hb⟩ := ((Tree.embeds_of_parse ht).solid r hr).2
  rw [hsource] at hc
  obtain ⟨d, hlater, hmin⟩ := Region.exists_common hc hb hd
  have hfirst : ∀ l ∈ (r.shownLines source).head?, l.hasCode = true →
      indentation l.host = n ∧ indentation l.shown = 0 := by
    intro l hl hcode
    rw [List.head?_eq_getElem?] at hl
    exact Region.first_line_of_isBlock hc hb hn hl hcode
  have hle : ∀ l ∈ (r.shownLines source).tail, l.hasCode = true → n ≤ d := by
    intro l hl hcode
    obtain ⟨m, hm, hcode, rfl⟩ := hmin l hl hcode
    exact hn.later m hm hcode
  -- The first line loses `n` in any case.
  have htail : r.Dedents source n ↔ ∀ l ∈ (r.shownLines source).tail, l.hasCode = true →
      indentation l.shown + n = indentation l.host := by
    refine ⟨fun h l hl => h l (List.mem_of_mem_tail hl), fun h l hl hcode => ?_⟩
    obtain ⟨x, xs, hs⟩ := List.exists_cons_of_ne_nil (List.ne_nil_of_mem hl)
    rw [hs] at hl hfirst h
    rcases List.mem_cons.1 hl with rfl | hl
    · have := hfirst l rfl hcode
      omega
    · exact h l hl hcode
  rw [htail]
  by_cases hcode : ∃ l ∈ (r.shownLines source).tail, l.hasCode = true
  · obtain ⟨l, hl, hcode⟩ := hcode
    refine ⟨hfirst, ⟨d, hle l hl hcode, hlater⟩, fun h => .inr ?_, ?_⟩
    · -- The line with the least indentation loses all of it, and it loses `n`.
      obtain ⟨m, hm, hcode, hindent⟩ := hmin l hl hcode
      have := hlater m hm hcode
      have := h m hm hcode
      exact ⟨m, hm, hcode, by omega⟩
    · rintro (hnone | ⟨m, hm, hmcode, hindent⟩)
      · rw [hnone l hl] at hcode
        cases hcode
      · have := hlater m hm hmcode
        have := hle m hm hmcode
        obtain rfl : d = n := by omega
        exact hlater
  · have hnone : ∀ l ∈ (r.shownLines source).tail, l.hasCode = false := fun l hl =>
      Bool.eq_false_iff.2 fun h => hcode ⟨l, hl, h⟩
    have hvacuous : ∀ l ∈ (r.shownLines source).tail, l.hasCode = true →
        indentation l.shown + n = indentation l.host := fun l hl h => absurd ⟨l, hl, h⟩ hcode
    exact ⟨hfirst, ⟨n, Nat.le_refl n, hvacuous⟩, fun _ => .inl hnone, fun _ => hvacuous⟩

/-- A task with a block in it, a blank line, and a line after the block. -/
def blockTask : String :=
  "python f() \x7b\n\tif é:\n\t  a\n\n\tb\n\x7d\n"

/-- The body of that task. -/
def blockRegion : Region :=
  ⟨.python, ⟨⟨14, 29⟩, ⟨1, 1⟩, ⟨4, 2⟩⟩, 0, true⟩

theorem Region.dedents_iff_blockTask :
    (∃ t, parse 64 blockTask = .ok t ∧ blockRegion ∈ t.regions) ∧ blockRegion.dedent = true ∧
      blockRegion.IsBlock blockTask 1 ∧ blockRegion.Dedents blockTask 1 := by
  have ht : parse 64 blockTask = .ok ⟨blockTask, some (rootNode blockTask.toList)⟩ :=
    parse_eq_ok (by decide)
  have hr : blockRegion ∈ (Tree.mk blockTask (some (rootNode blockTask.toList))).regions := by
    decide +kernel
  have hn : blockRegion.IsBlock blockTask 1 := ⟨rfl, by decide +kernel, by decide +kernel⟩
  exact ⟨⟨_, ht, hr⟩, rfl, hn,
    (Region.dedents_iff ht hr rfl hn).2.2.2 (.inr (by decide +kernel))⟩

/-- A task whose body is one compound statement. -/
def nestedBlock : String :=
  "python f() \x7b\n  if x:\n      a\n\x7d\n"

/-- The body of that task. -/
def nestedRegion : Region :=
  ⟨.python, ⟨⟨15, 28⟩, ⟨1, 2⟩, ⟨2, 7⟩⟩, 0, true⟩

theorem Region.not_dedents_nestedBlock :
    (∃ t, parse 64 nestedBlock = .ok t ∧ nestedRegion ∈ t.regions) ∧ nestedRegion.dedent = true ∧
      nestedRegion.IsBlock nestedBlock 2 ∧ ¬ nestedRegion.Dedents nestedBlock 2 ∧
      (nestedRegion.render nestedBlock).text = "if x:\na" :=
  ⟨⟨_, parse_eq_ok (by decide), by decide +kernel⟩, rfl,
    ⟨rfl, by decide +kernel, by decide +kernel⟩, by decide +kernel, by decide +kernel⟩

end Recipe
