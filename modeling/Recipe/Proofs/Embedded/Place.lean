import Mathlib.Data.List.Forall2
import Recipe.Proofs.Embedded.Complete
import Recipe.Proofs.Embedded.Faithful

/-!
# Places of a host in a rendering

A line of a region is a part of a line of the host: all of it, but for what stands before the region on
its first line and after it on its last (`Region.HostLine`). So a place of the host in the region, after
what its line loses, is a place of the rendering, and from both on the same code follows, up to the end
of the host's line or of the region (`Region.HostLine.place`). A region begins and ends with characters
that are not blank, and so its line is blank if and only if the host's line is.
-/

namespace Recipe

open Text (bytes)

namespace Text

theorem length_le_bytes (cs : List Char) : cs.length ≤ bytes cs := by
  induction cs with
  | nil => exact Nat.le_refl 0
  | cons c cs ih =>
    have := c.utf8Size_pos
    rw [List.length_cons, bytes_cons]
    omega

/-- A text that does not begin with a blank has a first line that begins with no blank. -/
theorem Solid.starts_first_line {cs l : List Char} (h : Solid cs) (hl : (lines cs)[0]? = some l) :
    ∃ c, l.head? = some c ∧ isBlank c = false := by
  obtain ⟨c, hc, hb⟩ := h.starts
  have hne : c ≠ '\n' := by
    rintro rfl
    exact absurd hb (by decide)
  cases cs with
  | nil => cases hc
  | cons d cs =>
    obtain rfl : d = c := by simpa using hc
    obtain ⟨m, ms, hm⟩ := List.exists_cons_of_ne_nil (lines_ne_nil cs)
    rw [lines_cons hm, if_neg hne] at hl
    obtain rfl : d :: m = l := by simpa using hl
    exact ⟨d, rfl, hb⟩

theorem Solid.first_line {cs l : List Char} (h : Solid cs) (hl : (lines cs)[0]? = some l) :
    l.all isBlank = false := by
  obtain ⟨c, hc, hb⟩ := h.starts_first_line hl
  rw [List.all_eq_false]
  exact ⟨c, List.mem_of_head? hc, by simp [hb]⟩

/-- A text that does not end with a blank has a last line that is not blank. -/
theorem Solid.final_line {cs l : List Char} {k : Nat} (h : Solid cs) (hl : (lines cs)[k]? = some l)
    (hk : k + 1 = (lines cs).length) : l.all isBlank = false := by
  obtain ⟨c, hc, hb⟩ := h.ends
  have hne : c ≠ '\n' := by
    rintro rfl
    exact absurd hb (by decide)
  obtain ⟨m, hm, hmc⟩ := getLast?_lines hc hne
  rw [List.getLast?_eq_getElem?, ← hk, Nat.add_sub_cancel] at hm
  obtain rfl : m = l := Option.some.inj (hm.symm.trans hl)
  rw [List.all_eq_false]
  exact ⟨c, List.mem_of_getLast? hmc, by simp [hb]⟩

end Text

namespace LineTable

theorem joinedBytes_le {ls ms : List (List Char)}
    (h : List.Forall₂ (fun l m => bytes l ≤ bytes m) ls ms) : joinedBytes ls ≤ joinedBytes ms := by
  induction h with
  | nil => exact Nat.le_refl 0
  | cons hle h ih =>
    cases h with
    | nil => exact hle
    | cons => exact Nat.add_le_add (Nat.succ_le_succ hle) ih

end LineTable

/-! ## Lines of a region in the host -/

/-- Line `k` of a region in the line of the source that it is a part of: what stands before the region,
the indentation that the line loses, the line as it is shown, and what stands after the region. -/
structure Region.HostLine (source : String) (r : Region) (k : Nat) (u cut shown v : List Char) :
    Prop where
  line_eq : (Text.lines source.toList)[r.range.start.line + k]? = some (u ++ (cut ++ (shown ++ v)))
  shown_eq : (Text.lines (r.render source).text.toList)[k]? = some shown
  stripped_eq : (r.render source).mapping.stripped[k]? = some (bytes (u ++ cut))
  le_stop : (LineTable.ofText source.toList).lineStart (r.range.start.line + k)
    + bytes (u ++ (cut ++ shown)) ≤ r.range.span.stop
  /-- The region goes on to the end of the line, or ends with what is shown of it. -/
  ends : v = [] ∨ r.range.stop = ⟨r.range.start.line + k, bytes (u ++ (cut ++ shown))⟩ ∧
    r.range.span.stop = (LineTable.ofText source.toList).lineStart (r.range.start.line + k)
      + bytes (u ++ (cut ++ shown))
  /-- The line is blank only if the line of the source is. -/
  solid : (u ++ (cut ++ (shown ++ v))).all Text.isBlank = false → shown.all Text.isBlank = false

section HostLine

variable {source : String} {r : Region} {body : List Char}

/-- The line of the source that line `k` of a region is a part of. -/
theorem Region.exists_line_of_source {k : Nat} {before cut shown after : List Char}
    (L : r.Line source k before cut shown after) : ∃ u v,
      (Text.lines source.toList)[r.range.start.line + k]? = some (u ++ (cut ++ (shown ++ v))) ∧
      bytes (u ++ cut) = (Cursor.after (before ++ cut)).position.column ∧ (k ≠ 0 → u = []) ∧
      (LineTable.ofText source.toList).lineStart (r.range.start.line + k) + bytes u = bytes before := by
  have hcut : '\n' ∉ cut := fun hm => L.not_mem (List.mem_append_left shown hm)
  have hposition := Cursor.position_advance_of_not_mem (.after before) hcut
  rw [Cursor.advance_after] at hposition
  have hline : (Cursor.after before).position.line = r.range.start.line + k := by
    rw [← L.line_eq, hposition]
  obtain ⟨u, v, hu, hl, hs⟩ := LineTable.exists_line_after L.not_mem before after
  rw [List.append_assoc cut shown after, ← L.source_eq, hline] at hl hs
  refine ⟨u, v, by rw [hl, List.append_assoc cut], ?_, fun hk => ?_, hs⟩
  · rw [hposition, Text.bytes_append, hu]
  · rw [L.column_eq hk] at hu
    exact Text.bytes_eq_zero.1 hu

/-- If a region ends with the shown text of its line `k`, its range ends on that line of the source,
in the column after the shown text. -/
theorem Region.Line.stop_eq {k : Nat} {before cut shown after : List Char}
    (L : r.Line source k before cut shown after) (h : r.range.Covers source.toList body)
    (hstop : r.range.span.stop = bytes (before ++ (cut ++ shown))) : r.range.stop
      = ⟨r.range.start.line + k, (Cursor.after (before ++ cut)).position.column + bytes shown⟩ := by
  obtain ⟨pre, post, hs, hr⟩ := h
  have hcut : before ++ (cut ++ shown) ++ after = pre ++ body ++ post := by
    rw [List.append_assoc, List.append_assoc cut, ← L.source_eq, hs, List.append_assoc]
  have hoffset : r.range.span.stop = bytes (pre ++ body) :=
    (congrArg (·.span.stop) hr).trans (Cursor.offset_after _)
  have hposition : r.range.stop = (Cursor.after (pre ++ body)).position := congrArg Range.stop hr
  -- Both begin the source and have the same size.
  have hsize := hstop.symm.trans hoffset
  obtain ⟨m, hm, -⟩ := Text.exists_between hcut (Nat.le_of_eq hsize)
  obtain rfl : m = [] := by
    rw [hm, Text.bytes_append _ m] at hsize
    exact Text.bytes_eq_zero.1 (by omega)
  rw [hposition, hm, List.append_nil, ← List.append_assoc before, ← Cursor.advance_after,
    Cursor.position_advance_of_not_mem _ L.not_mem_shown, L.line_eq]

/-- A line of a region that is not its last one is followed by its line feed. -/
theorem Region.eq_nil_of_next (h : r.range.Covers source.toList body) {k : Nat} {l u v : List Char}
    (hl : (Text.lines body)[k]? = some l) (hnext : k + 1 < (Text.lines body).length)
    (hline : (Text.lines source.toList)[r.range.start.line + k]? = some (u ++ (l ++ v)))
    (hstart : (LineTable.ofText source.toList).lineStart (r.range.start.line + k) + bytes u
      = r.range.span.start + LineTable.bytesOfFirst k (Text.lines body)) : v = [] := by
  obtain ⟨before, cut, shown, after, L, -, hbefore⟩ :=
    Region.exists_line h (List.getElem?_eq_getElem hnext)
  obtain ⟨u', v', -, -, hu, hnextStart⟩ := Region.exists_line_of_source L
  rw [hu (Nat.succ_ne_zero k), Text.bytes_nil, Nat.add_zero, LineTable.lineStart_ofText,
    ← Nat.add_assoc, LineTable.bytesOfFirst_succ hline, hbefore, LineTable.bytesOfFirst_succ hl]
    at hnextStart
  rw [LineTable.lineStart_ofText] at hstart
  simp only [Text.bytes_append] at hnextStart
  exact Text.bytes_eq_zero.1 (by omega)

/-- Every line of a region is a part of a line of the source. -/
theorem Region.exists_hostLine (h : r.range.Covers source.toList body) (hb : Text.Solid body) {k : Nat}
    (hk : k < (Text.lines body).length) : ∃ u cut shown v, r.HostLine source k u cut shown v := by
  obtain ⟨l, hl⟩ : ∃ l, (Text.lines body)[k]? = some l := ⟨_, List.getElem?_eq_getElem hk⟩
  obtain ⟨before, cut, shown, after, L, rfl, hbefore⟩ := Region.exists_line h hl
  obtain ⟨u, v, hline, hcolumn, hu, hstart⟩ := Region.exists_line_of_source L
  have hsize := LineTable.bytesOfFirst_add_le hl
  rw [LineTable.joinedBytes_lines, Text.bytes_append] at hsize
  have hspan : r.range.span.stop = r.range.span.start + bytes body := by
    obtain ⟨pre, post, -, hr⟩ := h
    rw [hr, Cursor.rangeTo, Cursor.offset_after, Cursor.offset_after, Text.bytes_append]
  have hblank : (cut ++ shown).all Text.isBlank = shown.all Text.isBlank := by
    have hle := Nat.le_trans (Text.length_le_bytes cut) L.cut_le_indentation
    have hdrop := (Rendering.drop_indentation hle).2
    rwa [List.drop_left] at hdrop
  have hwidth : bytes (u ++ (cut ++ shown)) = bytes u + bytes cut + bytes shown := by
    rw [Text.bytes_append, Text.bytes_append, Nat.add_assoc]
  have hv : k + 1 < (Text.lines body).length → v = [] := fun hnext =>
    Region.eq_nil_of_next h hl hnext (u := u) (by rw [hline, List.append_assoc cut])
      (by rw [hstart, hbefore])
  refine ⟨u, cut, shown, v, ⟨hline, L.shown_eq, by rw [L.stripped_eq, hcolumn], ?_, ?_, ?_⟩⟩
  · rw [hwidth]
    omega
  · by_cases hnext : k + 1 < (Text.lines body).length
    · exact .inl (hv hnext)
    · have hstop : r.range.span.stop = bytes (before ++ (cut ++ shown)) := by
        have := hsize.2.2 (by omega)
        rw [hspan, Text.bytes_append, Text.bytes_append, hbefore]
        omega
      refine .inr ⟨?_, by rw [hstop, hwidth, Text.bytes_append, Text.bytes_append]; omega⟩
      rw [L.stop_eq h hstop, hwidth, ← Text.bytes_append, hcolumn]
  · intro hall
    rw [← hblank]
    by_cases hfirst : k = 0
    · subst hfirst
      exact hb.first_line hl
    by_cases hnext : k + 1 < (Text.lines body).length
    · rw [hu hfirst, hv hnext, List.nil_append, List.append_nil] at hall
      exact hall
    · exact hb.final_line hl (by omega)

/-- A rendering is not longer than the source. -/
theorem Region.bytes_render_le (h : r.range.Covers source.toList body) :
    bytes (r.render source).text.toList ≤ bytes source.toList := by
  obtain ⟨l, ls, hl⟩ := List.exists_cons_of_ne_nil (Text.lines_ne_nil body)
  have hshown : List.Forall₂ (fun l m => bytes l ≤ bytes m) (l :: Rendering.shown r.dedent ls)
      (l :: ls) := by
    refine .cons (Nat.le_refl _) (List.forall₂_map_left_iff.2 (List.forall₂_same.2 fun m _ => ?_))
    have := Rendering.bytes_drop_cut (Rendering.indent r.dedent ls) m
    omega
  have hle := LineTable.joinedBytes_le hshown
  rw [← hl, LineTable.joinedBytes_lines] at hle
  rw [← LineTable.joinedBytes_lines, Region.render_eq h, hl, Rendering.lines_text hl]
  obtain ⟨pre, post, hs, -⟩ := h
  rw [hs, Text.bytes_append, Text.bytes_append]
  omega

/-! ## Places of a region -/

/-- The code of a source from a place on, up to the end of its line or of the region. -/
def Region.codeFrom (source : String) (r : Region) (p : Position) : Option (List Char) :=
  let t := LineTable.ofText source.toList
  (t.lineSpan p.line).bind fun line =>
    Text.slice source.toList (t.offset p) (min line.stop r.range.span.stop)

theorem Region.codeFrom_eq {n : Nat} {pre rest v : List Char}
    (hline : (Text.lines source.toList)[n]? = some (pre ++ (rest ++ v)))
    (hle : (LineTable.ofText source.toList).lineStart n + bytes (pre ++ rest) ≤ r.range.span.stop)
    (hends : v = [] ∨ r.range.span.stop
      = (LineTable.ofText source.toList).lineStart n + bytes (pre ++ rest)) :
    r.codeFrom source ⟨n, bytes pre⟩ = some rest := by
  obtain ⟨a, b, hsource, -, -, ha⟩ := Text.exists_of_getElem?_lines hline
  rw [← LineTable.lineStart_ofText] at ha
  have hoffset := LineTable.offset_lineStart hline (c := bytes pre) (by
    rw [Text.bytes_append pre]
    exact Nat.le_add_right _ _)
  have hspan : (LineTable.ofText source.toList).lineSpan n
      = some ⟨(LineTable.ofText source.toList).lineStart n,
        (LineTable.ofText source.toList).lineStart n + bytes (pre ++ (rest ++ v))⟩ := by
    rw [LineTable.lineSpan, LineTable.ofText, hline]
    rfl
  have hmin : min ((LineTable.ofText source.toList).lineStart n + bytes (pre ++ (rest ++ v)))
      r.range.span.stop = bytes (a ++ pre) + bytes rest := by
    rw [Text.bytes_append pre rest] at hle hends
    rw [Text.bytes_append a, ha, Text.bytes_append pre, Text.bytes_append rest]
    rcases hends with rfl | heq
    · rw [Text.bytes_nil]
      omega
    · omega
  have hslice := Text.slice_append (a ++ pre) rest (v ++ b)
  rw [codeFrom, hspan, Option.bind_some, hmin, hoffset, ← ha, ← Text.bytes_append, hsource]
  simpa [List.append_assoc] using hslice

/-- After what a line of a region loses, the code of the host is what is shown of it. -/
theorem Region.HostLine.place {k : Nat} {u cut shown v pre post : List Char}
    (H : r.HostLine source k u cut shown v)
    (hline : (Text.lines source.toList)[r.range.start.line + k]? = some (pre ++ post))
    (hstop : Position.mk (r.range.start.line + k) (bytes pre) ≤ r.range.stop)
    (hcut : bytes (u ++ cut) ≤ bytes pre) : ∃ front rest, shown = front ++ rest ∧
      bytes pre = bytes (u ++ cut) + bytes front ∧
      r.codeFrom source ⟨r.range.start.line + k, bytes pre⟩ = some rest := by
  have hle := H.le_stop
  have hends := H.ends
  have hwidth : bytes (u ++ (cut ++ shown)) = bytes (u ++ cut) + bytes shown := by
    rw [← List.append_assoc, Text.bytes_append]
  have hsame : u ++ cut ++ (shown ++ v) = pre ++ post := by
    rw [List.append_assoc]
    exact Option.some.inj (H.line_eq.symm.trans hline)
  obtain ⟨front, rfl, hfront⟩ := Text.exists_between hsame hcut
  rw [Text.bytes_append _ front] at hstop
  have hfit : bytes front ≤ bytes shown := by
    rcases hends with rfl | ⟨heq, -⟩
    · have := congrArg bytes hfront
      rw [List.append_nil, Text.bytes_append] at this
      omega
    · rw [heq, hwidth] at hstop
      rcases hstop with hlt | ⟨-, hcolumn⟩
      · exact absurd hlt (Nat.lt_irrefl _)
      · exact Nat.le_of_add_le_add_left hcolumn
  obtain ⟨rest, rfl, rfl⟩ := Text.exists_between hfront.symm hfit
  refine ⟨front, rest, rfl, Text.bytes_append _ front, Region.codeFrom_eq hline ?_ ?_⟩
  · rw [List.append_assoc, List.append_assoc]
    exact hle
  · rw [List.append_assoc, List.append_assoc]
    exact hends.imp_right And.right

/-- A place of the host in a region, after what its line loses, is a place of the rendering from which
the same code follows. -/
theorem Region.exists_place (h : r.range.Covers source.toList body) (hb : Text.Solid body) {n : Nat}
    {pre post : List Char} (hline : (Text.lines source.toList)[n]? = some (pre ++ post))
    (ht : r.range.touches ⟨n, bytes pre⟩ = true)
    (hcut : ((r.render source).mapping.stripped[n - r.range.start.line]?).getD 0 ≤ bytes pre) :
    ∃ front rest, (r.render source).mapping.toEmbedded ⟨n, bytes pre⟩
        = some ⟨n - r.range.start.line, bytes front⟩ ∧
      (Text.lines (r.render source).text.toList)[n - r.range.start.line]? = some (front ++ rest) ∧
      r.codeFrom source ⟨n, bytes pre⟩ = some rest ∧
      ((pre ++ post).all Text.isBlank = false →
        Text.isBlankLine (r.render source).text.toList (n - r.range.start.line) = false) := by
  rw [Range.touches, Bool.and_eq_true, decide_eq_true_eq, decide_eq_true_eq] at ht
  obtain ⟨hstart, hstop⟩ := ht
  have hfirst : r.range.start.line ≤ n := by
    rcases hstart with hlt | ⟨heq, -⟩
    · exact Nat.le_of_lt hlt
    · exact Nat.le_of_eq heq
  have hlast : n ≤ r.range.stop.line := by
    rcases hstop with hlt | ⟨heq, -⟩
    · exact Nat.le_of_lt hlt
    · exact Nat.le_of_eq heq
  obtain ⟨k, rfl⟩ := Nat.exists_eq_add_of_le hfirst
  rw [Nat.add_sub_cancel_left] at hcut ⊢
  have hlines := (Region.faithful_of_covers h).start_add_lineCount
  rw [(Region.length_lines_render h).2] at hlines
  obtain ⟨u, cut, shown, v, H⟩ := Region.exists_hostLine h hb (k := k) (by omega)
  rw [H.stripped_eq, Option.getD_some] at hcut
  obtain ⟨front, rest, rfl, hfront, hcode⟩ := H.place hline hstop hcut
  refine ⟨front, rest, ?_, H.shown_eq, hcode, fun hall => ?_⟩
  · rw [Mapping.toEmbedded, Region.start_mapping, if_pos hfirst, Nat.add_sub_cancel_left,
      H.stripped_eq, hfront]
    simp
  · have hsame := Option.some.inj (H.line_eq.symm.trans hline)
    rw [Text.isBlankLine, H.shown_eq]
    exact H.solid (hsame ▸ hall)

end HostLine

end Recipe
