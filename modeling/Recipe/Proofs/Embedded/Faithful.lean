import Recipe.Proofs.Embedded.Rendering
import Recipe.Proofs.Text.Offset

/-!
# Faithful renderings

A rendering shows the code of its region and nothing else. `Region.Faithful` says what that means:
the mapping has as many lines as the rendering and as the range, every place of the rendering is a
place of the region with the same byte and maps back to where it came from, and what is not shown of
the region is indentation of lines after the first. Every region that covers a text of the source is
faithful, so every region of a recipe is (`Region.render_faithful`).

Line by line the source is cut into what stands before a line, the indentation that the line loses,
the line as it is shown, and what follows it (`Region.Line`).
-/

namespace Recipe

open Text (bytes)

/-- The mapping takes some byte of the rendering to this byte of the source. -/
def Region.Shows (source : String) (r : Region) (o : Nat) : Prop :=
  ∃ o' < bytes (r.render source).text.toList, ∃ h,
    (r.render source).mapping.toHost
        ((LineTable.ofText (r.render source).text.toList).position o') = some h ∧
      (LineTable.ofText source.toList).offset h = o

/-- The rendering of a region shows the code of the region and nothing else. -/
structure Region.Faithful (source : String) (r : Region) : Prop where
  /-- The mapping has the lines of the rendering. -/
  lineCount_eq : (r.render source).mapping.lineCount = (r.render source).text.toList.count '\n' + 1
  /-- The mapping has the lines of the range. -/
  start_add_lineCount :
    r.range.start.line + (r.render source).mapping.lineCount = r.range.stop.line + 1
  /-- A place of the rendering, the ends of its lines included, is a place of the region that maps
  back to it and has the same byte. -/
  toHost : ∀ i l, (Text.lines (r.render source).text.toList)[i]? = some l → ∀ c ≤ bytes l, ∃ h,
    (r.render source).mapping.toHost ⟨i, c⟩ = some h ∧ r.range.touches h = true ∧
    (r.render source).mapping.toEmbedded h = some ⟨i, c⟩ ∧
    (c < bytes l → ∃ b, Text.byteAt? (r.render source).text.toList ⟨i, c⟩ = some b ∧
      Text.byteAt? source.toList h = some b)
  /-- A byte of the region that is not shown is in the indentation of a line after the first, and
  there is none unless lines lose their indentation. -/
  not_shown : ∀ o, r.range.span.start ≤ o → o < r.range.span.stop → ¬ r.Shows source o →
    r.dedent = true ∧ ∃ k l c, (LineTable.ofText source.toList).position o = ⟨k, c⟩ ∧
      r.range.start.line < k ∧ (Text.lines source.toList)[k]? = some l ∧
      c < Rendering.indentation l

/-! ## Cutting one line -/

namespace Rendering

theorem bytes_take_of_le_indentation {l : List Char} {n : Nat} (h : n ≤ indentation l) :
    bytes (l.take n) = n := by
  have hd := (drop_indentation h).1
  have ht := congrArg bytes (List.take_append_drop n l)
  rw [Text.bytes_append] at ht
  omega

/-- A line that goes on has at least the indentation that it had. -/
theorem indentation_le_append (l m : List Char) : indentation l ≤ indentation (l ++ m) := by
  induction l with
  | nil => exact Nat.zero_le _
  | cons c l ih =>
    simp only [indentation, List.cons_append, List.takeWhile_cons] at ih ⊢
    split
    · exact Nat.succ_le_succ ih
    · exact Nat.le_refl _

/-- Line `k` of a region is shown without its first `n` characters, which are indentation, and the
mapping records `n` for it, on the first line together with the column where the region starts. -/
theorem exists_cut (start : Position) (dedent : Bool) {l m : List Char} {ls : List (List Char)}
    {k : Nat} (h : (l :: ls)[k]? = some m) :
    ∃ n ≤ indentation m, (k = 0 ∨ dedent = false → n = 0) ∧
      (l :: shown dedent ls)[k]? = some (m.drop n) ∧
      (start.column :: ls.map (cut (indent dedent ls)))[k]?
        = some ((if k = 0 then start.column else 0) + n) := by
  cases k with
  | zero =>
    obtain rfl : l = m := by simpa using h
    exact ⟨0, Nat.zero_le _, fun _ => rfl, rfl, rfl⟩
  | succ k =>
    rw [List.getElem?_cons_succ] at h
    refine ⟨cut (indent dedent ls) m, Nat.min_le_left _ _, ?_, ?_, ?_⟩
    · rintro (hk | rfl)
      · cases hk
      · exact Nat.min_zero _
    · simp [shown, h]
    · simp [h]

end Rendering

/-! ## The lines of a region in the source -/

/-- Line `k` of a region: the source is what stands before the line, the indentation that the line
loses, the line as it is shown, and what follows. -/
structure Region.Line (source : String) (r : Region) (k : Nat)
    (before cut shown after : List Char) : Prop where
  source_eq : source.toList = before ++ (cut ++ (shown ++ after))
  not_mem : '\n' ∉ cut ++ shown
  /-- The line is shown as line `k` of the rendering. -/
  shown_eq : (Text.lines (r.render source).text.toList)[k]? = some shown
  cut_eq_nil : k = 0 ∨ r.dedent = false → cut = []
  cut_le_indentation : bytes cut ≤ Rendering.indentation (cut ++ shown)
  /-- A line after the first begins where a line of the source begins. -/
  column_eq : k ≠ 0 → (Cursor.after before).position.column = 0
  /-- The mapping takes the line to where it is shown from. -/
  stripped_eq : (r.render source).mapping.stripped[k]?
    = some (Cursor.after (before ++ cut)).position.column
  line_eq : (Cursor.after (before ++ cut)).position.line = r.range.start.line + k
  start_le : r.range.start ≤ (Cursor.after (before ++ cut)).position
  le_stop : (Cursor.after (before ++ (cut ++ shown))).position ≤ r.range.stop

section Lines

variable {source : String} {r : Region} {body : List Char}

theorem Region.exists_line (h : r.range.Covers source.toList body) {k : Nat} {l : List Char}
    (hl : (Text.lines body)[k]? = some l) :
    ∃ before cut shown after, r.Line source k before cut shown after ∧ l = cut ++ shown ∧
      bytes before = r.range.span.start + LineTable.bytesOfFirst k (Text.lines body) := by
  have hrender := Region.render_eq h
  obtain ⟨pre, post, hs, hr⟩ := h
  have hstart : r.range.start = (Cursor.after pre).position := congrArg Range.start hr
  have hstop : r.range.stop = (Cursor.after (pre ++ body)).position := congrArg Range.stop hr
  obtain ⟨a, b, hbody, hk, hlast, hb⟩ := Text.exists_of_getElem?_lines hl
  obtain ⟨f, ls, hlines⟩ := List.exists_cons_of_ne_nil (Text.lines_ne_nil body)
  obtain ⟨n, hn, hzero, hshown, hstripped⟩ :=
    Rendering.exists_cut r.range.start r.dedent (hlines ▸ hl)
  have hline : '\n' ∉ l.take n := fun hm =>
    Text.not_mem_of_mem_lines (List.mem_of_getElem? hl) (List.mem_of_mem_take hm)
  -- The line begins at a line of the source unless it is the first.
  have hcolumn : (Cursor.after (pre ++ a)).position
      = ⟨r.range.start.line + k, if k = 0 then r.range.start.column else 0⟩ := by
    rw [← Cursor.advance_after, hstart]
    rcases hlast with rfl | hlast
    · obtain rfl : 0 = k := hk
      rfl
    · have hne : k ≠ 0 := by
        rw [← hk]
        exact Nat.ne_of_gt (List.count_pos_iff.2 (List.mem_of_getLast? hlast))
      rw [Cursor.position_advance_of_getLast? _ hlast, hk, if_neg hne]
  have hcut : (Cursor.after (pre ++ a ++ l.take n)).position
      = ⟨r.range.start.line + k, (if k = 0 then r.range.start.column else 0) + n⟩ := by
    rw [← Cursor.advance_after, Cursor.position_advance_of_not_mem _ hline, hcolumn,
      Rendering.bytes_take_of_le_indentation hn]
  refine ⟨pre ++ a, l.take n, l.drop n, b ++ post, ⟨?_, ?_, ?_, ?_, ?_, ?_, ?_, ?_, ?_, ?_⟩,
    (List.take_append_drop n l).symm, ?_⟩
  · rw [hs, hbody, ← List.append_assoc (l.take n), List.take_append_drop]
    simp
  · rw [List.take_append_drop]
    exact Text.not_mem_of_mem_lines (List.mem_of_getElem? hl)
  · rw [hrender, hlines, Rendering.lines_text hlines, hshown]
  · intro h
    rw [hzero h, List.take_zero]
  · rw [List.take_append_drop, Rendering.bytes_take_of_le_indentation hn]
    exact hn
  · intro hne
    rw [hcolumn]
    exact if_neg hne
  · rw [hrender, hlines, Rendering.ofLines_cons, hcut]
    exact hstripped
  · rw [hcut]
  · rw [hstart, List.append_assoc, ← Cursor.advance_after]
    exact Cursor.position_le_advance _ _
  · rw [List.take_append_drop, hstop, hbody,
      show pre ++ (a ++ (l ++ b)) = pre ++ a ++ l ++ b by simp, ← Cursor.advance_after _ b]
    exact Cursor.position_le_advance _ _
  · rw [Text.bytes_append, hb, hr, Cursor.rangeTo, Cursor.offset_after]

/-- The lines of a rendering are as many as those of its body. -/
theorem Region.length_lines_render (h : r.range.Covers source.toList body) :
    (Text.lines (r.render source).text.toList).length = (Text.lines body).length ∧
      (r.render source).mapping.lineCount = (Text.lines body).length := by
  obtain ⟨l, ls, hl⟩ := List.exists_cons_of_ne_nil (Text.lines_ne_nil body)
  rw [Region.render_eq h, hl, Rendering.lines_text hl, Rendering.ofLines_cons]
  simp [Rendering.shown, Mapping.lineCount]

theorem Region.start_mapping (source : String) (r : Region) :
    (r.render source).mapping.start = r.range.start := by
  unfold Region.render
  dsimp only
  cases hl : Text.lines ((Text.slice source.toList r.range.span.start r.range.span.stop).getD []) with
  | nil => exact absurd hl (Text.lines_ne_nil _)
  | cons l ls => rfl

namespace Region.Line

variable {k c : Nat} {before cut shown after : List Char}
  (L : r.Line source k before cut shown after)

include L

theorem toHost_eq (c : Nat) : (r.render source).mapping.toHost ⟨k, c⟩
    = some ⟨r.range.start.line + k, (Cursor.after (before ++ cut)).position.column + c⟩ := by
  rw [Mapping.toHost, L.stripped_eq, Option.map_some, Region.start_mapping, Nat.add_comm c]

theorem toEmbedded_eq (c : Nat) : (r.render source).mapping.toEmbedded
    ⟨r.range.start.line + k, (Cursor.after (before ++ cut)).position.column + c⟩ = some ⟨k, c⟩ := by
  rw [Mapping.toEmbedded, Region.start_mapping, if_pos (Nat.le_add_right _ _), Nat.add_sub_cancel_left,
    L.stripped_eq, Option.map_some, Nat.add_sub_cancel_left]

theorem not_mem_shown : '\n' ∉ shown := fun h =>
  L.not_mem (List.mem_append_right cut h)

/-- Every place of a shown line is inside the region. -/
theorem touches_eq (hc : c ≤ bytes shown) : r.range.touches
    ⟨r.range.start.line + k, (Cursor.after (before ++ cut)).position.column + c⟩ = true := by
  have hstart := L.start_le
  have hstop := L.le_stop
  rw [← List.append_assoc, ← Cursor.advance_after,
    Cursor.position_advance_of_not_mem _ L.not_mem_shown] at hstop
  rw [← L.line_eq, Range.touches, Bool.and_eq_true, decide_eq_true_eq, decide_eq_true_eq]
  exact ⟨Position.le_trans hstart (Position.le_of_column_le (Nat.le_add_right _ _)),
    Position.le_trans (Position.le_of_column_le (Nat.add_le_add_left hc _)) hstop⟩

/-- The position in the source of column `c` of a shown line has the offset `c` bytes after what
stands before the shown text. -/
theorem offset_eq (hc : c ≤ bytes shown) : (LineTable.ofText source.toList).offset
    ⟨r.range.start.line + k, (Cursor.after (before ++ cut)).position.column + c⟩
      = bytes (before ++ cut) + c := by
  have h := (LineTable.position_after_add L.not_mem_shown (before ++ cut) after hc).2
  rwa [L.line_eq, List.append_assoc, ← L.source_eq] at h

/-- Column `c` of a shown line has the byte in the rendered text that its position in the source has
there. -/
theorem exists_byte (hc : c < bytes shown) :
    ∃ b, Text.byteAt? (r.render source).text.toList ⟨k, c⟩ = some b ∧
      Text.byteAt? source.toList
        ⟨r.range.start.line + k, (Cursor.after (before ++ cut)).position.column + c⟩ = some b := by
  have h := Text.byteAt?_after L.not_mem_shown (before ++ cut) after hc
  rw [L.line_eq, List.append_assoc, ← L.source_eq] at h
  have hb : c < (Text.utf8 shown).length := by rwa [Text.length_utf8]
  rw [h, Text.byteAt?_line L.shown_eq hc, List.getElem?_eq_getElem hb]
  exact ⟨_, rfl, rfl⟩

/-- A byte after the indentation that a line loses is shown, and so is the line feed of a line that
has one. -/
theorem shows (hc : c ≤ bytes shown)
    (hlast : c = bytes shown → k + 1 < (Text.lines (r.render source).text.toList).length) :
    r.Shows source (bytes (before ++ cut) + c) := by
  have hle := LineTable.bytesOfFirst_add_le L.shown_eq
  rw [LineTable.joinedBytes_lines] at hle
  refine ⟨(LineTable.ofText (r.render source).text.toList).lineStart k + c, ?_, _, ?_, L.offset_eq hc⟩
  · rw [LineTable.lineStart_ofText]
    omega
  · rw [LineTable.position_lineStart L.shown_eq hc, L.toHost_eq]

/-- A byte of the indentation that a line loses stands in the indentation of a line of the source. -/
theorem exists_indentation (hk : k ≠ 0) (hc : c < bytes cut) :
    ∃ l, (LineTable.ofText source.toList).position (bytes before + c)
        = ⟨r.range.start.line + k, c⟩ ∧
      (Text.lines source.toList)[r.range.start.line + k]? = some l ∧
      c < Rendering.indentation l := by
  have hline : (Cursor.after before).position.line = r.range.start.line + k := by
    have hcut : '\n' ∉ cut := fun h => L.not_mem (List.mem_append_left shown h)
    rw [← L.line_eq, ← Cursor.advance_after, Cursor.position_advance_of_not_mem _ hcut]
  have hle : c ≤ bytes (cut ++ shown) := by
    rw [Text.bytes_append]
    omega
  have hpos := (LineTable.position_after_add L.not_mem before after hle).1
  obtain ⟨u, v, hu, hl, -⟩ := LineTable.exists_line_after L.not_mem before after
  rw [List.append_assoc cut, ← L.source_eq, hline] at hpos hl
  rw [L.column_eq hk, Nat.zero_add] at hpos
  rw [L.column_eq hk] at hu
  obtain rfl : u = [] := Text.bytes_eq_zero.1 hu
  refine ⟨cut ++ shown ++ v, hpos, hl, ?_⟩
  have := L.cut_le_indentation
  have := Rendering.indentation_le_append (cut ++ shown) v
  omega

end Region.Line

theorem Region.faithful_of_covers (h : r.range.Covers source.toList body) : r.Faithful source := by
  obtain ⟨hlen, hcount⟩ := Region.length_lines_render h
  refine ⟨?_, ?_, ?_, ?_⟩
  · rw [hcount, ← hlen, Text.length_lines]
  · obtain ⟨l, ls, hl⟩ := List.exists_cons_of_ne_nil (Text.lines_ne_nil body)
    obtain ⟨pre, post, -, hr⟩ := h
    have hstop := Cursor.position_advance (.after pre) hl
    rw [Cursor.advance_after] at hstop
    rw [hcount, hl, hr, Cursor.rangeTo, hstop]
    split
    · rename_i hnone
      rw [List.getLast?_eq_none_iff.1 hnone]
      rfl
    · rfl
  · intro i shown hshown c hc
    have hi := (List.getElem?_eq_some_iff.1 hshown).1
    rw [hlen] at hi
    obtain ⟨before, cut, m, after, L, -, -⟩ := Region.exists_line h (List.getElem?_eq_getElem hi)
    obtain rfl : m = shown := Option.some.inj (L.shown_eq.symm.trans hshown)
    exact ⟨_, L.toHost_eq c, L.touches_eq hc, L.toEmbedded_eq c, L.exists_byte⟩
  · intro o hstart hstop hns
    have hspan : r.range.span.stop = r.range.span.start + bytes body := by
      obtain ⟨pre, post, -, hr⟩ := h
      rw [hr, Cursor.rangeTo, Cursor.offset_after, Cursor.offset_after, Text.bytes_append]
    obtain ⟨k, l, c, -, hl, hc, ho⟩ := LineTable.exists_of_position
      (show o - r.range.span.start ≤ bytes body by omega)
    obtain ⟨before, cut, shown, after, L, rfl, hbefore⟩ := Region.exists_line h hl
    rw [LineTable.lineStart_ofText] at ho
    have hplace : o = bytes before + c := by omega
    rw [Text.bytes_append] at hc
    by_cases hcut : c < bytes cut
    · have hnil : ¬ (k = 0 ∨ r.dedent = false) := fun hk => by
        rw [L.cut_eq_nil hk] at hcut
        exact Nat.not_lt_zero c hcut
      rw [not_or, Bool.not_eq_false] at hnil
      obtain ⟨l, hpos, hline, hind⟩ := L.exists_indentation hnil.1 hcut
      exact ⟨hnil.2, _, l, c, hplace ▸ hpos, by omega, hline, hind⟩
    · have hle := LineTable.bytesOfFirst_add_le hl
      rw [LineTable.joinedBytes_lines, Text.bytes_append] at hle
      have hk := (List.getElem?_eq_some_iff.1 hl).1
      refine absurd (L.shows (c := c - bytes cut) (by omega) fun he => ?_) ?_
      · rw [hlen]
        omega
      · rwa [Text.bytes_append, show bytes before + bytes cut + (c - bytes cut) = o by omega]

end Lines

/-- The rendering of a region that is a part of the source is faithful, and so is the rendering of
every region of a recipe. -/
theorem Region.render_faithful (source : String) :
    (∀ (r : Region) (s e : Nat), s ≤ e → Text.isBoundary source.toList s = true →
      Text.isBoundary source.toList e = true →
      r.range = (LineTable.ofText source.toList).range ⟨s, e⟩ → r.Faithful source) ∧
    ∀ (limit : Nat) (t : Tree), parse limit source = .ok t → ∀ r ∈ t.regions, r.Faithful source := by
  refine ⟨fun r s e hle hs he hr => ?_, fun limit t ht r hr => ?_⟩
  · obtain ⟨body, hbody⟩ := Range.covers_range hle hs he
    exact Region.faithful_of_covers (hr ▸ hbody)
  · obtain ⟨body, hbody, -⟩ := placed_of_mem_regions ht hr
    exact Region.faithful_of_covers hbody

/-- Code that begins in the middle of a line, and whose lines lose one tab. -/
def indentedCode : String :=
  "é = ä:\n\tif ü:\r\n\n\t\tb\n"

theorem Region.render_faithful_indentedCode :
    (5 ≤ 22 ∧ Text.isBoundary indentedCode.toList 5 = true ∧
      Text.isBoundary indentedCode.toList 22 = true) ∧
    (Region.mk .python ((LineTable.ofText indentedCode.toList).range ⟨5, 22⟩) 0 true).Faithful
      indentedCode :=
  ⟨by decide, (Region.render_faithful indentedCode).1 _ 5 22 (by decide) (by decide) (by decide) rfl⟩

end Recipe
