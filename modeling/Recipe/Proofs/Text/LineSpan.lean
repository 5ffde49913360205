import Recipe.Proofs.Text.Offset

/-!
# Spans of lines

The lines of a text tile it: each has its span, no line feed stands in it, and exactly one stands between
a line and the next (`LineTable.slice_lineSpan`, `LineTable.slice_between`). So the offsets of a text and
the columns of its lines, line ends included, are the same places in the same order
(`LineTable.placesCorrespond`), and what lies past a line or past the text counts as its end.
-/

namespace Recipe

open Text (bytes)

namespace LineTable

/-- The position is a place of the text: a column of one of its lines, or the end of one. -/
def HasPlace (t : LineTable) (p : Position) : Prop :=
  ∃ s, t.lineSpan p.line = some s ∧ p.column ≤ s.stop - s.start

/-- How the offsets, the positions and the lines of a text belong together. -/
structure PlacesCorrespond (source : List Char) (t : LineTable) : Prop where
  position_lt : ∀ {a b : Nat}, a < b → b ≤ bytes source → t.position a < t.position b
  offset_position : ∀ {o : Nat}, o ≤ bytes source → t.offset (t.position o) = o
  position_past : ∀ {o : Nat}, bytes source ≤ o → t.position o = t.position (bytes source)
  position_offset_iff : ∀ {p : Position}, t.position (t.offset p) = p ↔ t.HasPlace p
  offset_lt : ∀ {p q : Position}, t.HasPlace p → t.HasPlace q → p < q → t.offset p < t.offset q
  offset_past_line : ∀ {p : Position} {s : Span}, t.lineSpan p.line = some s →
    s.stop - s.start < p.column → t.offset p = s.stop
  offset_past_text : ∀ {p : Position}, t.lineCount ≤ p.line → t.offset p = bytes source
  lineSpan_isSome_iff : ∀ {n : Nat}, (t.lineSpan n).isSome = true ↔ n < t.lineCount
  first_line : ∃ s, t.lineSpan 0 = some s ∧ s.start = 0
  last_line : ∃ s, t.lineSpan (t.lineCount - 1) = some s ∧ s.stop = bytes source
  line_text : ∀ {n : Nat} {s : Span}, t.lineSpan n = some s →
    ∃ l, Text.slice source s.start s.stop = some l ∧ '\n' ∉ l
  /-- Between a line and the next one stands one line feed. -/
  next_line : ∀ {n : Nat} {r s : Span}, t.lineSpan n = some r → t.lineSpan (n + 1) = some s →
    s.start = r.stop + 1 ∧ Text.slice source r.stop s.start = some ['\n']

variable {source l : List Char} {n : Nat}

/-! ## Lines in a text -/

theorem lineSpan_eq_some_iff {s : Span} : (ofText source).lineSpan n = some s ↔
    ∃ l, (Text.lines source)[n]? = some l ∧
      s = ⟨(ofText source).lineStart n, (ofText source).lineStart n + bytes l⟩ := by
  rw [lineSpan, ofText, Option.map_eq_some_iff]
  simp only [eq_comm]

theorem lineSpan_of_line (hl : (Text.lines source)[n]? = some l) : (ofText source).lineSpan n
    = some ⟨(ofText source).lineStart n, (ofText source).lineStart n + bytes l⟩ :=
  lineSpan_eq_some_iff.2 ⟨l, hl, rfl⟩

theorem exists_line (h : n < (ofText source).lineCount) : ∃ l, (Text.lines source)[n]? = some l :=
  ⟨_, List.getElem?_eq_getElem h⟩

theorem lineCount_pos (source : List Char) : 0 < (ofText source).lineCount :=
  List.length_pos_iff.2 (Text.lines_ne_nil source)

theorem hasPlace_iff {p : Position} : (ofText source).HasPlace p ↔
    ∃ l, (Text.lines source)[p.line]? = some l ∧ p.column ≤ bytes l := by
  constructor
  · rintro ⟨s, hs, hc⟩
    obtain ⟨l, hl, rfl⟩ := lineSpan_eq_some_iff.1 hs
    exact ⟨l, hl, by simpa using hc⟩
  · rintro ⟨l, hl, hc⟩
    exact ⟨_, lineSpan_of_line hl, by simpa using hc⟩

/-- The text in the span of a line is the line. -/
theorem slice_lineSpan (hl : (Text.lines source)[n]? = some l) :
    Text.slice source ((ofText source).lineStart n) ((ofText source).lineStart n + bytes l) = some l := by
  obtain ⟨a, b, hsource, -, -, ha⟩ := Text.exists_of_getElem?_lines hl
  have hslice := Text.slice_append a l b
  rwa [← hsource, ha] at hslice

/-- The text between the spans of two lines is a line feed. -/
theorem slice_between {m : List Char} (hl : (Text.lines source)[n]? = some l)
    (hm : (Text.lines source)[n + 1]? = some m) :
    Text.slice source ((ofText source).lineStart n + bytes l) ((ofText source).lineStart (n + 1))
      = some ['\n'] := by
  obtain ⟨a, b, hsource, hcount, hlast, ha⟩ := Text.exists_of_getElem?_lines hm
  -- What stands before the next line has a line feed, and so it ends with one.
  have hne : a ≠ [] := by
    rintro rfl
    simp at hcount
  obtain ⟨pre, rfl⟩ := List.getLast?_eq_some_iff.1 (hlast.resolve_left hne)
  have hstart : bytes (pre ++ ['\n']) = bytes pre + 1 := Text.bytes_append pre ['\n']
  have hnext := bytesOfFirst_succ hl
  have hpre : (ofText source).lineStart n + bytes l = bytes pre := by
    rw [lineStart_ofText]
    omega
  have hslice := Text.slice_append pre ['\n'] (m ++ b)
  rw [← List.append_assoc, ← hsource] at hslice
  rw [hpre, lineStart_ofText, ← ha, hstart]
  exact hslice

/-! ## Places past a line or past the text -/

theorem positionFrom_of_le (n : Nat) {ls : List (List Char)} {o : Nat} (h : joinedBytes ls ≤ o) :
    positionFrom n ls o = positionFrom n ls (joinedBytes ls) := by
  induction ls generalizing n o with
  | nil => rfl
  | cons l ls ih =>
    cases ls with
    | nil =>
      have hl : bytes l ≤ o := h
      rw [positionFrom, positionFrom, joinedBytes, Nat.min_eq_right hl, Nat.min_self]
    | cons m ls =>
      rw [joinedBytes_cons (by simp)] at h ⊢
      rw [positionFrom, positionFrom, if_neg (by omega), if_neg (by omega), ih (n + 1) (by omega),
        Nat.add_sub_cancel_left]

theorem position_of_le {o : Nat} (h : bytes source ≤ o) :
    (ofText source).position o = (ofText source).position (bytes source) := by
  rw [← joinedBytes_lines] at h ⊢
  exact positionFrom_of_le 0 h

theorem offset_of_lineCount_le {p : Position} (h : (ofText source).lineCount ≤ p.line) :
    (ofText source).offset p = bytes source := by
  have hnone : (Text.lines source)[p.line]? = none := List.getElem?_eq_none h
  simp only [offset, lineSpan, ofText, hnone, Option.map_none, size, joinedBytes_lines]

theorem offset_of_lt_column {p : Position} (hl : (Text.lines source)[p.line]? = some l)
    (h : bytes l < p.column) :
    (ofText source).offset p = (ofText source).lineStart p.line + bytes l := by
  rw [offset, lineSpan_of_line hl]
  exact Nat.min_eq_right (by simp only; omega)

theorem offset_le_bytes (source : List Char) (p : Position) : (ofText source).offset p ≤ bytes source := by
  rcases Nat.lt_or_ge p.line (ofText source).lineCount with hlt | hle
  · obtain ⟨l, hl⟩ := exists_line hlt
    have hstop := (bytesOfFirst_add_le hl).1
    rw [joinedBytes_lines, ← lineStart_ofText] at hstop
    rw [offset, lineSpan_of_line hl]
    exact Nat.le_trans (Nat.min_le_right _ _) hstop
  · exact Nat.le_of_eq (offset_of_lineCount_le hle)

/-! ## Offsets and positions -/

/-- The positions that come back are the places of the text. -/
theorem position_offset_iff {p : Position} :
    (ofText source).position ((ofText source).offset p) = p ↔ (ofText source).HasPlace p := by
  rw [hasPlace_iff]
  constructor
  · intro h
    obtain ⟨k, l, c, hp, hl, hc, -⟩ := exists_of_position (offset_le_bytes source p)
    obtain rfl : p = ⟨k, c⟩ := h.symm.trans hp
    exact ⟨l, hl, hc⟩
  · rintro ⟨l, hl, hc⟩
    rw [offset_lineStart hl hc]
    exact position_lineStart hl hc

/-- Later places have later offsets. -/
theorem offset_lt {p q : Position} (hp : (ofText source).HasPlace p) (hq : (ofText source).HasPlace q)
    (h : p < q) : (ofText source).offset p < (ofText source).offset q := by
  rw [← Nat.not_le]
  intro hle
  have hback := position_le hle (offset_le_bytes source p)
  rw [position_offset_iff.2 hp, position_offset_iff.2 hq] at hback
  exact Position.not_le_of_lt h hback

/-- The offsets of a text and the columns of its lines are the same places in the same order, and the
lines tile the text with one line feed between each and the next. -/
theorem placesCorrespond (source : List Char) : (ofText source).PlacesCorrespond source where
  position_lt := position_lt
  offset_position := offset_position
  position_past := position_of_le
  position_offset_iff := position_offset_iff
  offset_lt := offset_lt
  offset_past_line {p s} hs hc := by
    obtain ⟨l, hl, rfl⟩ := lineSpan_eq_some_iff.1 hs
    exact offset_of_lt_column hl (by simpa using hc)
  offset_past_text := offset_of_lineCount_le
  lineSpan_isSome_iff {n} := by
    simp [lineSpan, lineCount]
  first_line := by
    obtain ⟨l, hl⟩ := exists_line (lineCount_pos source)
    exact ⟨_, lineSpan_of_line hl, rfl⟩
  last_line := by
    have hpos := lineCount_pos source
    obtain ⟨l, hl⟩ := exists_line (Nat.sub_lt hpos Nat.one_pos)
    refine ⟨_, lineSpan_of_line hl, ?_⟩
    have hstop := (bytesOfFirst_add_le hl).2.2 (Nat.sub_add_cancel hpos)
    rwa [joinedBytes_lines] at hstop
  line_text {n s} hs := by
    obtain ⟨l, hl, rfl⟩ := lineSpan_eq_some_iff.1 hs
    exact ⟨l, slice_lineSpan hl, Text.not_mem_of_mem_lines (List.mem_of_getElem? hl)⟩
  next_line {n r s} hr hs := by
    obtain ⟨l, hl, rfl⟩ := lineSpan_eq_some_iff.1 hr
    obtain ⟨m, hm, rfl⟩ := lineSpan_eq_some_iff.1 hs
    exact ⟨bytesOfFirst_succ hl, slice_between hl hm⟩

end LineTable

end Recipe
