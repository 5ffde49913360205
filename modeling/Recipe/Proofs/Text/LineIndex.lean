import Mathlib.Data.UInt
import Recipe.Proofs.Text.LineSpan
import Recipe.Text.LineIndex

/-!
# Line indexes and line tables

A line index has the beginnings of the lines of its text (`LineIndex.Indexes`), so a binary search
in it finds the line of an offset (`partitionFrom_eq`). It answers what the line table answers
(`lineSpan_spec`, `position_spec`, `range_spec`), with one exception: the beginning of a line and a column
are added before the sum is cut to the line, and if no word holds the sum there is no offset, or one
before the line (`offset_spec`, `offset_stops`, `offset_wraps`).
-/

namespace Recipe

open Text (bytes)

/-! ## Words -/

namespace Overflow

theorem add_of_lt (m : Overflow) {a b : UInt64} (h : a.toNat + b.toNat < UInt64.size) :
    m.add a b = .ok (a + b) :=
  if_pos (.inl h)

theorem add_wraps (a b : UInt64) : wraps.add a b = .ok (a + b) :=
  if_pos (.inr rfl)

theorem sub_of_le (m : Overflow) {a b : UInt64} (h : b ≤ a) : m.sub a b = .ok (a - b) :=
  if_pos (.inl h)

end Overflow

theorem toNat_add_of_lt {a b : UInt64} (h : a.toNat + b.toNat < UInt64.size) :
    (a + b).toNat = a.toNat + b.toNat := by
  rw [UInt64.toNat_add]
  exact Nat.mod_eq_of_lt h

/-- A sum that wraps around is less than either summand. -/
theorem toNat_add_of_le {a b : UInt64} (h : UInt64.size ≤ a.toNat + b.toNat) :
    (a + b).toNat + UInt64.size = a.toNat + b.toNat := by
  have ha := a.toNat_lt_size
  have hb := b.toNat_lt_size
  have hsize : UInt64.size = 2 ^ 64 := rfl
  rw [UInt64.toNat_add]
  omega

/-- The number of bytes that no text has. -/
def Text.sizeLimit : Nat :=
  UInt64.size / 2

theorem Point.toPosition_injective {p q : Point} (h : p.toPosition = q.toPosition) : p = q := by
  obtain ⟨hl, hc⟩ := Position.mk.inj h
  obtain ⟨line, column⟩ := p
  obtain ⟨line', column'⟩ := q
  rw [UInt64.toNat_inj] at hl hc
  exact congrArg₂ Point.mk hl hc

/-! ## Binary search -/

/-- Halving finds the index before which a condition holds, and from which on it does not. -/
theorem partitionFrom_eq {p : UInt64 → Bool} {xs : Array UInt64} {k lo hi : Nat}
    (hp : ∀ i x, xs[i]? = some x → (p x = true ↔ i < k)) (hlo : lo ≤ k) (hk : k ≤ hi)
    (hhi : hi ≤ xs.size) : partitionFrom p xs lo hi = k := by
  fun_induction partitionFrom p xs lo hi with
  | case1 lo hi hlt mid hmid ih =>
    have hm : mid = (lo + hi) / 2 := rfl
    have hx : xs[mid]? = some xs[mid] := Array.getElem?_eq_getElem (by omega)
    rw [hx, Option.any_some, hp mid _ hx] at hmid
    exact ih (by omega) hk hhi
  | case2 lo hi hlt mid hmid ih =>
    have hm : mid = (lo + hi) / 2 := rfl
    have hx : xs[mid]? = some xs[mid] := Array.getElem?_eq_getElem (by omega)
    rw [hx, Option.any_some, hp mid _ hx] at hmid
    exact ih hlo (by omega) (by omega)
  | case3 lo hi hge => omega

/-! ## The beginnings of lines -/

namespace Text

/-- The first line begins with its text, and the others after the line feeds. -/
theorem getElem?_starts (o : Nat) (cs : List Char) (k : Nat) :
    (o :: (lineFeedsFrom o cs).map (· + 1))[k]?
      = if k < (lines cs).length then some (o + LineTable.bytesOfFirst k (lines cs)) else none := by
  induction cs generalizing o k with
  | nil => cases k <;> simp [lineFeedsFrom, lines, LineTable.bytesOfFirst]
  | cons c cs ih =>
    obtain ⟨m, ms, hm⟩ := List.exists_cons_of_ne_nil (lines_ne_nil cs)
    rw [lines_cons hm, lineFeedsFrom]
    rw [hm] at ih
    split
    · cases k with
      | zero => rfl
      | succ k =>
        rw [List.map_cons, List.getElem?_cons_succ, ih (o + 1) k]
        simp only [LineTable.bytesOfFirst, bytes_nil, List.length_cons]
        grind
    · cases k with
      | zero => rfl
      | succ k =>
        have h := ih (o + c.utf8Size) (k + 1)
        rw [List.getElem?_cons_succ] at h ⊢
        rw [h]
        simp only [LineTable.bytesOfFirst, bytes_cons, List.length_cons]
        grind

theorem lt_of_mem_lineFeedsFrom {o i : Nat} {cs : List Char} (h : i ∈ lineFeedsFrom o cs) :
    i < o + bytes cs := by
  induction cs generalizing o with
  | nil => cases h
  | cons c cs ih =>
    rw [bytes_cons]
    rw [lineFeedsFrom] at h
    split at h
    · rename_i hc
      have hsize : c.utf8Size = 1 := by rw [hc]; rfl
      rcases List.mem_cons.1 h with rfl | h
      · omega
      · have := ih h
        omega
    · have := ih h
      omega

end Text

namespace LineTable

theorem bytesOfFirst_le {j k : Nat} (h : j ≤ k) (ls : List (List Char)) :
    bytesOfFirst j ls ≤ bytesOfFirst k ls := by
  induction ls generalizing j k with
  | nil => cases j <;> cases k <;> simp [bytesOfFirst]
  | cons l ls ih =>
    cases j with
    | zero => exact Nat.zero_le _
    | succ j =>
      cases k with
      | zero => omega
      | succ k =>
        have := ih (j := j) (k := k) (by omega)
        simp only [bytesOfFirst]
        omega

/-- A text has one line more than line feeds, and so at most one more than bytes. -/
theorem lineCount_le (cs : List Char) : (ofText cs).lineCount ≤ bytes cs + 1 := by
  have hcount : cs.count '\n' ≤ bytes cs := by
    induction cs with
    | nil => exact Nat.le_refl _
    | cons c cs ih =>
      have hpos := c.utf8Size_pos
      rw [List.count_cons, Text.bytes_cons]
      split <;> omega
  rw [lineCount, ofText, Text.length_lines]
  omega

end LineTable

namespace LineIndex

@[simp] theorem ok_bind {α β : Type} (a : α) (f : α → Except Stop β) :
    (.ok a >>= f : Except Stop β) = f a := rfl

theorem mapM_ok {α β : Type} {f : α → Except Stop β} {g : α → β} {l : List α}
    (h : ∀ a ∈ l, f a = .ok (g a)) : l.mapM f = .ok (l.map g) := by
  induction l with
  | nil => rfl
  | cons a l ih =>
    rw [List.mapM_cons, h a List.mem_cons_self, ih fun b hb => h b (List.mem_cons_of_mem a hb)]
    rfl

/-- The index has the bytes of a text, and the offsets at which its lines begin. -/
structure Indexes (x : LineIndex) (source : List Char) : Prop where
  bytes_lt : bytes source < Text.sizeLimit
  len : x.len.toNat = bytes source
  lineStarts : ∀ k, (x.lineStarts[k]?).map UInt64.toNat
    = if k < (LineTable.ofText source).lineCount then some ((LineTable.ofText source).lineStart k) else none

variable {source : List Char}

theorem ofText_spec (m : Overflow) (h : bytes source < Text.sizeLimit) :
    ∃ x, ofText m source = .ok x ∧ x.Indexes source := by
  have hsize : Text.sizeLimit = 9223372036854775808 := rfl
  have hword : UInt64.size = 18446744073709551616 := rfl
  have hadd : ∀ o ∈ Text.lineFeedsFrom 0 source, m.add (.ofNat o) 1 = .ok (.ofNat (o + 1)) := by
    intro o ho
    have hlt := Text.lt_of_mem_lineFeedsFrom ho
    have hnat : (UInt64.ofNat o).toNat = o := UInt64.toNat_ofNat_of_lt' (by omega)
    have hone : (1 : UInt64).toNat = 1 := rfl
    rw [m.add_of_lt (by omega)]
    exact congrArg _ (UInt64.ofNat_add o 1).symm
  have hnat : ∀ o ∈ 0 :: (Text.lineFeedsFrom 0 source).map (· + 1), (UInt64.ofNat o).toNat = o := by
    intro o ho
    refine UInt64.toNat_ofNat_of_lt' ?_
    rcases List.mem_cons.1 ho with rfl | ho
    · omega
    · obtain ⟨i, hi, rfl⟩ := List.mem_map.1 ho
      have := Text.lt_of_mem_lineFeedsFrom hi
      omega
  have hstarts : 0 :: (Text.lineFeedsFrom 0 source).map (fun o => UInt64.ofNat (o + 1))
      = (0 :: (Text.lineFeedsFrom 0 source).map (· + 1)).map UInt64.ofNat := by
    rw [List.map_cons, List.map_map]
    rfl
  have hlen : (UInt64.ofNat (bytes source)).toNat = bytes source := UInt64.toNat_ofNat_of_lt' (by omega)
  refine ⟨_, by rw [ofText, mapM_ok hadd]; rfl, h, hlen, fun k => ?_⟩
  rw [hstarts, List.getElem?_toArray, ← List.getElem?_map, List.map_map]
  refine (congrArg (fun l : List Nat => l[k]?) (List.map_congr_left hnat)).trans ?_
  rw [List.map_id', Text.getElem?_starts, Nat.zero_add]
  rfl

/-! ## Lookups -/

variable {x : LineIndex}

section

variable (hx : x.Indexes source)

include hx

/-- A word holds the number of every line, and that of the next one. -/
theorem lineCount_lt : (LineTable.ofText source).lineCount + 1 < UInt64.size := by
  have hle := LineTable.lineCount_le source
  have hbytes : bytes source < 9223372036854775808 := hx.bytes_lt
  have hword : UInt64.size = 18446744073709551616 := rfl
  omega

/-- The entry of line `k` in the index is the offset at which the line begins. -/
theorem lineStart_of_lt {k : Nat} (hk : k < (LineTable.ofText source).lineCount) :
    ∃ start, x.lineStarts[k]? = some start ∧ start.toNat = (LineTable.ofText source).lineStart k := by
  have h := hx.lineStarts k
  rw [if_pos hk] at h
  exact Option.map_eq_some_iff.1 h

theorem lineStarts_eq_none {k : Nat} (hk : (LineTable.ofText source).lineCount ≤ k) :
    x.lineStarts[k]? = none := by
  have h := hx.lineStarts k
  rw [if_neg (Nat.not_lt.2 hk)] at h
  exact Option.map_eq_none_iff.1 h

theorem lineCount_eq : x.lineCount = (LineTable.ofText source).lineCount := by
  refine Nat.le_antisymm (Array.getElem?_eq_none_iff.1 (lineStarts_eq_none hx (Nat.le_refl _))) ?_
  rw [← Nat.not_lt]
  intro hlt
  obtain ⟨start, hs, -⟩ := lineStart_of_lt hx hlt
  exact absurd (Array.getElem?_eq_some_iff.1 hs).1 (Nat.lt_irrefl _)

theorem lineSpan_eq_none (m : Overflow) {n : UInt64} (hn : x.lineCount ≤ n.toNat) :
    x.lineSpan m n = .ok none := by
  rw [lineCount_eq hx] at hn
  rw [lineSpan, lineStarts_eq_none hx hn]
  rfl

/-- The span of a line is that of the line table. -/
theorem lineSpan_spec (m : Overflow) (n : UInt64) :
    ∃ r, x.lineSpan m n = .ok r ∧
      r.map (fun s => Span.mk s.1.toNat s.2.toNat) = (LineTable.ofText source).lineSpan n.toNat := by
  have hone : (1 : UInt64).toNat = 1 := rfl
  have hcount := lineCount_lt hx
  rcases Nat.lt_or_ge n.toNat (LineTable.ofText source).lineCount with hn | hn
  · obtain ⟨l, hl⟩ := LineTable.exists_line hn
    obtain ⟨start, hs, hstart⟩ := lineStart_of_lt hx hn
    have hnext : n.toNat + (1 : UInt64).toNat < UInt64.size := by omega
    rw [LineTable.lineSpan_of_line hl]
    simp only [lineSpan, hs, m.add_of_lt hnext, ok_bind, toNat_add_of_lt hnext, hone]
    rcases Nat.lt_or_ge (n.toNat + 1) (LineTable.ofText source).lineCount with hn' | hn'
    · -- The next line begins after the line feed of this one.
      obtain ⟨next, hs', hnext'⟩ := lineStart_of_lt hx hn'
      have hsucc : next.toNat = (LineTable.ofText source).lineStart n.toNat + bytes l + 1 :=
        hnext'.trans (LineTable.bytesOfFirst_succ hl)
      have hle : 1 ≤ next := UInt64.le_iff_toNat_le.2 (by omega)
      refine ⟨some (start, next - 1), by simp only [hs', m.sub_of_le hle]; rfl, ?_⟩
      rw [Option.map_some, UInt64.toNat_sub_of_le next 1 hle, hstart, hsucc]
      rfl
    · have hlast : (LineTable.ofText source).lineStart n.toNat + bytes l = bytes source := by
        have := (LineTable.bytesOfFirst_add_le hl).2.2 (Nat.le_antisymm hn hn')
        rwa [LineTable.joinedBytes_lines] at this
      refine ⟨some (start, x.len), by rw [lineStarts_eq_none hx hn']; rfl, ?_⟩
      rw [Option.map_some, hstart, hx.len, hlast]
  · refine ⟨none, lineSpan_eq_none hx m (lineCount_eq hx ▸ hn), ?_⟩
    rw [LineTable.lineSpan, List.getElem?_eq_none hn]
    rfl

/-- The position of an offset is that of the line table. -/
theorem position_spec (m : Overflow) (o : UInt64) :
    ∃ p, x.position m o = .ok p ∧ p.toPosition = (LineTable.ofText source).position o.toNat := by
  have hcount := lineCount_lt hx
  have hmin : (min o x.len).toNat = min o.toNat (bytes source) := by
    rw [← hx.len]
    exact UInt64.toNat_min o x.len
  have hclamp : (LineTable.ofText source).position o.toNat
      = (LineTable.ofText source).position (min o.toNat (bytes source)) := by
    rcases Nat.le_total o.toNat (bytes source) with hle | hle
    · rw [Nat.min_eq_left hle]
    · rw [Nat.min_eq_right hle, LineTable.position_of_le hle]
  obtain ⟨k, l, c, hp, hl, hc, ho⟩ := LineTable.exists_of_position (Nat.min_le_right o.toNat (bytes source))
  rw [← hmin] at ho
  have hk : k < (LineTable.ofText source).lineCount := (List.getElem?_eq_some_iff.1 hl).1
  obtain ⟨start, hs, hstart⟩ := lineStart_of_lt hx hk
  -- The lines up to the one of the offset begin before it, and the next one after it.
  have hsearch : partitionFrom (· ≤ min o x.len) x.lineStarts 0 x.lineStarts.size = k + 1 := by
    refine partitionFrom_eq (fun i s hi => ?_) (Nat.zero_le _) ?_ (Nat.le_refl _)
    · have hlt : i < (LineTable.ofText source).lineCount :=
        lineCount_eq hx ▸ (Array.getElem?_eq_some_iff.1 hi).1
      obtain ⟨s', hs', hstart'⟩ := lineStart_of_lt hx hlt
      obtain rfl : s = s' := Option.some.inj (hi.symm.trans hs')
      rw [decide_eq_true_eq, UInt64.le_iff_toNat_le, hstart']
      constructor
      · intro hle
        by_contra hge
        have hmono := LineTable.bytesOfFirst_le (Nat.not_lt.1 hge) (Text.lines source)
        have hsucc := LineTable.bytesOfFirst_succ hl
        rw [LineTable.lineStart_ofText] at hle ho
        omega
      · intro hle
        have hmono := LineTable.bytesOfFirst_le (Nat.le_of_lt_succ hle) (Text.lines source)
        rw [LineTable.lineStart_ofText] at ho ⊢
        omega
    · rw [← lineCount_eq hx] at hk
      exact hk
  have hle : start ≤ min o x.len := UInt64.le_iff_toNat_le.2 (by omega)
  refine ⟨⟨.ofNat k, min o x.len - start⟩, ?_, ?_⟩
  · simp only [position, hsearch, Nat.add_sub_cancel, hs, m.sub_of_le hle]
    rfl
  · rw [hclamp, hp, Point.toPosition, UInt64.toNat_sub_of_le _ _ hle, UInt64.toNat_ofNat_of_lt' (by omega),
      hstart, ← ho, Nat.add_sub_cancel_left]

/-- The range of a span is that of the line table. -/
theorem range_spec (m : Overflow) (start stop : UInt64) :
    x.range m start stop = .ok ((LineTable.ofText source).range ⟨start.toNat, stop.toNat⟩) := by
  obtain ⟨first, hfirst, hp⟩ := position_spec hx m start
  obtain ⟨last, hlast, hq⟩ := position_spec hx m stop
  rw [range, hfirst, hlast, LineTable.range, ← hp, ← hq]
  rfl

/-- A line of the index is a line of the table. -/
theorem lineSpan_eq_some {m : Overflow} {n start stop : UInt64}
    (h : x.lineSpan m n = .ok (some (start, stop))) :
    (LineTable.ofText source).lineSpan n.toNat = some ⟨start.toNat, stop.toNat⟩ := by
  obtain ⟨r, hr, hspan⟩ := lineSpan_spec hx m n
  obtain rfl : some (start, stop) = r := Except.ok.inj (h.symm.trans hr)
  exact hspan.symm

/-- A line of the table is a line of the index. -/
theorem exists_lineSpan (m : Overflow) {n : UInt64} {s : Span}
    (h : (LineTable.ofText source).lineSpan n.toNat = some s) :
    ∃ start stop, x.lineSpan m n = .ok (some (start, stop)) ∧ s = ⟨start.toNat, stop.toNat⟩ := by
  obtain ⟨r, hr, hspan⟩ := lineSpan_spec hx m n
  rw [h] at hspan
  obtain ⟨⟨start, stop⟩, rfl, rfl⟩ := Option.map_eq_some_iff.1 hspan
  exact ⟨start, stop, hr, rfl⟩

end

/-! ## Offsets of positions -/

theorem offset_of_lt {m : Overflow} {p : Point} {start stop : UInt64}
    (h : x.lineSpan m p.line = .ok (some (start, stop)))
    (hlt : start.toNat + p.column.toNat < UInt64.size) :
    x.offset m p = .ok (min (start + p.column) stop) := by
  rw [offset, h, ok_bind]
  simp only [m.add_of_lt hlt]
  rfl

theorem offset_stops {p : Point} {start stop : UInt64}
    (h : x.lineSpan .stops p.line = .ok (some (start, stop)))
    (hle : UInt64.size ≤ start.toNat + p.column.toNat) : x.offset .stops p = .error .overflow := by
  have hadd : Overflow.stops.add start p.column = .error .overflow := by
    refine if_neg ?_
    rintro (hlt | hw)
    · omega
    · cases hw
  rw [offset, h, ok_bind]
  simp only [hadd]
  rfl

/-- A sum that wraps around is an offset before the line. -/
theorem offset_wraps {p : Point} {start stop : UInt64}
    (h : x.lineSpan .wraps p.line = .ok (some (start, stop))) (hstop : start ≤ stop)
    (hle : UInt64.size ≤ start.toNat + p.column.toNat) : x.offset .wraps p = .ok (start + p.column) := by
  have hsum := toNat_add_of_le hle
  have hcolumn := p.column.toNat_lt_size
  have hmin : min (start + p.column) stop = start + p.column := by
    rw [UInt64.le_iff_toNat_le] at hstop
    rw [← UInt64.toNat_inj, UInt64.toNat_min]
    omega
  rw [offset, h, ok_bind]
  simp only [Overflow.add_wraps, ok_bind, hmin]
  rfl

section

variable (hx : x.Indexes source)

include hx

/-- If a word holds the offset of a column, it is that of the line table. -/
theorem offset_spec {m : Overflow} {p : Point}
    (h : ∀ start stop, x.lineSpan m p.line = .ok (some (start, stop)) →
      start.toNat + p.column.toNat < UInt64.size) :
    ∃ o, x.offset m p = .ok o ∧ o.toNat = (LineTable.ofText source).offset p.toPosition := by
  obtain ⟨r, hr, hspan⟩ := lineSpan_spec hx m p.line
  have hspan' : (LineTable.ofText source).lineSpan p.toPosition.line = _ := hspan.symm
  rw [LineTable.offset, hspan']
  cases r with
  | none =>
    refine ⟨x.len, by rw [offset, hr]; rfl, ?_⟩
    rw [hx.len]
    exact (LineTable.joinedBytes_lines source).symm
  | some s =>
    have hlt := h s.1 s.2 hr
    refine ⟨_, offset_of_lt hr hlt, ?_⟩
    exact (UInt64.toNat_min _ _).trans (by rw [toNat_add_of_lt hlt]; rfl)

end

/-! ## Places -/

/-- The position is a place of the text: a column of one of its lines, or the end of one. -/
def HasPlace (x : LineIndex) (m : Overflow) (p : Point) : Prop :=
  ∃ start stop, x.lineSpan m p.line = .ok (some (start, stop)) ∧
    p.column.toNat ≤ stop.toNat - start.toNat

/-- How the offsets, the positions and the lines of a text belong together. -/
structure PlacesCorrespond (x : LineIndex) (m : Overflow) (source : List Char) : Prop where
  len : x.len.toNat = bytes source
  position_lt : ∀ {a b : UInt64}, a < b → b ≤ x.len →
    ∃ p q, x.position m a = .ok p ∧ x.position m b = .ok q ∧ p.toPosition < q.toPosition
  offset_position : ∀ {o : UInt64}, o ≤ x.len → ∃ p, x.position m o = .ok p ∧ x.offset m p = .ok o
  position_past : ∀ {o : UInt64}, x.len ≤ o → x.position m o = x.position m x.len
  position_offset_iff : ∀ {p : Point},
    (∃ o, x.offset m p = .ok o ∧ x.position m o = .ok p) ↔ x.HasPlace m p
  offset_lt : ∀ {p q : Point}, x.HasPlace m p → x.HasPlace m q → p.toPosition < q.toPosition →
    ∃ a b, x.offset m p = .ok a ∧ x.offset m q = .ok b ∧ a < b
  /-- A column past its line counts as the end of the line, if a word holds its offset and only then. -/
  offset_past_line : ∀ {p : Point} {start stop : UInt64},
    x.lineSpan m p.line = .ok (some (start, stop)) → stop.toNat - start.toNat < p.column.toNat →
    (x.offset m p = .ok stop ↔ start.toNat + p.column.toNat < UInt64.size)
  /-- Else there is no offset, or one before the line. -/
  offset_overflow : ∀ {p : Point} {start stop : UInt64},
    x.lineSpan m p.line = .ok (some (start, stop)) → UInt64.size ≤ start.toNat + p.column.toNat →
    (m = .stops → x.offset m p = .error .overflow) ∧
    (m = .wraps → ∃ o, x.offset m p = .ok o ∧
      o.toNat + UInt64.size = start.toNat + p.column.toNat ∧ o < start)
  offset_past_text : ∀ {p : Point}, x.lineCount ≤ p.line.toNat → x.offset m p = .ok x.len
  lineSpan_of_lt : ∀ {n : UInt64}, n.toNat < x.lineCount →
    ∃ start stop, x.lineSpan m n = .ok (some (start, stop))
  lineSpan_of_le : ∀ {n : UInt64}, x.lineCount ≤ n.toNat → x.lineSpan m n = .ok none
  first_line : ∃ stop, x.lineSpan m 0 = .ok (some (0, stop))
  last_line : ∃ n start, n.toNat + 1 = x.lineCount ∧ x.lineSpan m n = .ok (some (start, x.len))
  line_text : ∀ {n start stop : UInt64}, x.lineSpan m n = .ok (some (start, stop)) →
    ∃ l, Text.slice source start.toNat stop.toNat = some l ∧ '\n' ∉ l
  /-- Between a line and the next one stands one line feed. -/
  next_line : ∀ {n start stop start' stop' : UInt64}, x.lineSpan m n = .ok (some (start, stop)) →
    x.lineSpan m (n + 1) = .ok (some (start', stop')) →
    start'.toNat = stop.toNat + 1 ∧ Text.slice source stop.toNat start'.toNat = some ['\n']

section

variable (hx : x.Indexes source) {m : Overflow}

include hx

theorem hasPlace_iff {p : Point} :
    x.HasPlace m p ↔ (LineTable.ofText source).HasPlace p.toPosition := by
  constructor
  · rintro ⟨start, stop, hs, hc⟩
    exact ⟨_, lineSpan_eq_some hx hs, hc⟩
  · rintro ⟨s, hs, hc⟩
    obtain ⟨start, stop, hs', rfl⟩ := exists_lineSpan hx m hs
    exact ⟨start, stop, hs', hc⟩

theorem start_le_stop {n start stop : UInt64} (h : x.lineSpan m n = .ok (some (start, stop))) :
    start.toNat ≤ stop.toNat := by
  obtain ⟨l, -, hs⟩ := LineTable.lineSpan_eq_some_iff.1 (lineSpan_eq_some hx h)
  obtain ⟨hstart, hstop⟩ := Span.mk.inj hs
  omega

/-- The offset of a place that the text has is computed without overflow, and is that of the line
table. -/
theorem offset_of_hasPlace {p : Point} (h : x.HasPlace m p) :
    ∃ o, x.offset m p = .ok o ∧ o.toNat = (LineTable.ofText source).offset p.toPosition := by
  obtain ⟨start, stop, hs, hc⟩ := h
  refine offset_spec hx fun start' stop' hs' => ?_
  obtain ⟨rfl, rfl⟩ := Prod.mk.inj (Option.some.inj (Except.ok.inj (hs.symm.trans hs')))
  have hle := start_le_stop hx hs
  have hlt := stop.toNat_lt_size
  omega

theorem hasPlace_of_position {o : UInt64} {p : Point} (h : x.position m o = .ok p) :
    x.HasPlace m p := by
  obtain ⟨q, hq, hp⟩ := position_spec hx m o
  obtain rfl : p = q := Except.ok.inj (h.symm.trans hq)
  rw [hasPlace_iff hx, ← LineTable.position_offset_iff, hp]
  rcases Nat.le_total o.toNat (bytes source) with hle | hle
  · rw [LineTable.offset_position hle]
  · rw [LineTable.position_of_le hle, LineTable.offset_position (Nat.le_refl _)]

/-- The position of a place's offset is the place. -/
theorem position_of_offset {p : Point} (h : x.HasPlace m p) :
    ∃ o, x.offset m p = .ok o ∧ x.position m o = .ok p := by
  obtain ⟨o, ho, hoffset⟩ := offset_of_hasPlace hx h
  obtain ⟨q, hq, hposition⟩ := position_spec hx m o
  rw [hoffset, LineTable.position_offset_iff.2 ((hasPlace_iff hx).1 h)] at hposition
  exact ⟨o, ho, hq.trans (congrArg _ (Point.toPosition_injective hposition))⟩

theorem offset_past_line {p : Point} {start stop : UInt64}
    (h : x.lineSpan m p.line = .ok (some (start, stop)))
    (hc : stop.toNat - start.toNat < p.column.toNat) :
    x.offset m p = .ok stop ↔ start.toNat + p.column.toNat < UInt64.size := by
  have hle := start_le_stop hx h
  constructor
  · intro hoffset
    by_contra hover
    cases m with
    | stops => cases (offset_stops h (Nat.not_lt.1 hover)).symm.trans hoffset
    | wraps =>
      have hwrap := offset_wraps h (UInt64.le_iff_toNat_le.2 hle) (Nat.not_lt.1 hover)
      have hsum := toNat_add_of_le (Nat.not_lt.1 hover)
      have hlt := p.column.toNat_lt_size
      have hstop : start + p.column = stop := Except.ok.inj (hwrap.symm.trans hoffset)
      rw [hstop] at hsum
      omega
  · intro hlt
    have hmin : min (start + p.column) stop = stop := by
      rw [← UInt64.toNat_inj, UInt64.toNat_min, toNat_add_of_lt hlt]
      omega
    rw [offset_of_lt h hlt, hmin]

end

/-- The offsets of a text and the columns of its lines are the same places in the same order, and the
lines tile the text with one line feed between each and the next. A column past its line counts as the
end of the line exactly if a word holds the sum of the column and the beginning of the line. -/
theorem places_correspond (m : Overflow) (source : List Char) (h : bytes source < Text.sizeLimit) :
    ∃ x, ofText m source = .ok x ∧ x.PlacesCorrespond m source := by
  obtain ⟨x, hofText, hx⟩ := ofText_spec m h
  have ht := LineTable.placesCorrespond source
  have hcount := lineCount_eq hx
  refine ⟨x, hofText, ?_⟩
  constructor
  case len => exact hx.len
  case position_lt =>
    intro a b hab hb
    obtain ⟨p, hp, hpa⟩ := position_spec hx m a
    obtain ⟨q, hq, hqb⟩ := position_spec hx m b
    rw [UInt64.le_iff_toNat_le, hx.len] at hb
    exact ⟨p, q, hp, hq, by rw [hpa, hqb]; exact ht.position_lt (UInt64.lt_iff_toNat_lt.1 hab) hb⟩
  case offset_position =>
    intro o ho
    obtain ⟨p, hp, hpo⟩ := position_spec hx m o
    obtain ⟨o', ho', hoffset⟩ := offset_of_hasPlace hx (hasPlace_of_position hx hp)
    rw [UInt64.le_iff_toNat_le, hx.len] at ho
    rw [hpo, ht.offset_position ho, UInt64.toNat_inj] at hoffset
    exact ⟨p, hp, hoffset ▸ ho'⟩
  case position_past =>
    intro o ho
    rw [UInt64.le_iff_toNat_le, hx.len] at ho
    obtain ⟨p, hp, hpo⟩ := position_spec hx m o
    obtain ⟨q, hq, hql⟩ := position_spec hx m x.len
    rw [ht.position_past ho, ← hx.len, ← hql] at hpo
    rw [hp, hq, Point.toPosition_injective hpo]
  case position_offset_iff =>
    intro p
    exact ⟨fun ⟨o, _, hp⟩ => hasPlace_of_position hx hp, position_of_offset hx⟩
  case offset_lt =>
    intro p q hp hq hpq
    obtain ⟨a, ha, hpa⟩ := offset_of_hasPlace hx hp
    obtain ⟨b, hb, hqb⟩ := offset_of_hasPlace hx hq
    refine ⟨a, b, ha, hb, UInt64.lt_iff_toNat_lt.2 ?_⟩
    rw [hpa, hqb]
    exact ht.offset_lt ((hasPlace_iff hx).1 hp) ((hasPlace_iff hx).1 hq) hpq
  case offset_past_line =>
    intro p start stop hs hc
    exact offset_past_line hx hs hc
  case offset_overflow =>
    intro p start stop hs hover
    have hsum := toNat_add_of_le hover
    have hcolumn := p.column.toNat_lt_size
    refine ⟨?_, ?_⟩
    · rintro rfl
      exact offset_stops hs hover
    · rintro rfl
      exact ⟨_, offset_wraps hs (UInt64.le_iff_toNat_le.2 (start_le_stop hx hs)) hover, hsum,
        UInt64.lt_iff_toNat_lt.2 (by omega)⟩
  case offset_past_text =>
    intro p hp
    rw [offset, lineSpan_eq_none hx m hp]
    rfl
  case lineSpan_of_lt =>
    intro n hn
    obtain ⟨s, hs⟩ := Option.isSome_iff_exists.1 (ht.lineSpan_isSome_iff.2 (hcount ▸ hn))
    obtain ⟨start, stop, hs', -⟩ := exists_lineSpan hx m hs
    exact ⟨start, stop, hs'⟩
  case lineSpan_of_le =>
    intro n hn
    exact lineSpan_eq_none hx m hn
  case first_line =>
    obtain ⟨s, hs, hzero⟩ := ht.first_line
    obtain ⟨start, stop, hs', rfl⟩ := exists_lineSpan hx m (n := 0) hs
    obtain rfl : start = 0 := UInt64.toNat_inj.1 hzero
    exact ⟨stop, hs'⟩
  case last_line =>
    have hpos := LineTable.lineCount_pos source
    have hlt := lineCount_lt hx
    have hn : (UInt64.ofNat (x.lineCount - 1)).toNat = (LineTable.ofText source).lineCount - 1 := by
      rw [hcount]
      exact UInt64.toNat_ofNat_of_lt' (by omega)
    obtain ⟨s, hs, hend⟩ := ht.last_line
    rw [← hn] at hs
    obtain ⟨start, stop, hs', rfl⟩ := exists_lineSpan hx m hs
    obtain rfl : stop = x.len := UInt64.toNat_inj.1 (hend.trans hx.len.symm)
    exact ⟨_, start, by omega, hs'⟩
  case line_text =>
    intro n start stop hs
    exact ht.line_text (lineSpan_eq_some hx hs)
  case next_line =>
    intro n start stop start' stop' hs hs'
    have hlt := lineCount_lt hx
    have hspan := lineSpan_eq_some hx hs
    have hn : n.toNat < (LineTable.ofText source).lineCount :=
      ht.lineSpan_isSome_iff.1 (by rw [hspan]; rfl)
    have hone : (1 : UInt64).toNat = 1 := rfl
    have hspan' := lineSpan_eq_some hx hs'
    rw [toNat_add_of_lt (by omega), hone] at hspan'
    exact ht.next_line hspan hspan'

theorem places_correspond_twoLines : bytes "a\nb".toList < Text.sizeLimit ∧
    ∃ x, ofText .wraps "a\nb".toList = .ok x ∧ x.PlacesCorrespond .wraps "a\nb".toList := by
  have h : bytes "a\nb".toList < Text.sizeLimit := by decide
  exact ⟨h, places_correspond .wraps _ h⟩

/-- In a text of two lines the last column that a word can hold is past the second line, which ends at
offset 3. Its offset wraps around into the first line, or there is none. -/
theorem offset_of_greatest_column :
    (ofText .wraps "a\nb".toList >>= (·.lineSpan .wraps 1)) = .ok (some (2, 3)) ∧
    (ofText .wraps "a\nb".toList >>= (·.offset .wraps ⟨1, 18446744073709551615⟩)) = .ok 1 ∧
    (ofText .stops "a\nb".toList >>= (·.offset .stops ⟨1, 18446744073709551615⟩))
      = .error .overflow :=
  ⟨rfl, rfl, rfl⟩

end LineIndex

end Recipe
