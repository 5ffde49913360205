import Recipe.Proofs.Text.Utf16
import Recipe.Proofs.Tree.Layout
import Recipe.Server.Encoding

/-!
# Columns that a client counts

A client names a place in a text by a line and by the width of what stands before the place on that
line, counted in its own units (`Encoding.width`). For places between characters the conversions lose
nothing: such a position is understood as the byte column that was meant (`Columns.ofClient_width`), and
a byte column is written as the width that the client counts (`Columns.toClient_bytes`), as long as the
text is short enough for words of 32 bits. The ends of every well placed node are such places, so its
range can be read off what the client gets (`Columns.rangeOfClient_rangeToClient`).
-/

namespace Recipe

open Text (bytes)

/-! ## Beginnings of lines -/

namespace Text

/-- Line `n` of a text begins with `pre`. -/
def LineBegins (cs : List Char) (n : Nat) (pre : List Char) : Prop :=
  ∃ post, (lines cs)[n]? = some (pre ++ post)

/-- The text `p` ends on some line, and what `p` has of that line is as wide in bytes as the column
after `p`. -/
theorem lineBegins_after (p q : List Char) : ∃ pre, LineBegins (p ++ q) (Cursor.after p).position.line pre ∧
    bytes pre = (Cursor.after p).position.column := by
  obtain ⟨u, v, hu, hl, -⟩ := LineTable.exists_line_after (m := []) (by simp) p q
  exact ⟨u, ⟨v, hl⟩, hu⟩

theorem LineBegins.bytes_le {cs pre : List Char} {n : Nat} (h : LineBegins cs n pre) :
    bytes pre ≤ bytes cs ∧ n ≤ bytes cs := by
  obtain ⟨post, hl⟩ := h
  obtain ⟨a, b, hcs, hn, -⟩ := exists_of_getElem?_lines hl
  have hcount : ∀ ds : List Char, ds.count '\n' ≤ bytes ds := by
    intro ds
    induction ds with
    | nil => exact Nat.le_refl 0
    | cons d ds ih =>
      have := d.utf8Size_pos
      rw [List.count_cons, bytes_cons]
      split <;> omega
  have := hcount a
  rw [hcs, bytes_append, bytes_append, bytes_append]
  omega

end Text

/-! ## Positions on the wire -/

/-- The width of a text in the units of an encoding. -/
def Encoding.width : Encoding → List Char → Nat
  | utf8, cs => bytes cs
  | utf16, cs => Text.units cs

theorem Encoding.width_le_bytes (e : Encoding) (cs : List Char) : e.width cs ≤ bytes cs := by
  cases e with
  | utf8 => exact Nat.le_refl _
  | utf16 => exact Text.units_le_bytes cs

namespace Columns

/-- A range from the client. -/
def rangeOfClient (c : Columns) (r : ClientRange) : Range :=
  let start := c.ofClient r.start
  let stop := c.ofClient r.stop
  ⟨⟨c.lines.offset start, c.lines.offset stop⟩, start, stop⟩

theorem word_eq {n : Nat} (h : n < UInt32.size) : word n = n :=
  Nat.mod_eq_of_lt h

/-- No column of a text within the default limit is too large for a word. -/
theorem defaultLimit_lt : defaultLimit < UInt32.size := by
  decide

variable (e : Encoding) {text : String} {n : Nat} {pre : List Char}

/-- A position of the client whose character is the width of `pre`, which begins line `n`, is the
position after the bytes of `pre`. -/
theorem ofClient_width (h : Text.LineBegins text.toList n pre) :
    (ofText e text).ofClient ⟨n, e.width pre⟩ = ⟨n, bytes pre⟩ := by
  obtain ⟨post, hl⟩ := h
  cases e with
  | utf8 => rfl
  | utf16 =>
    simp only [ofClient, ofText, LineTable.columnFromUtf16, LineTable.ofText, hl, Encoding.width,
      LineTable.columnOfUnits_append]

/-- The position after the bytes of `pre`, which begins line `n`, is told to the client as the width
of `pre`. -/
theorem toClient_bytes (h : Text.LineBegins text.toList n pre) (hs : bytes text.toList < UInt32.size) :
    (ofText e text).toClient ⟨n, bytes pre⟩ = ⟨n, e.width pre⟩ := by
  obtain ⟨hpre, hn⟩ := h.bytes_le
  have hline : word n = n := word_eq (Nat.lt_of_le_of_lt hn hs)
  have hwidth : word (e.width pre) = e.width pre :=
    word_eq (Nat.lt_of_le_of_lt (Nat.le_trans (e.width_le_bytes pre) hpre) hs)
  obtain ⟨post, hl⟩ := h
  cases e with
  | utf8 => rw [toClient, ofText, hline]; exact congrArg _ hwidth
  | utf16 =>
    simp only [toClient, ofText, LineTable.utf16Column, LineTable.ofText, hl,
      LineTable.unitsBefore_append, hline]
    exact congrArg _ hwidth

theorem ofClient_toClient (h : Text.LineBegins text.toList n pre) (hs : bytes text.toList < UInt32.size) :
    (ofText e text).ofClient ((ofText e text).toClient ⟨n, bytes pre⟩) = ⟨n, bytes pre⟩ := by
  rw [toClient_bytes e h hs, ofClient_width e h]

/-- The position of a boundary reaches the client and comes back. -/
theorem ofClient_toClient_position {o : Nat} (ho : Text.isBoundary text.toList o = true)
    (hs : bytes text.toList < UInt32.size) :
    (ofText e text).ofClient ((ofText e text).toClient ((LineTable.ofText text.toList).position o))
      = (LineTable.ofText text.toList).position o := by
  obtain ⟨p, q, hpq, rfl⟩ := Text.isBoundary_iff.1 ho
  obtain ⟨pre, hl, hb⟩ := Text.lineBegins_after p q
  rw [← hpq] at hl
  have hpos : (LineTable.ofText text.toList).position (bytes p)
      = ⟨(Cursor.after p).position.line, bytes pre⟩ := by
    rw [hpq, LineTable.position_bytes, hb]
  rw [hpos]
  exact ofClient_toClient e hl hs

/-- The range of a well placed node can be read off what the client gets. -/
theorem rangeOfClient_rangeToClient {m : Node} (hm : m.WellPlaced text.toList)
    (hs : bytes text.toList < UInt32.size) :
    (ofText e text).rangeOfClient ((ofText e text).rangeToClient m.range) = m.range := by
  have hstart := ofClient_toClient_position e hm.isBoundary_start hs
  have hstop := ofClient_toClient_position e hm.isBoundary_stop hs
  have hle : m.range.span.start ≤ bytes text.toList := Nat.le_trans hm.start_le_stop hm.stop_le_bytes
  rw [← hm.start_eq_position] at hstart
  rw [← hm.stop_eq_position] at hstop
  have hspan : (⟨(LineTable.ofText text.toList).offset m.range.start,
      (LineTable.ofText text.toList).offset m.range.stop⟩ : Span) = m.range.span := by
    rw [hm.start_eq_position, hm.stop_eq_position, LineTable.offset_position hle,
      LineTable.offset_position hm.stop_le_bytes]
  simp only [rangeOfClient, rangeToClient, hstart, hstop]
  rw [show (ofText e text).lines = LineTable.ofText text.toList from rfl, hspan]

end Columns

end Recipe
