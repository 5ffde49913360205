import Recipe.Proofs.Server.Columns
import Recipe.Proofs.Tree.Outline

/-!
# Outlines for a client

A client gets positions in the order of the places that they stand for (`Columns.toClient_le`): lines stay
as they are, and on a line the characters before a later place are no fewer, in either encoding. So what
an entry of an outline selects lies inside its range for the client as well (`Columns.inside_entry`),
if the text fits into words of 32 bits, as every text within the default limit does
(`Columns.inside_entry_of_parse`).
`outline_of_declarations` puts this together with what the outline and the declarations of a text have
in common.
-/

namespace Recipe

open Text (bytes)

/-- Clients order positions by line, then by character. -/
instance : LE ClientPosition where
  le p q := p.line < q.line ∨ p.line = q.line ∧ p.character ≤ q.character

/-- A client's range lies inside another one. -/
structure ClientRange.Inside (r s : ClientRange) : Prop where
  start_le : s.start ≤ r.start
  stop_le : r.stop ≤ s.stop

namespace LineTable

variable {source : List Char}

theorem hasPlace_position {o : Nat} (h : o ≤ bytes source) :
    (ofText source).HasPlace ((ofText source).position o) := by
  rw [← position_offset_iff, offset_position h]

/-- Lines and columns of a text count no further than its bytes. -/
theorem HasPlace.le_bytes {p : Position} (h : (ofText source).HasPlace p) : ∃ l,
    (Text.lines source)[p.line]? = some l ∧ p.column ≤ bytes l ∧ bytes l ≤ bytes source ∧
      p.line ≤ bytes source := by
  obtain ⟨l, hl, hc⟩ := hasPlace_iff.1 h
  have hstop := (bytesOfFirst_add_le hl).1
  rw [joinedBytes_lines] at hstop
  have hbegins : Text.LineBegins source p.line [] := ⟨l, hl⟩
  exact ⟨l, hl, hc, by omega, hbegins.bytes_le.2⟩

end LineTable

namespace Columns

variable (e : Encoding) {text : String} {p q : Position}

/-- The characters before a position, as the encoding counts them. -/
def character (c : Columns) (p : Position) : Nat :=
  match c.encoding with
  | .utf8 => p.column
  | .utf16 => c.lines.utf16Column p

theorem toClient_eq (c : Columns) (p : Position) :
    c.toClient p = ⟨word p.line, word (c.character p)⟩ := by
  unfold toClient character
  cases c.encoding <;> rfl

/-- On a line, later columns have no fewer characters before them. -/
theorem character_le (hp : (LineTable.ofText text.toList).HasPlace p) (hline : p.line = q.line)
    (hcolumn : p.column ≤ q.column) : (ofText e text).character p ≤ (ofText e text).character q := by
  obtain ⟨l, hl, -⟩ := hp.le_bytes
  cases e with
  | utf8 => exact hcolumn
  | utf16 =>
    obtain ⟨n, c⟩ := p
    obtain ⟨m, d⟩ := q
    obtain rfl : n = m := hline
    exact (LineTable.columnsCorrespond_of_line hl).utf16Column_le hcolumn

theorem character_le_bytes (hp : (LineTable.ofText text.toList).HasPlace p) :
    (ofText e text).character p ≤ bytes text.toList := by
  obtain ⟨l, hl, hc, hbytes, -⟩ := hp.le_bytes
  refine Nat.le_trans ?_ hbytes
  cases e with
  | utf8 => exact hc
  | utf16 =>
    have hlast := LineTable.unitsBefore_le l hc
    rw [LineTable.unitsBefore_bytes] at hlast
    calc (LineTable.ofText text.toList).utf16Column p
        = LineTable.unitsBefore l p.column := LineTable.utf16Column_of_line hl p.column
      _ ≤ Text.units l := hlast
      _ ≤ bytes l := Text.units_le_bytes l

/-- A client gets places in their order. -/
theorem toClient_le (hs : bytes text.toList < UInt32.size)
    (hp : (LineTable.ofText text.toList).HasPlace p) (hq : (LineTable.ofText text.toList).HasPlace q)
    (h : p ≤ q) : (ofText e text).toClient p ≤ (ofText e text).toClient q := by
  have hexact : ∀ {r : Position}, (LineTable.ofText text.toList).HasPlace r →
      (ofText e text).toClient r = ⟨r.line, (ofText e text).character r⟩ := by
    intro r hr
    obtain ⟨-, -, -, -, hline⟩ := hr.le_bytes
    have hcharacter := character_le_bytes e hr
    rw [toClient_eq, word_eq (by omega), word_eq (by omega)]
  rw [hexact hp, hexact hq]
  rcases h with hlt | ⟨hline, hcolumn⟩
  · exact .inl hlt
  · exact .inr ⟨hline, character_le e hp hline hcolumn⟩

/-- A range inside another one is so for the client. -/
theorem inside_rangeToClient (hs : bytes text.toList < UInt32.size) {n m : Node}
    (hn : n.WellPlaced text.toList) (hm : m.WellPlaced text.toList) (h : n.range.Inside m.range) :
    ((ofText e text).rangeToClient n.range).Inside ((ofText e text).rangeToClient m.range) := by
  have hstart : ∀ {n : Node}, n.WellPlaced text.toList →
      (LineTable.ofText text.toList).HasPlace n.range.start := fun hn =>
    hn.start_eq_position ▸ LineTable.hasPlace_position hn.start_le_bytes
  have hstop : ∀ {n : Node}, n.WellPlaced text.toList →
      (LineTable.ofText text.toList).HasPlace n.range.stop := fun hn =>
    hn.stop_eq_position ▸ LineTable.hasPlace_position hn.stop_le_bytes
  exact ⟨toClient_le e hs (hstart hm) (hstart hn) h.start_le,
    toClient_le e hs (hstop hn) (hstop hm) h.stop_le⟩

/-- What an entry of an outline selects lies inside its range for the client. -/
theorem inside_entry (hs : bytes text.toList < UInt32.size) {d : OutlineEntry}
    (hd : d ∈ (Tree.mk text (some (rootNode text.toList))).outline) :
    ((ofText e text).entry d).selection.Inside ((ofText e text).entry d).range := by
  have hinside := inside_of_mem_outline hd
  obtain ⟨⟨n, hn, hrange⟩, m, hm, hselection⟩ := Tree.hasRange_of_mem_outline hd
  show ((ofText e text).rangeToClient d.selection).Inside ((ofText e text).rangeToClient d.range)
  rw [← hrange, ← hselection] at hinside ⊢
  exact inside_rangeToClient e hs (wellPlaced_rootNode _ hm) (wellPlaced_rootNode _ hn) hinside

/-- The entries of a text that is read with the default limit need no other bound. -/
theorem inside_entry_of_parse {t : Tree} (h : parse defaultLimit text = .ok t) {d : OutlineEntry}
    (hd : d ∈ t.outline) :
    ((ofText e text).entry d).selection.Inside ((ofText e text).entry d).range := by
  obtain ⟨hsize, rfl⟩ := of_parse h
  exact inside_entry e (Nat.lt_of_le_of_lt hsize defaultLimit_lt) hd

end Columns

/-- The declarations of a text within the limit are the names of the variables and functions in its
outline, each with the kind and the selected range of its last entry. The selected ranges stand in the
text in the order of the outline, each inside the range of its entry. For a client they do so too, in
either encoding, if the text is short enough for words of 32 bits. -/
theorem outline_of_declarations (limit : Nat) (source : String) (h : bytes source.toList ≤ limit) :
    ∃ t, parse limit source = .ok t ∧
      (∀ uri name, name ∈ (Declarations.ofTree uri t).keys ↔
        ∃ e ∈ t.outline, (e.kind = .var ∨ e.kind = .function) ∧ e.name = name) ∧
      (∀ uri name s, (Declarations.ofTree uri t).get? name = some s →
        ∃ e, (t.outline.filter (·.declares name)).getLast? = some e ∧
          s = ⟨name, e.kind, e.selection, uri⟩) ∧
      (t.outline.Pairwise fun d e => d.selection.Precedes e.selection) ∧
      (∀ e ∈ t.outline, e.selection.Inside e.range) ∧
      (bytes source.toList < UInt32.size → ∀ c : Encoding, ∀ e ∈ t.outline,
        ((Columns.ofText c source).entry e).selection.Inside
          ((Columns.ofText c source).entry e).range) := by
  refine ⟨_, parse_eq_ok h, fun uri name => Declarations.mem_keys_ofTree, fun uri name s hs => ?_,
    precedes_outline source, fun e => inside_of_mem_outline, fun hs c e => Columns.inside_entry c hs⟩
  rw [Declarations.get?_ofTree] at hs
  obtain ⟨e, he, rfl⟩ := Option.map_eq_some_iff.1 hs
  obtain ⟨-, rfl⟩ := OutlineEntry.declares_iff.1 (List.mem_filter.1 (List.mem_of_getLast? he)).2
  exact ⟨e, he, rfl⟩

/-- Two paths of one directive and a wide one, a variable that is exported again over two lines, and a
task and a definition of one name. -/
def repeatedNames : String :=
  "inherit a b\nrequire é.inc\nA = \"x\"\nexport A:b = \"𝄞 \\\n y\"\nf() \x7b\n x\n\x7d\ndef f(d):\n y\n"

theorem outline_of_declarations_repeatedNames :
    bytes repeatedNames.toList ≤ 128 ∧
      ∃ t, parse 128 repeatedNames = .ok t ∧
        (∀ uri name, name ∈ (Declarations.ofTree uri t).keys ↔
          ∃ e ∈ t.outline, (e.kind = .var ∨ e.kind = .function) ∧ e.name = name) ∧
        (∀ uri name s, (Declarations.ofTree uri t).get? name = some s →
          ∃ e, (t.outline.filter (·.declares name)).getLast? = some e ∧
            s = ⟨name, e.kind, e.selection, uri⟩) ∧
        (t.outline.Pairwise fun d e => d.selection.Precedes e.selection) ∧
        (∀ e ∈ t.outline, e.selection.Inside e.range) ∧
        (bytes repeatedNames.toList < UInt32.size → ∀ c : Encoding, ∀ e ∈ t.outline,
          ((Columns.ofText c repeatedNames).entry e).selection.Inside
            ((Columns.ofText c repeatedNames).entry e).range) :=
  ⟨by decide, outline_of_declarations 128 repeatedNames (by decide)⟩

end Recipe
