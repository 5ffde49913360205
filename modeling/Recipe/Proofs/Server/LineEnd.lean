import Recipe.Proofs.Server.Forwarding
import Recipe.Proofs.Tree.LineFeed

/-!
# Characters past the end of a line

A client may ask about a character that its line does not have. A client that counts UTF-16 units means the
end of the line, since its columns are converted (`Columns.ofClient_past`). A byte column is taken as it is,
and then what begins or ends at a place of the text lies before or behind it as before or behind the end of
the line (`LineTable.le_past_iff`), but for what ends right there. So the same nodes are found
(`Node.pathTo_past`), hence the same symbols, since no symbol is found where code ends with its line. But a
region that ends with its line is not found, and in a region that goes on the column is counted past the
end of the line (`Launch.past_line_end`).
-/

namespace Recipe

open Text (bytes)

/-! ## Places of a text and columns past the end of a line -/

namespace LineTable

variable {source line : List Char} {n : Nat} (hline : (Text.lines source)[n]? = some line)

include hline

/-- A place of a text is not past the end of its line. -/
theorem column_le_of_position {o : Nat} (ho : o ≤ bytes source)
    (h : ((ofText source).position o).line = n) : ((ofText source).position o).column ≤ bytes line := by
  obtain ⟨k, l, c, hp, hl, hc, -⟩ := exists_of_position ho
  rw [hp] at h ⊢
  obtain rfl : k = n := h
  rw [hline] at hl
  rw [Option.some.inj hl]
  exact hc

section Past

variable {c : Nat} (hc : bytes line < c) {o : Nat} (ho : o ≤ bytes source)

include hc ho

theorem le_past_iff : (ofText source).position o ≤ ⟨n, c⟩ ↔ (ofText source).position o ≤ ⟨n, bytes line⟩ := by
  have hle := column_le_of_position hline ho
  rw [Position.le_iff, Position.le_iff]
  dsimp only
  omega

theorem past_lt_iff : ⟨n, c⟩ < (ofText source).position o ↔ ⟨n, bytes line⟩ < (ofText source).position o := by
  have hle := column_le_of_position hline ho
  rw [Position.lt_iff, Position.lt_iff]
  dsimp only
  omega

theorem past_le_iff : ⟨n, c⟩ ≤ (ofText source).position o ↔ ⟨n, bytes line⟩ < (ofText source).position o := by
  have hle := column_le_of_position hline ho
  rw [Position.le_iff, Position.lt_iff]
  dsimp only
  omega

end Past

/-- A place at the end of a line is followed by a line feed, or by nothing. -/
theorem endsLine_of_position {p q : List Char} (hsource : source = p ++ q)
    (h : (ofText source).position (bytes p) = ⟨n, bytes line⟩) : q = [] ∨ q.head? = some '\n' := by
  cases q with
  | nil => exact .inl rfl
  | cons c q =>
    refine .inr (congrArg some ?_)
    by_contra hne
    -- The place after the character would be on the line as well.
    have hsplit : source = (p ++ [c]) ++ q := by rw [hsource, List.append_assoc]; rfl
    have hbefore := position_bytes p (c :: q)
    have hafter := position_bytes (p ++ [c]) q
    rw [← hsource, h] at hbefore
    rw [← hsplit, ← Cursor.advance_after] at hafter
    have hstep : ((Cursor.after p).advance [c]).position = ⟨n, bytes line + c.utf8Size⟩ := by
      rw [Cursor.advance, List.foldl_cons, List.foldl_nil, Cursor.step, if_neg hne, ← hbefore]
    have hbound : bytes (p ++ [c]) ≤ bytes source := by
      rw [hsplit, Text.bytes_append (p ++ [c])]
      exact Nat.le_add_right _ _
    have hle := column_le_of_position hline hbound
    rw [hafter, hstep] at hle
    have := c.utf8Size_pos
    have := hle rfl
    dsimp only at this
    omega

end LineTable

/-- Past the end of its line a client that counts UTF-16 units names the end of the line. -/
theorem Columns.ofClient_past {text : String} {line : List Char} {n c : Nat}
    (hline : (Text.lines text.toList)[n]? = some line) (hc : Text.units line ≤ c) :
    (ofText .utf16 text).ofClient ⟨n, c⟩ = ⟨n, bytes line⟩ := by
  have hcolumn := LineTable.columnFromUtf16_of_line (t := .ofText text.toList) hline c
  exact congrArg (Position.mk n) (hcolumn.trans (LineTable.columnOfUnits_of_le hc))

/-! ## Nodes and symbols -/

section Nodes

variable {source line : List Char} {n c : Nat} (hline : (Text.lines source)[n]? = some line)
  (hc : bytes line < c)

include hline hc

theorem Node.WellPlaced.contains_past {m : Node} (hm : m.WellPlaced source) :
    m.range.contains ⟨n, c⟩ = m.range.contains ⟨n, bytes line⟩ := by
  rw [Bool.eq_iff_iff, Range.contains_iff, Range.contains_iff, hm.start_eq_position, hm.stop_eq_position,
    LineTable.le_past_iff hline hc hm.start_le_bytes, LineTable.past_lt_iff hline hc hm.stop_le_bytes]

/-- A text touches what is past the end of a line if it goes on after the line. -/
theorem Range.Covers.touches_past {r : Range} {body : List Char} (hr : r.Covers source body) :
    r.touches ⟨n, c⟩ = r.contains ⟨n, bytes line⟩ := by
  have hstop : r.span.stop ≤ bytes source := by
    obtain ⟨pre, post, rfl, rfl⟩ := hr
    rw [Cursor.rangeTo, Cursor.offset_after (pre ++ body), ← List.append_assoc, Text.bytes_append (pre ++ body)]
    exact Nat.le_add_right _ _
  rw [Bool.eq_iff_iff, touches_iff, contains_iff, hr.start_eq_position, hr.stop_eq_position,
    LineTable.le_past_iff hline hc hr.start_le_bytes, LineTable.past_le_iff hline hc hstop]

theorem Node.pathTo_past {root : Node} (h : ∀ m ∈ root.preorder, m.WellPlaced source) :
    root.pathTo ⟨n, c⟩ = root.pathTo ⟨n, bytes line⟩ := by
  have hbegins : ∀ {p q : Position}, (∀ m ∈ root.preorder, m.range.contains p = m.range.contains q) →
      root.pathTo p <+: root.pathTo q := by
    intro p q hpq
    obtain ⟨m, hm, hp⟩ := (prefix_pathTo_iff h).1 (List.prefix_rfl (l := root.pathTo p))
    exact (prefix_pathTo_iff h).2 ⟨m, hm, hp.imp_right fun hp => hpq m (mem_preorder_of_follow hm) ▸ hp⟩
  have hpast := hbegins fun m hm => (h m hm).contains_past hline hc
  exact hpast.eq_of_length_le (hbegins fun m hm => ((h m hm).contains_past hline hc).symm).length_le

end Nodes

namespace Document

variable {text : String} {line : List Char} {n c : Nat}
  (hline : (Text.lines text.toList)[n]? = some line) (hc : bytes line < c)

include hline hc

/-- The same word is found past the end of a line and at its end. -/
theorem wordNode?_past (limit : Nat) (uri : Uri) :
    (read limit uri text).wordNode? ⟨n, c⟩ = (read limit uri text).wordNode? ⟨n, bytes line⟩ := by
  unfold wordNode?
  refine Option.bind_congr fun root hroot => ?_
  have hplaced : ∀ m ∈ root.preorder, m.WellPlaced text.toList := fun m hm =>
    (wellPlaced_of_mem_nodes (Tree.mem_nodes.2 ⟨root, hroot, hm⟩)).1
  rw [Node.pathTo_past hline hc hplaced]

theorem definition?_past (limit : Nat) (uri : Uri) :
    (read limit uri text).definition? ⟨n, c⟩ = (read limit uri text).definition? ⟨n, bytes line⟩ := by
  rw [definition?, wordNode?_past hline hc]
  rfl

theorem hover?_past (limit : Nat) (uri : Uri) :
    (read limit uri text).hover? ⟨n, c⟩ = (read limit uri text).hover? ⟨n, bytes line⟩ := by
  rw [hover?, wordNode?_past hline hc]
  rfl

end Document

/-! ## Owners -/

namespace EmbeddedDocument

/-- How many bytes a document leaves out of a line of its host. -/
def cut (d : EmbeddedDocument) (n : Nat) : Nat :=
  (d.mapping.stripped[n - d.mapping.start.line]?).getD 0

/-- If the mapping of a document has a place for one column of line `n`, it has one for every column
`j` of it: what is cut off the line is subtracted from `j`. -/
theorem toEmbedded_of_line {d : EmbeddedDocument} {n k : Nat} {q : Position}
    (h : d.mapping.toEmbedded ⟨n, k⟩ = some q) (j : Nat) :
    d.mapping.toEmbedded ⟨n, j⟩ = some ⟨n - d.mapping.start.line, j - d.cut n⟩ := by
  rw [Mapping.toEmbedded] at h ⊢
  split at h
  · rename_i hle
    obtain ⟨m, hm, -⟩ := Option.map_eq_some_iff.1 h
    rw [if_pos hle, cut]
    dsimp only at hm ⊢
    rw [hm]
    rfl
  · cases h

end EmbeddedDocument

namespace Launch

section OpenText

variable {l : Launch} {es : List ServerEvent} {uri : Uri} {text : String}
  (he : ∀ e ∈ es, e.isHandshake = false) (ho : openText? es uri = some text)

include he ho

/-- Every document of an open text is listed for one of its regions. -/
theorem exists_region_of_mem_ofHost {d : EmbeddedDocument} (hd : d ∈ (l.server es).store.ofHost uri) :
    ∃ t, parse l.limit text = .ok t ∧ ∃ r ∈ t.regions, d.entry = r.entry uri text := by
  have hmem : d.entry ∈ ((l.server es).store.ofHost uri).map (·.entry) := List.mem_map_of_mem hd
  rw [entries_server he, ho, Settings.entries] at hmem
  split at hmem
  · obtain ⟨r, hr, hentry⟩ := List.mem_map.1 hmem
    rw [Region.ofText] at hr
    split at hr
    · rename_i t ht
      exact ⟨t, ht, r, hr, hentry.symm⟩
    · cases hr
  · cases hmem

/-- The document at a position of an open text owns it. -/
theorem owner?_eq_some_iff {p : Position} {d : EmbeddedDocument} :
    (l.server es).store.owner? uri p = some d ↔
      d ∈ (l.server es).store.ofHost uri ∧ d.range.touches p = true := by
  constructor
  · intro h
    obtain ⟨language, -, hfound⟩ := List.exists_of_findSome?_eq_some h
    exact ⟨(Store.mem_ofLanguage.1 (List.mem_of_find?_eq_some hfound)).1, by
      simpa using List.find?_some hfound⟩
  · rintro ⟨hd, hp⟩
    refine Store.owner?_eq hd hp fun e hem hep => ?_
    obtain ⟨t, ht, r, hr, hentry⟩ := exists_region_of_mem_ofHost he ho hd
    obtain ⟨t', ht', r', hr', hentry'⟩ := exists_region_of_mem_ofHost he ho hem
    obtain rfl : t = t' := Except.ok.inj (ht.symm.trans ht')
    rw [show d.range = r.range from congrArg (·.range) hentry] at hp
    rw [show e.range = r'.range from congrArg (·.range) hentry'] at hep
    rw [(Tree.embeds_of_parse ht).eq_of_touches hr' hr hep hp] at hentry'
    exact ((l.holds_server he).ready.documentsOf uri).eq_of_uri hem hd
      (congrArg (·.uri) (hentry'.trans hentry.symm))

variable {line : List Char} {n c : Nat} (hline : (Text.lines text.toList)[n]? = some line)
  (hc : bytes line < c)

include hline hc

theorem touches_past_of_mem_ofHost {d : EmbeddedDocument} (hd : d ∈ (l.server es).store.ofHost uri) :
    d.range.touches ⟨n, c⟩ = d.range.contains ⟨n, bytes line⟩ := by
  obtain ⟨t, ht, r, hr, hentry⟩ := exists_region_of_mem_ofHost he ho hd
  obtain ⟨-, body, hbody, -⟩ := (Tree.embeds_of_parse ht).solid r hr
  rw [show t.source = text by rw [(of_parse ht).2]] at hbody
  rw [show d.range = r.range from congrArg (·.range) hentry]
  exact hbody.touches_past hline hc

/-- What owns the end of a line owns what is past it, unless it ends there. -/
theorem owner?_past {d : EmbeddedDocument}
    (h : (l.server es).store.owner? uri ⟨n, bytes line⟩ = some d) :
    (l.server es).store.owner? uri ⟨n, c⟩ = if d.range.stop = ⟨n, bytes line⟩ then none else some d := by
  obtain ⟨hd, hp⟩ := (owner?_eq_some_iff he ho).1 h
  obtain ⟨hstart, hstop⟩ := Range.touches_iff.1 hp
  split
  · rename_i hend
    refine Option.eq_none_iff_forall_ne_some.2 fun e hown => ?_
    obtain ⟨hem, hep⟩ := (owner?_eq_some_iff he ho).1 hown
    rw [touches_past_of_mem_ofHost he ho hline hc hem] at hep
    -- The other one is at the end of the line, too.
    obtain ⟨hfirst, hlast⟩ := Range.contains_iff.1 hep
    have hown := (owner?_eq_some_iff he ho).2
      ⟨hem, Range.touches_iff.2 ⟨hfirst, Position.le_of_lt hlast⟩⟩
    rw [Option.some.inj (hown.symm.trans h), hend] at hlast
    exact Position.not_le_of_lt hlast (Position.le_refl _)
  · rename_i hend
    refine (owner?_eq_some_iff he ho).2 ⟨hd, ?_⟩
    rw [touches_past_of_mem_ofHost he ho hline hc hd]
    refine Range.contains_iff.2 ⟨hstart, ?_⟩
    rw [Position.le_iff] at hstop
    rw [Position.lt_iff]
    have hne : ¬(d.range.stop.line = n ∧ d.range.stop.column = bytes line) := by
      rintro ⟨hl, hb⟩
      exact hend (by rw [← hl, ← hb])
    dsimp only at hstop ⊢
    omega

theorem owner?_past_of_none (h : (l.server es).store.owner? uri ⟨n, bytes line⟩ = none) :
    (l.server es).store.owner? uri ⟨n, c⟩ = none := by
  refine Option.eq_none_iff_forall_ne_some.2 fun d hown => ?_
  obtain ⟨hd, hp⟩ := (owner?_eq_some_iff he ho).1 hown
  rw [touches_past_of_mem_ofHost he ho hline hc hd] at hp
  obtain ⟨hfirst, hlast⟩ := Range.contains_iff.1 hp
  have hend := (owner?_eq_some_iff he ho).2 ⟨hd, Range.touches_iff.2 ⟨hfirst, Position.le_of_lt hlast⟩⟩
  rw [h] at hend
  cases hend

omit hc in
/-- Where a document ends with its line, no symbol is found. -/
theorem definition?_of_owner_stop {d : EmbeddedDocument}
    (h : (l.server es).store.owner? uri ⟨n, bytes line⟩ = some d)
    (hstop : d.range.stop = ⟨n, bytes line⟩) :
    (Document.read l.limit uri text).definition? ⟨n, bytes line⟩ = none := by
  obtain ⟨t, ht, r, hr, hentry⟩ := exists_region_of_mem_ofHost he ho ((owner?_eq_some_iff he ho).1 h).1
  obtain ⟨-, body, hbody, -⟩ := (Tree.embeds_of_parse ht).solid r hr
  rw [show t.source = text by rw [(of_parse ht).2]] at hbody
  rw [show d.range = r.range from congrArg (·.range) hentry] at hstop
  have hposition := hbody.stop_eq_position
  rw [hstop] at hposition
  obtain ⟨pre, post, hsource, hrange⟩ := hbody
  have hspan : r.range.span.stop = bytes (pre ++ body) := by
    rw [hrange, Cursor.rangeTo, Cursor.offset_after (pre ++ body)]
  rw [← List.append_assoc] at hsource
  rw [hspan] at hposition
  have hread : Document.read l.limit uri text = .ofTree uri t := by rw [Document.read, ht]; rfl
  rw [← hstop, hread]
  exact Document.definition?_of_region_stop ht uri hr hsource hspan
    (LineTable.endsLine_of_position hline hsource hposition.symm)

omit hline hc in
/-- The mapping of the document that owns the end of line `n` has a place for every column `j` of
the line, also past its end. -/
theorem toEmbedded_of_owner {d : EmbeddedDocument}
    (h : (l.server es).store.owner? uri ⟨n, bytes line⟩ = some d) (j : Nat) :
    d.mapping.toEmbedded ⟨n, j⟩ = some ⟨n - d.range.start.line, j - d.cut n⟩ := by
  obtain ⟨hd, hp⟩ := (owner?_eq_some_iff he ho).1 h
  obtain ⟨t, ht, r, hr, hentry⟩ := exists_region_of_mem_ofHost he ho hd
  obtain ⟨-, body, hbody, -⟩ := (Tree.embeds_of_parse ht).solid r hr
  rw [show t.source = text by rw [(of_parse ht).2]] at hbody
  obtain ⟨calls, hstore, -⟩ := l.exists_calls he
  have hmapped : d.Mapped := Store.mapped_of_mem_run (hstore ▸ hd)
  rw [show d.range = r.range from congrArg (·.range) hentry] at hp
  obtain ⟨q, hq⟩ := hmapped.exists_toEmbedded hentry hbody hp
  rw [EmbeddedDocument.toEmbedded_of_line hq j, hmapped.start_eq]

end OpenText

end Launch

/-! ## Answers -/

namespace Server

variable {s : Server} {uri : Uri} {d : Document} (hd : s.workspace.document? uri = some d)

include hd

theorem place?_eq (p : ClientPosition) : s.place? uri p
    = if (s.store.owner? uri ((s.columns d).ofClient p)).isSome then none
      else some (d, (s.columns d).ofClient p) := by
  rw [place?, hd, Option.bind_some]

theorem embeddedInfo?_eq (p : ClientPosition) : s.embeddedInfo? uri p
    = (s.store.locate? uri ((s.columns d).ofClient p)).bind fun x =>
        (s.store.document? x.1.uri).map fun e =>
          ⟨e, (Columns.ofText s.encoding e.text).toClient x.2⟩ := by
  rw [embeddedInfo?, hd, Option.bind_some]

/-- A client that counts bytes and asks at a position that the document `owner` has in its range is
told that document and its place in it. -/
theorem embeddedInfo?_of_owner (hencoding : s.encoding = .utf8) {p : ClientPosition}
    {owner : EmbeddedDocument} (h : s.store.owner? uri ⟨p.line, p.character⟩ = some owner) {q : Position}
    (hq : owner.mapping.toEmbedded ⟨p.line, p.character⟩ = some q) :
    s.embeddedInfo? uri p = (s.store.document? owner.uri).map fun e =>
      ⟨e, ⟨Columns.word q.line, Columns.word q.column⟩⟩ := by
  have hp : (s.columns d).ofClient p = ⟨p.line, p.character⟩ := by
    rw [columns, Columns.ofText, Columns.ofClient, hencoding]
  rw [embeddedInfo?_eq hd, hp, Store.locate?, h, Option.bind_some, hq, Option.map_some, Option.bind_some]
  simp only [Columns.ofText, Columns.toClient, hencoding]

end Server

namespace Launch

/-- What a server answers about character `c` of a line, past its end, and about the end of the line. -/
structure PastLineEnd (s : Server) (uri : Uri) (n c : Nat) (line : List Char) : Prop where
  hover_eq : s.hover? uri ⟨n, c⟩ = s.hover? uri ⟨n, s.encoding.width line⟩
  definition_eq : s.definition? uri ⟨n, c⟩ = s.definition? uri ⟨n, s.encoding.width line⟩
  embeddedInfo_eq_utf16 : s.encoding = .utf16 →
    s.embeddedInfo? uri ⟨n, c⟩ = s.embeddedInfo? uri ⟨n, s.encoding.width line⟩
  /-- To a client that counts bytes, code that ends with the line is not found, and in code that goes on
  the character counts on. -/
  embeddedInfo_utf8 : s.encoding = .utf8 → ∀ d, s.store.owner? uri ⟨n, bytes line⟩ = some d →
    s.embeddedInfo? uri ⟨n, c⟩ = if d.range.stop = ⟨n, bytes line⟩ then none else
      (s.store.document? d.uri).map fun e =>
        ⟨e, ⟨Columns.word (n - d.range.start.line), Columns.word (c - d.cut n)⟩⟩
  /-- So the answers are the same outside of code only, or if the document leaves out more of the line than
  there is. -/
  embeddedInfo_eq_iff : c < UInt32.size →
    (s.embeddedInfo? uri ⟨n, c⟩ = s.embeddedInfo? uri ⟨n, s.encoding.width line⟩ ↔
      s.encoding = .utf16 ∨ s.embeddedInfo? uri ⟨n, s.encoding.width line⟩ = none ∨
        ∃ d, s.store.owner? uri ⟨n, bytes line⟩ = some d ∧ d.range.stop ≠ ⟨n, bytes line⟩ ∧ c ≤ d.cut n)

section Answers

variable {l : Launch} {es : List ServerEvent} {uri : Uri} {text : String}
  (he : ∀ e ∈ es, e.isHandshake = false) (ho : openText? es uri = some text) {line : List Char} {n c : Nat}
  (hline : (Text.lines text.toList)[n]? = some line)

include he ho hline

/-- A client that counts UTF-16 units gets the answers at the end of the line. -/
theorem pastLineEnd_utf16 (hencoding : (l.server es).encoding = .utf16) (hc : Text.units line < c) :
    PastLineEnd (l.server es) uri n c line := by
  have hd : (l.server es).workspace.document? uri = some (.read l.limit uri text) := by
    rw [(l.holds_server he).document?, ho, Option.map_some]
  have hclient : ∀ k, Text.units line ≤ k → ((l.server es).columns (.read l.limit uri text)).ofClient ⟨n, k⟩
      = ⟨n, bytes line⟩ := by
    intro k hk
    rw [Server.columns, Document.text_read, hencoding]
    exact Columns.ofClient_past hline hk
  have hend := hclient (Text.units line) (Nat.le_refl _)
  have hpast := hclient c (Nat.le_of_lt hc)
  have hwidth : (l.server es).encoding.width line = Text.units line := by rw [hencoding]; rfl
  have hplace : (l.server es).place? uri ⟨n, c⟩ = (l.server es).place? uri ⟨n, Text.units line⟩ := by
    rw [Server.place?_eq hd, Server.place?_eq hd, hend, hpast]
  have hinfo : (l.server es).embeddedInfo? uri ⟨n, c⟩
      = (l.server es).embeddedInfo? uri ⟨n, (l.server es).encoding.width line⟩ := by
    rw [hwidth, Server.embeddedInfo?_eq hd, Server.embeddedInfo?_eq hd, hend, hpast]
  refine ⟨?_, ?_, fun _ => hinfo, fun hutf8 => ?_, fun _ => iff_of_true hinfo (.inl hencoding)⟩
  · rw [hwidth, Server.hover?, Server.hover?, hplace]
  · rw [hwidth, Server.definition?, Server.definition?, hplace]
  · rw [hencoding] at hutf8
    cases hutf8

section Bytes

variable (hencoding : (l.server es).encoding = .utf8) (hc : bytes line < c)

include hencoding hc

omit hline hc in
theorem document?_and_ofClient_utf8 :
    (l.server es).workspace.document? uri = some (.read l.limit uri text) ∧
      ∀ p, ((l.server es).columns (.read l.limit uri text)).ofClient p = ⟨p.line, p.character⟩ := by
  refine ⟨by rw [(l.holds_server he).document?, ho, Option.map_some], fun p => ?_⟩
  rw [Server.columns, Columns.ofText, Columns.ofClient, hencoding]

/-- What is asked of the document is answered alike past the end of a line, if it has the same answers there
and none where no symbol is found. -/
theorem bind_place?_past {α : Type} (f : Document × Position → Option α)
    (hpast : f (.read l.limit uri text, ⟨n, c⟩) = f (.read l.limit uri text, ⟨n, bytes line⟩))
    (hnone : (Document.read l.limit uri text).definition? ⟨n, bytes line⟩ = none →
      f (.read l.limit uri text, ⟨n, bytes line⟩) = none) :
    ((l.server es).place? uri ⟨n, c⟩).bind f = ((l.server es).place? uri ⟨n, bytes line⟩).bind f := by
  obtain ⟨hd, hclient⟩ := document?_and_ofClient_utf8 he ho hencoding
  rw [Server.place?_eq hd, Server.place?_eq hd, hclient, hclient]
  dsimp only
  cases howner : (l.server es).store.owner? uri ⟨n, bytes line⟩ with
  | none =>
    rw [owner?_past_of_none he ho hline hc howner]
    exact hpast
  | some d =>
    rw [owner?_past he ho hline hc howner]
    split
    · rename_i hstop
      exact hpast.trans (hnone (definition?_of_owner_stop he ho hline howner hstop))
    · rfl

omit hline hc in
theorem embeddedInfo?_of_owner_none {k : Nat} (h : (l.server es).store.owner? uri ⟨n, k⟩ = none) :
    (l.server es).embeddedInfo? uri ⟨n, k⟩ = none := by
  obtain ⟨hd, hclient⟩ := document?_and_ofClient_utf8 he ho hencoding
  rw [Server.embeddedInfo?_eq hd, hclient, Store.locate?, h]
  rfl

omit hline hc in
theorem embeddedInfo?_at_line_end {d : EmbeddedDocument}
    (h : (l.server es).store.owner? uri ⟨n, bytes line⟩ = some d) :
    (l.server es).embeddedInfo? uri ⟨n, bytes line⟩ = ((l.server es).store.document? d.uri).map fun e =>
      ⟨e, ⟨Columns.word (n - d.range.start.line), Columns.word (bytes line - d.cut n)⟩⟩ :=
  Server.embeddedInfo?_of_owner (document?_and_ofClient_utf8 he ho hencoding).1 hencoding
    (p := ⟨n, bytes line⟩) h (toEmbedded_of_owner he ho h _)

theorem embeddedInfo?_past {d : EmbeddedDocument}
    (h : (l.server es).store.owner? uri ⟨n, bytes line⟩ = some d) :
    (l.server es).embeddedInfo? uri ⟨n, c⟩ = if d.range.stop = ⟨n, bytes line⟩ then none else
      ((l.server es).store.document? d.uri).map fun e =>
        ⟨e, ⟨Columns.word (n - d.range.start.line), Columns.word (c - d.cut n)⟩⟩ := by
  have howner := owner?_past he ho hline hc h
  split
  · rename_i hstop
    rw [if_pos hstop] at howner
    exact embeddedInfo?_of_owner_none he ho hencoding howner
  · rename_i hstop
    rw [if_neg hstop] at howner
    exact Server.embeddedInfo?_of_owner (document?_and_ofClient_utf8 he ho hencoding).1 hencoding
      (p := ⟨n, c⟩) howner (toEmbedded_of_owner he ho h _)

/-- Two characters of a line are told apart, unless the document leaves out both. -/
theorem embeddedInfo?_past_eq_iff (hword : c < UInt32.size) :
    (l.server es).embeddedInfo? uri ⟨n, c⟩ = (l.server es).embeddedInfo? uri ⟨n, bytes line⟩ ↔
      (l.server es).embeddedInfo? uri ⟨n, bytes line⟩ = none ∨
        ∃ d, (l.server es).store.owner? uri ⟨n, bytes line⟩ = some d ∧
          d.range.stop ≠ ⟨n, bytes line⟩ ∧ c ≤ d.cut n := by
  cases howner : (l.server es).store.owner? uri ⟨n, bytes line⟩ with
  | none =>
    have hpast := owner?_past_of_none he ho hline hc howner
    rw [embeddedInfo?_of_owner_none he ho hencoding howner,
      embeddedInfo?_of_owner_none he ho hencoding hpast]
    exact iff_of_true rfl (.inl rfl)
  | some d =>
    have hex : (∃ e, some d = some e ∧ e.range.stop ≠ ⟨n, bytes line⟩ ∧ c ≤ e.cut n) ↔
        d.range.stop ≠ ⟨n, bytes line⟩ ∧ c ≤ d.cut n := by simp
    rw [hex, embeddedInfo?_past he ho hline hencoding hc howner,
      embeddedInfo?_at_line_end he ho hencoding howner]
    by_cases hstop : d.range.stop = ⟨n, bytes line⟩
    · rw [if_pos hstop]
      exact ⟨fun h => .inl h.symm, fun h => (h.resolve_right fun hne => hne.1 hstop).symm⟩
    · rw [if_neg hstop]
      cases (l.server es).store.document? d.uri with
      | none => exact iff_of_true rfl (.inl rfl)
      | some e =>
        have hchar : Columns.word (c - d.cut n) = Columns.word (bytes line - d.cut n) ↔ c ≤ d.cut n := by
          rw [Columns.word_eq (by omega), Columns.word_eq (by omega)]
          omega
        simp [hchar, hstop]

theorem pastLineEnd_utf8 : PastLineEnd (l.server es) uri n c line := by
  have hwidth : (l.server es).encoding.width line = bytes line := by rw [hencoding]; rfl
  refine ⟨?_, ?_, fun hutf16 => ?_, fun _ d => embeddedInfo?_past he ho hline hencoding hc, fun hword => ?_⟩
  · rw [hwidth]
    refine bind_place?_past he ho hline hencoding hc _ ?_ fun hnone => ?_
    · dsimp only
      rw [Document.hover?_past hline hc]
    · have hiff := Document.isSome_hover? (.read l.limit uri text) ⟨n, bytes line⟩
      rw [hnone] at hiff
      rw [Option.map_eq_none_iff]
      exact Option.not_isSome_iff_eq_none.1 (mt hiff.1 Bool.false_ne_true)
  · rw [hwidth]
    refine bind_place?_past he ho hline hencoding hc _ ?_ fun hnone => ?_
    · dsimp only
      rw [Document.definition?_past hline hc]
    · rw [Option.map_eq_none_iff]
      exact hnone
  · rw [hencoding] at hutf16
    cases hutf16
  · rw [hwidth, embeddedInfo?_past_eq_iff he ho hline hencoding hc hword]
    simp [hencoding]

end Bytes

end Answers

/-- A character past the end of a line means the end of the line to hovers and definitions, in whatever
units the client counts. The embedded document is the same only to a client that counts UTF-16 units, or
outside of code. -/
theorem past_line_end (l : Launch) {es : List ServerEvent} (he : ∀ e ∈ es, e.isHandshake = false)
    {uri : Uri} {text : String} (ho : openText? es uri = some text) {n c : Nat} {line : List Char}
    (hline : (Text.lines text.toList)[n]? = some line) (hc : (l.server es).encoding.width line < c) :
    PastLineEnd (l.server es) uri n c line := by
  cases hencoding : (l.server es).encoding with
  | utf8 =>
    rw [hencoding] at hc
    exact pastLineEnd_utf8 he ho hline hencoding hc
  | utf16 =>
    rw [hencoding] at hc
    exact pastLineEnd_utf16 he ho hline hencoding hc

/-- A task with two lines of code. -/
def twoLineTask : String :=
  "do_a() \x7b\n  é\n  b\n\x7d\n"

/-- A client that has the task open. -/
def twoLineTaskEvents : List ServerEvent :=
  [.opened ⟨"file:///a.bb"⟩ 1 twoLineTask]

theorem past_line_end_twoLineTask :
    openText? twoLineTaskEvents ⟨"file:///a.bb"⟩ = some twoLineTask ∧
    (Text.lines twoLineTask.toList)[1]? = some "  é".toList ∧
    ∀ offered, (server ⟨64, 10, none, offered, .stored⟩ twoLineTaskEvents).encoding.width "  é".toList < 99 ∧
      PastLineEnd (server ⟨64, 10, none, offered, .stored⟩ twoLineTaskEvents) ⟨"file:///a.bb"⟩ 1 99
        "  é".toList := by
  have he : ∀ e ∈ twoLineTaskEvents, e.isHandshake = false := by
    simp [twoLineTaskEvents, ServerEvent.isHandshake]
  have ho : openText? twoLineTaskEvents ⟨"file:///a.bb"⟩ = some twoLineTask := by decide +kernel
  have hline : (Text.lines twoLineTask.toList)[1]? = some "  é".toList := by decide +kernel
  refine ⟨ho, hline, fun offered => ?_⟩
  have hc : (server ⟨64, 10, none, offered, .stored⟩ twoLineTaskEvents).encoding.width "  é".toList < 99 := by
    cases (server ⟨64, 10, none, offered, .stored⟩ twoLineTaskEvents).encoding <;> decide
  exact ⟨hc, past_line_end ⟨64, 10, none, offered, .stored⟩ he ho hline hc⟩

/-- To a client that counts bytes, no document is embedded past the end of the line with which the code
ends, and past the end of the line before it the place is not on the line. -/
theorem embeddedInfo?_past_code :
    ((server ⟨64, 10, none, ["utf-8"], .stored⟩ twoLineTaskEvents).embeddedInfo? ⟨"file:///a.bb"⟩
      ⟨2, 3⟩).map (fun i => (i.document.text, i.position)) = some ("é\n  b", ⟨1, 3⟩) ∧
    (server ⟨64, 10, none, ["utf-8"], .stored⟩ twoLineTaskEvents).embeddedInfo? ⟨"file:///a.bb"⟩
      ⟨2, 99⟩ = none ∧
    ((server ⟨64, 10, none, ["utf-8"], .stored⟩ twoLineTaskEvents).embeddedInfo? ⟨"file:///a.bb"⟩
      ⟨1, 4⟩).map (fun i => (i.document.text, i.position)) = some ("é\n  b", ⟨0, 2⟩) ∧
    ((server ⟨64, 10, none, ["utf-8"], .stored⟩ twoLineTaskEvents).embeddedInfo? ⟨"file:///a.bb"⟩
      ⟨1, 99⟩).map (fun i => (i.document.text, i.position)) = some ("é\n  b", ⟨0, 97⟩) := by
  decide +kernel

end Launch

end Recipe
