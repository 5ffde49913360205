import Recipe.Proofs.Embedded.Complete
import Recipe.Proofs.Embedded.Faithful
import Recipe.Proofs.Embedded.Listing

/-!
# Owners of positions

No region of a text reaches the next one, so a position is in at most one of them, their ends included
(`Tree.Embeds.exists_at`), and the languages may be tried in any order (`Language.findSome?_eq`). The
documents of a host have the ranges of the regions that the last call on it rendered, so the store finds
the document of that region (`Store.map_entry_owner?`). The mapping of the document may be an older one;
still it has all lines of the range (`Store.mapped_of_mem_run`), so the position has a place in the
document (`Store.owner_of_position`).
-/

namespace Recipe

open Text (bytes)

/-! ## The region at a position -/

namespace Range

variable {r s : Range} {source body body' : List Char} {p : Position}

theorem touches_iff : r.touches p = true ↔ r.start ≤ p ∧ p ≤ r.stop := by
  rw [touches, Bool.and_eq_true, decide_eq_true_eq, decide_eq_true_eq]

theorem Covers.start_eq_position (h : r.Covers source body) :
    r.start = (LineTable.ofText source).position r.span.start := by
  obtain ⟨pre, post, rfl, rfl⟩ := h
  rw [Cursor.rangeTo, Cursor.offset_after, LineTable.position_bytes]

theorem Covers.stop_eq_position (h : r.Covers source body) :
    r.stop = (LineTable.ofText source).position r.span.stop := by
  obtain ⟨pre, post, rfl, rfl⟩ := h
  rw [← List.append_assoc, Cursor.rangeTo, Cursor.offset_after (pre ++ body), LineTable.position_bytes]

theorem Covers.start_le_bytes (h : r.Covers source body) : r.span.start ≤ bytes source := by
  obtain ⟨pre, post, rfl, rfl⟩ := h
  rw [Cursor.rangeTo, Cursor.offset_after, Text.bytes_append]
  exact Nat.le_add_right _ _

/-- A place is not in two ranges of which the first ends before the other begins. -/
theorem not_touches_of_lt (hr : r.Covers source body) (hs : s.Covers source body')
    (hlt : r.span.stop < s.span.start) (hp : r.touches p = true) : s.touches p = false := by
  have hbetween : r.stop < s.start := by
    rw [hr.stop_eq_position, hs.start_eq_position]
    exact LineTable.position_lt hlt hs.start_le_bytes
  refine Bool.eq_false_iff.2 fun hps => ?_
  have hle := Position.le_trans (touches_iff.1 hps).1 (touches_iff.1 hp).2
  exact Position.not_le_of_lt hbetween hle

end Range

namespace Tree.Embeds

variable {t : Tree}

/-- At most one region of a tree is at a place. -/
theorem exists_at (h : t.Embeds) (p : Position) :
    ∃ region? : Option Region, t.regions.filter (·.range.touches p) = region?.toList := by
  have happart := h.apart.sublist (List.filter_sublist (p := fun r => r.range.touches p))
  have hmem : ∀ r ∈ t.regions.filter (·.range.touches p), r ∈ t.regions ∧ r.range.touches p = true :=
    fun r => List.mem_filter.1
  generalize t.regions.filter (·.range.touches p) = rs at happart hmem
  rcases rs with _ | ⟨r, _ | ⟨s, rs⟩⟩
  · exact ⟨none, rfl⟩
  · exact ⟨some r, rfl⟩
  · obtain ⟨hr, hrp⟩ := hmem r (by simp)
    obtain ⟨hs, hsp⟩ := hmem s (by simp)
    obtain ⟨-, body, hbody, -⟩ := h.solid r hr
    obtain ⟨-, body', hbody', -⟩ := h.solid s hs
    have hlt := ((List.pairwise_cons.1 happart).1 s (by simp)).2
    rw [Range.not_touches_of_lt hbody hbody' hlt hrp] at hsp
    cases hsp

theorem eq_of_touches (h : t.Embeds) {r s : Region} (hr : r ∈ t.regions) (hs : s ∈ t.regions)
    {p : Position} (hrp : r.range.touches p = true) (hsp : s.range.touches p = true) : r = s := by
  obtain ⟨region?, hfilter⟩ := h.exists_at p
  have hr : r ∈ region?.toList := hfilter ▸ List.mem_filter.2 ⟨hr, hrp⟩
  have hs : s ∈ region?.toList := hfilter ▸ List.mem_filter.2 ⟨hs, hsp⟩
  rw [Option.mem_toList] at hr hs
  exact Option.some.inj (hr.symm.trans hs)

end Tree.Embeds

/-! ## Orders of languages -/

namespace Language

variable {α : Type} {xs : List α} {q : α → Bool} {order : List Language}

theorem mem_all (l : Language) : l ∈ all := by
  cases l <;> decide

/-- The only one of some things that passes a test is found, in whatever order their languages are
tried. -/
theorem findSome?_eq_some (language : α → Language) (horder : ∀ l, l ∈ order) {x : α} (hx : x ∈ xs)
    (hq : q x = true) (hu : ∀ y ∈ xs, q y = true → y = x) :
    order.findSome? (fun l => xs.find? fun y => language y == l && q y) = some x := by
  cases hfound : order.findSome? (fun l => xs.find? fun y => language y == l && q y) with
  | none =>
    have hnone := List.findSome?_eq_none_iff.1 hfound (language x) (horder _)
    have hx := List.find?_eq_none.1 hnone x hx
    rw [hq, beq_self_eq_true, Bool.and_self] at hx
    exact absurd rfl hx
  | some y =>
    obtain ⟨l, -, hl⟩ := List.exists_of_findSome?_eq_some hfound
    have hy := List.find?_some hl
    rw [Bool.and_eq_true] at hy
    rw [hu y (List.mem_of_find?_eq_some hl) hy.2]

theorem findSome?_eq (language : α → Language) (horder : ∀ l, l ∈ order) {x? : Option α}
    (h : xs.filter q = x?.toList) :
    order.findSome? (fun l => xs.find? fun y => language y == l && q y) = x? := by
  cases x? with
  | none =>
    refine List.findSome?_eq_none_iff.2 fun l _ => List.find?_eq_none.2 fun y hy => ?_
    have hq := List.filter_eq_nil_iff.1 h y hy
    rw [Bool.and_eq_true]
    exact fun hand => hq hand.2
  | some x =>
    have hmem : ∀ y, y ∈ xs ∧ q y = true ↔ y = x := by
      intro y
      rw [← List.mem_filter, h, Option.toList_some, List.mem_singleton]
    obtain ⟨hx, hq⟩ := (hmem x).2 rfl
    exact findSome?_eq_some language horder hx hq fun y hy hqy => (hmem y).1 ⟨hy, hqy⟩

end Language

/-! ## Lines of stored mappings -/

/-- The mapping of a rendering has a line for each line of the text. -/
theorem Region.lineCount_render (source : String) (r : Region) :
    (r.render source).mapping.lineCount = (Text.lines (r.render source).text.toList).length := by
  unfold Region.render
  dsimp only
  generalize (Text.slice source.toList r.range.span.start r.range.span.stop).getD [] = body
  obtain ⟨l, ls, hl⟩ := List.exists_cons_of_ne_nil (Text.lines_ne_nil body)
  rw [hl, Rendering.lines_text hl, Rendering.ofLines_cons]
  simp [Rendering.shown, Mapping.lineCount]

/-- The mapping of a document begins where its range does, and has a line for each line of its text. -/
structure EmbeddedDocument.Mapped (d : EmbeddedDocument) : Prop where
  start_eq : d.mapping.start = d.range.start
  lineCount_eq : d.mapping.lineCount = (Text.lines d.text.toList).length

theorem EmbeddedDocument.mapped_ofRegion (host : Uri) (source : String) (r : Region) :
    (ofRegion host source r).Mapped :=
  ⟨Region.start_mapping source r, Region.lineCount_render source r⟩

/-- The positions of a region have a place in every document that is listed for it. -/
theorem EmbeddedDocument.Mapped.exists_toEmbedded {d : EmbeddedDocument} (hd : d.Mapped) {host : Uri}
    {source : String} {r : Region} (hentry : d.entry = r.entry host source) {body : List Char}
    (hbody : r.range.Covers source.toList body) {p : Position} (hp : r.range.touches p = true) :
    ∃ q, d.mapping.toEmbedded p = some q := by
  have hrange : d.range = r.range := congrArg (·.range) hentry
  have htext : d.text = (r.render source).text := congrArg (·.text) hentry
  have hcount := hd.lineCount_eq
  have hlast := (Region.faithful_of_covers hbody).start_add_lineCount
  rw [htext, ← Region.lineCount_render, Mapping.lineCount] at hcount
  rw [← hcount] at hlast
  obtain ⟨hstart, hstop⟩ := Range.touches_iff.1 hp
  rw [Position.le_iff] at hstart hstop
  have hline : p.line - r.range.start.line < d.mapping.stripped.length := by omega
  rw [Mapping.toEmbedded, hd.start_eq, hrange, if_pos (by omega), List.getElem?_eq_getElem hline]
  exact ⟨_, rfl⟩

namespace Store

variable {limit : Nat} {calls : List Call} {host : Uri} {d : EmbeddedDocument}

theorem Call.mapped_of_mem_documents {c : Call} (hd : d ∈ c.documents limit) : d.Mapped := by
  cases c with
  | text host source =>
    obtain ⟨r, -, rfl⟩ := List.mem_map.1 hd
    exact EmbeddedDocument.mapped_ofRegion ..
  | tree host t =>
    obtain ⟨r, -, rfl⟩ := List.mem_map.1 hd
    exact EmbeddedDocument.mapped_ofRegion ..
  | close host => cases hd

/-- A document keeps the mapping it was stored with only as long as it keeps its text and its range. -/
theorem mapped_of_mem_run (hd : d ∈ (run limit calls).ofHost host) : d.Mapped := by
  obtain ⟨before, c, after, -, -, ⟨⟨n, hn, hdn⟩, -⟩, -⟩ := exists_origin hd
  obtain ⟨hstart, hcount⟩ := Call.mapped_of_mem_documents hn
  rw [hdn]
  exact ⟨hstart, hcount⟩

/-! ## The owner of a position -/

theorem owner?_eq_findSome? (s : Store) (host : Uri) (p : Position) :
    s.owner? host p = Language.all.findSome? fun l =>
      (s.ofHost host).find? fun d => d.language == l && d.range.touches p := by
  rw [owner?]
  congr 1
  funext l
  rw [ofLanguage, List.find?_filter]
  simp only [Bool.decide_and, Bool.decide_eq_true]

theorem owner?_eq_of_filter {s : Store} {p : Position} {d? : Option EmbeddedDocument}
    (h : (s.ofHost host).filter (·.range.touches p) = d?.toList) : s.owner? host p = d? := by
  rw [owner?_eq_findSome?, Language.findSome?_eq EmbeddedDocument.language Language.mem_all h]

section LastText

variable {source : String} {t : Tree} (ht : parse limit source = .ok t)
  (hlast : lastCall? calls host = some (.text host source) ∨
    lastCall? calls host = some (.tree host t))

include ht hlast

/-- A host lists the regions of its last text, or of the tree of that text. -/
theorem map_entry_ofHost_run :
    ((run limit calls).ofHost host).map (·.entry) = t.regions.map (Region.entry host source) := by
  rw [entries_run]
  rcases hlast with hlast | hlast
  · rw [hlast, Option.map_some, Option.getD_some, Call.entries_text, Region.ofText, ht]
  · have hsource : t.source = source := by rw [(of_parse ht).2]
    rw [hlast, Option.map_some, Option.getD_some, Call.entries, Call.documents, List.map_map, hsource]
    rfl

/-- The owner of a position is listed for the region at the position. -/
theorem map_entry_owner? {p : Position} {region? : Option Region}
    (hregion : t.regions.filter (·.range.touches p) = region?.toList) :
    ((run limit calls).owner? host p).map (·.entry) = region?.map (Region.entry host source) := by
  have hentries : (((run limit calls).ofHost host).filter (·.range.touches p)).map (·.entry)
      = region?.toList.map (Region.entry host source) := by
    have h := congrArg (List.filter fun e : Entry => e.range.touches p) (map_entry_ofHost_run ht hlast)
    rw [List.filter_map, List.filter_map] at h
    rw [← hregion]
    exact h
  cases region? with
  | none =>
    have howner : (run limit calls).owner? host p = none :=
      owner?_eq_of_filter (List.map_eq_nil_iff.1 hentries)
    rw [howner]
    rfl
  | some r =>
    obtain ⟨d, hd, hentry⟩ := List.map_eq_singleton_iff.1 hentries
    have howner : (run limit calls).owner? host p = some d := owner?_eq_of_filter hd
    rw [howner]
    exact congrArg some hentry

/-- The owner of a position has a place for it. -/
theorem map_locate? (p : Position) :
    ((run limit calls).locate? host p).map (·.1) = (run limit calls).owner? host p := by
  cases howner : (run limit calls).owner? host p with
  | none => rw [locate?, howner]; rfl
  | some d =>
    obtain ⟨region?, hregion⟩ := (Tree.embeds_of_parse ht).exists_at p
    have hentry := map_entry_owner? ht hlast hregion
    rw [howner] at hentry
    obtain ⟨r, rfl, hrd⟩ := Option.map_eq_some_iff.1 hentry.symm
    have hmem : r ∈ t.regions.filter (·.range.touches p) := hregion ▸ List.mem_singleton_self r
    obtain ⟨hr, hp⟩ := List.mem_filter.1 hmem
    obtain ⟨-, body, hbody, -⟩ := (Tree.embeds_of_parse ht).solid r hr
    rw [show t.source = source by rw [(of_parse ht).2]] at hbody
    obtain ⟨l, -, hfound⟩ := List.exists_of_findSome?_eq_some howner
    have hd := (mem_ofLanguage.1 (List.mem_of_find?_eq_some hfound)).1
    obtain ⟨q, hq⟩ := (mapped_of_mem_run hd).exists_toEmbedded hrd.symm hbody hp
    rw [locate?, howner, Option.bind_some, hq]
    rfl

end LastText

/-- At most one region of a text is at a position, and it is found in whatever order the languages are
tried. After calls of which the last one on a host generated the documents of that text, the document of
this region owns the position, and has a place for it; if there is no such region, no document does. -/
theorem owner_of_position (limit : Nat) (source : String) (h : bytes source.toList ≤ limit) :
    ∃ t, parse limit source = .ok t ∧ ∀ p : Position, ∃ region? : Option Region,
      t.regions.filter (·.range.touches p) = region?.toList ∧
      Region.at? t.regions p = region? ∧
      (∀ order : List Language, (∀ l, l ∈ order) →
        order.findSome? (fun l => t.regions.find? fun r => r.language == l && r.range.touches p)
          = region?) ∧
      ∀ calls host, lastCall? calls host = some (.text host source) ∨
          lastCall? calls host = some (.tree host t) →
        ((run limit calls).owner? host p).map (·.uri)
          = region?.map (fun r => syntheticUri host r.language r.index) ∧
        ((run limit calls).locate? host p).map (·.1) = (run limit calls).owner? host p := by
  have ht := parse_eq_ok h
  refine ⟨_, ht, fun p => ?_⟩
  obtain ⟨region?, hregion⟩ := (Tree.embeds_of_parse ht).exists_at p
  refine ⟨region?, hregion, Language.findSome?_eq Region.language Language.mem_all hregion,
    fun order horder => Language.findSome?_eq Region.language horder hregion,
    fun calls host hlast => ⟨?_, map_locate? ht hlast p⟩⟩
  have hentry := congrArg (Option.map Entry.uri) (map_entry_owner? ht hlast hregion)
  rw [Option.map_map, Option.map_map] at hentry
  exact hentry

/-- Two expressions side by side, a task with two lines of blanks, and a definition right after it. -/
def crowdedCode (first second : String) : String :=
  "A = \"$\x7b@a\x7d$\x7b@b\x7d\"\npython f() \x7b\n  a\n" ++ first ++ "\n" ++ second
    ++ "\n  b\n\x7d\ndef g():\n  pass\n"

/-- The lines of blanks change places, so the task keeps a mapping that is out of date on them, and
another host is opened and closed. -/
def crowdedCalls : List Call :=
  [.text ⟨"file:///a.bb"⟩ (crowdedCode "" " "), .text ⟨"file:///b.bb"⟩ "def h():\n  pass\n",
    .text ⟨"file:///a.bb"⟩ (crowdedCode " " ""), .close ⟨"file:///b.bb"⟩]

theorem owner_of_position_crowdedCode :
    bytes (crowdedCode " " "").toList ≤ 128 ∧
    lastCall? crowdedCalls ⟨"file:///a.bb"⟩ = some (.text ⟨"file:///a.bb"⟩ (crowdedCode " " "")) ∧
    ∃ t, parse 128 (crowdedCode " " "") = .ok t ∧ ∀ p : Position, ∃ region? : Option Region,
      t.regions.filter (·.range.touches p) = region?.toList ∧
      Region.at? t.regions p = region? ∧
      [Language.python, .shell].findSome?
        (fun l => t.regions.find? fun r => r.language == l && r.range.touches p) = region? ∧
      ((run 128 crowdedCalls).owner? ⟨"file:///a.bb"⟩ p).map (·.uri)
        = region?.map (fun r => syntheticUri ⟨"file:///a.bb"⟩ r.language r.index) ∧
      ((run 128 crowdedCalls).locate? ⟨"file:///a.bb"⟩ p).map (·.1)
        = (run 128 crowdedCalls).owner? ⟨"file:///a.bb"⟩ p := by
  have hlast : lastCall? crowdedCalls ⟨"file:///a.bb"⟩
      = some (.text ⟨"file:///a.bb"⟩ (crowdedCode " " "")) := by
    simp [lastCall?, crowdedCalls, Call.host]
  obtain ⟨t, ht, howner⟩ := owner_of_position 128 (crowdedCode " " "") (by decide)
  refine ⟨by decide, hlast, t, ht, fun p => ?_⟩
  obtain ⟨region?, hregion, hat, horder, hcalls⟩ := howner p
  have hall : ∀ l, l ∈ [Language.python, .shell] := fun l => by cases l <;> decide
  exact ⟨region?, hregion, hat, horder _ hall, hcalls crowdedCalls _ (.inl hlast)⟩

end Store

end Recipe
