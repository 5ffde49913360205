import Recipe.Proofs.Embedded.Owner
import Recipe.Proofs.Embedded.Place
import Recipe.Proofs.Server.Columns
import Recipe.Proofs.Server.Mirror
import Recipe.Server.Requests

/-!
# Forwarded positions

A client that asks about a place in embedded code is sent on to the document of that code. The store of
a server is that of a run of calls on texts (`Launch.exists_calls`), so every document in it was once
rendered from a region with its text and its range, and on lines that are not blank its mapping is that
of the region now. At most one region is at the place (`Tree.Embeds.eq_of_touches`). Its document is
found by its uri as long as no other host has the same synthetic uri (`Store.document?_of_mem_run`);
then the client is sent to a place from which the same code follows (`Launch.forwards_to_same_code`).
A host with the same synthetic uri can take the document away (`Launch.embeddedInfo?_of_shared_uri`).
-/

namespace Recipe

open Text (bytes)

/-! ## Runs of the store -/

namespace Store

variable {limit : Nat} {calls : List Call} {host : Uri} {d : EmbeddedDocument}

/-- None of some hosts, unless it is the given one, has a synthetic uri of it. -/
def ApartFrom (host : Uri) (hosts : List Uri) : Prop :=
  ∀ h ∈ hosts, ∀ l l' i i', syntheticUri h l i = syntheticUri host l' i' → h = host

/-- A document of a host is found by its uri, if no other host has the same uri. -/
theorem document?_of_mem_run (ha : ApartFrom host (calls.map Call.host))
    (hd : d ∈ (run limit calls).ofHost host) : (run limit calls).document? d.uri = some d := by
  induction calls using List.reverseRecOn with
  | nil => cases hd
  | append_singleton calls c ih =>
    have ho := documentsOf_run limit calls c.host
    have hn := c.documentsOf_documents limit
    rw [run_concat, ofHost_replace] at hd
    rw [run_concat]
    split at hd
    · exact document?_replace_of_mem ho hn hd
    · rename_i hne
      -- The documents of the call have other uris.
      have hother : ∀ ds, DocumentsOf c.host ds → d.uri ∉ ds.map (·.uri) := by
        intro ds hds hm
        obtain ⟨e, he, hu⟩ := List.mem_map.1 hm
        rw [hds.uri_eq e he, (documentsOf_run limit calls host).uri_eq d hd] at hu
        exact hne (ha c.host (by simp) _ _ _ _ hu).symm
      rw [document?_replace_of_other ho hn (hother _ ho) (hother _ hn)]
      exact ih (fun h hm => ha h (by simp at hm ⊢; exact .inl hm)) hd

/-- Every stored document was rendered from a region with its text and its range. -/
theorem exists_rendering (hc : ∀ c ∈ calls, c.onText = true) (hd : d ∈ (run limit calls).ofHost host) :
    ∃ source r, Region.Placed source r ∧ d.text = (r.render source).text ∧ d.range = r.range ∧
      d.mapping = (r.render source).mapping := by
  obtain ⟨source, r, -, -, t, -, ht, hr, hdr, -⟩ := exists_storedSince hc hd
  exact ⟨source, r, placed_of_mem_regions ht hr, congrArg (·.text) hdr, congrArg (·.range) hdr,
    congrArg (·.mapping) hdr⟩

/-- The only document at a place owns it. -/
theorem owner?_eq {s : Store} {p : Position} (hd : d ∈ s.ofHost host) (ht : d.range.touches p = true)
    (hu : ∀ e ∈ s.ofHost host, e.range.touches p = true → e = d) : s.owner? host p = some d := by
  rw [owner?_eq_findSome?]
  exact Language.findSome?_eq_some EmbeddedDocument.language Language.mem_all hd ht hu

end Store

theorem Mapping.toEmbedded_congr {m m' : Mapping} (hs : m.start = m'.start) {p : Position}
    (h : m.stripped[p.line - m'.start.line]? = m'.stripped[p.line - m'.start.line]?) :
    m.toEmbedded p = m'.toEmbedded p := by
  rw [toEmbedded, toEmbedded, hs, h]

/-! ## The calls of a server -/

theorem Act.onText_call (settings : Settings) (a : Act) : (a.call settings).onText = true := by
  cases a with
  | refresh uri version? text =>
    rw [call]
    split <;> rfl
  | close uri => rfl

/-- Acts make their calls one after the other. -/
theorem Server.store_performAll {s : Server} (hr : s.Ready) {calls : List Store.Call}
    (hs : s.store = Store.run s.limit calls) (acts : List Act) :
    (s.performAll acts).1.store
      = Store.run s.limit (calls ++ acts.map (·.call s.settings)) := by
  induction acts generalizing s calls with
  | nil => rw [List.map_nil, List.append_nil]; exact hs
  | cons a acts ih =>
    have hterms := sameTerms_perform hr a
    have hstore : (s.perform a).1.store
        = Store.run (s.perform a).1.limit (calls ++ [a.call s.settings]) := by
      rw [store_perform hr.limit, hterms.limit, Store.run_concat, Act.host_call, hs]
    rw [performAll, ih (hr.perform a) hstore, hterms.limit, hterms.settings, List.map_cons,
      List.append_assoc]
    rfl

namespace Launch

/-- The store of a server is that of some calls on texts of the documents that the events name. -/
theorem exists_calls (l : Launch) {es : List ServerEvent} (he : ∀ e ∈ es, e.isHandshake = false) :
    ∃ calls, (l.server es).store = Store.run l.limit calls ∧
      ∀ c ∈ calls, c.onText = true ∧ c.host ∈ es.filterMap ServerEvent.uri? := by
  induction es using List.reverseRecOn with
  | nil => exact ⟨[], rfl, List.forall_mem_nil _⟩
  | append_singleton es e ih =>
    have hes : ∀ e' ∈ es, e'.isHandshake = false := fun e' h => he e' (List.mem_append_left _ h)
    have hholds := l.holds_server hes
    obtain ⟨calls, hstore, hcalls⟩ := ih hes
    obtain ⟨hlimit, -⟩ := hholds.prepare e
    have hprepare : ((l.server es).prepare e).store = (l.server es).store := by cases e <;> rfl
    have hall := Server.store_performAll (hholds.ready.prepare e)
      (by rw [hprepare, hlimit, hstore]) ((l.server es).acts e)
    rw [← Server.apply_eq hholds.ready (he e (by simp)), hlimit] at hall
    refine ⟨_, by rw [server_concat]; exact hall, List.forall_mem_append.2 ⟨fun c hc => ?_, ?_⟩⟩
    · rw [List.filterMap_append]
      exact ⟨(hcalls c hc).1, List.mem_append_left _ (hcalls c hc).2⟩
    · intro c hc
      obtain ⟨a, ha, rfl⟩ := List.mem_map.1 hc
      rw [Act.host_call]
      exact ⟨Act.onText_call _ a, hholds.uri_mem_of_mem_acts ha⟩

/-- Documents of a host are found by their uris, if the events name no host that shares them. -/
theorem document?_of_mem_ofHost (l : Launch) {es : List ServerEvent}
    (he : ∀ e ∈ es, e.isHandshake = false) {uri : Uri}
    (ha : Store.ApartFrom uri (es.filterMap ServerEvent.uri?)) {d : EmbeddedDocument}
    (hd : d ∈ (l.server es).store.ofHost uri) : (l.server es).store.document? d.uri = some d := by
  obtain ⟨calls, hstore, hcalls⟩ := l.exists_calls he
  rw [hstore] at hd ⊢
  refine Store.document?_of_mem_run (fun h hm => ?_) hd
  obtain ⟨c, hc, rfl⟩ := List.mem_map.1 hm
  exact ha c.host (hcalls c hc).2

/-! ## Embedded documents of an open text -/

section OpenText

variable {l : Launch} {es : List ServerEvent} {uri : Uri} {text : String} {t : Tree} {r : Region}
  (he : ∀ e ∈ es, e.isHandshake = false) (hon : (l.settings es).embeddedDocuments = true)
  (ho : openText? es uri = some text) (ht : parse l.limit text = .ok t)

include he hon ho ht

theorem map_entry_ofHost :
    ((l.server es).store.ofHost uri).map (·.entry) = t.regions.map (Region.entry uri text) := by
  rw [entries_server he, ho, Settings.entries, if_pos hon, Region.ofText, ht]

/-- Every region of the tree has a document in the store with its entry and start. The mapping of
the document may be older, but agrees on lines that are not blank. -/
theorem exists_document (hr : r ∈ t.regions) : ∃ d ∈ (l.server es).store.ofHost uri,
    d.entry = r.entry uri text ∧ d.mapping.start = (r.render text).mapping.start ∧
      ∀ i, Text.isBlankLine (r.render text).text.toList i = false →
        d.mapping.stripped[i]? = (r.render text).mapping.stripped[i]? := by
  obtain ⟨calls, hstore, hcalls⟩ := l.exists_calls he
  have hmem : r.entry uri text ∈ ((l.server es).store.ofHost uri).map (·.entry) := by
    rw [map_entry_ofHost he hon ho ht]
    exact List.mem_map_of_mem hr
  obtain ⟨d, hd, hentry⟩ := List.mem_map.1 hmem
  obtain ⟨source, s, hplaced, htext, hrange, hmapping⟩ :=
    Store.exists_rendering (fun c hc => (hcalls c hc).1) (hstore ▸ hd)
  have htext' : d.text = (r.render text).text := congrArg (·.text) hentry
  have hrange' : d.range = r.range := congrArg (·.range) hentry
  obtain ⟨hstart, hlines⟩ := Region.mapping_agrees (placed_of_mem_regions ht hr) hplaced
    (hrange'.symm.trans hrange) (htext'.symm.trans htext)
  rw [← hmapping] at hstart hlines
  exact ⟨d, hd, hentry, hstart.symm, fun i hi => (hlines i hi).symm⟩

/-- The document of the region at a place owns it. -/
theorem owner?_of_touches (hr : r ∈ t.regions) {p : Position} (hp : r.range.touches p = true)
    {d : EmbeddedDocument} (hd : d ∈ (l.server es).store.ofHost uri) (hentry : d.entry = r.entry uri text) :
    (l.server es).store.owner? uri p = some d := by
  have hrange : d.range = r.range := congrArg (·.range) hentry
  refine Store.owner?_eq hd (hrange ▸ hp) fun e hem hep => ?_
  have hmem : e.entry ∈ t.regions.map (Region.entry uri text) := by
    rw [← map_entry_ofHost he hon ho ht]
    exact List.mem_map_of_mem hem
  obtain ⟨s, hs, hse⟩ := List.mem_map.1 hmem
  have hsp : s.range.touches p = true := by
    rw [show s.range = e.range from congrArg (·.range) hse]
    exact hep
  rw [(Tree.embeds_of_parse ht).eq_of_touches hs hr hsp hp] at hse
  exact ((l.holds_server he).ready.documentsOf uri).eq_of_uri hem hd
    (congrArg (·.uri) (hse.symm.trans hentry.symm))

end OpenText

/-! ## Forwarding -/

/-- A client that asked about place `p` of a host, in region `r` of its text, is sent to the code that
stands there. -/
structure Forwards (s : Server) (host : Uri) (text : String) (r : Region) (p : Position)
    (i : EmbeddedInfo) : Prop where
  /-- The document is the one that is listed for the region, with its version. -/
  listed : i.document ∈ s.store.ofHost host
  uri_eq : i.document.uri = syntheticUri host r.language r.index
  text_eq : i.document.text = (r.render text).text
  /-- On its line of the document, the code of the host follows the place as the client understands
  it. -/
  code : ∃ k front rest, (Columns.ofText s.encoding i.document.text).ofClient i.position = ⟨k, bytes front⟩ ∧
    (Text.lines i.document.text.toList)[k]? = some (front ++ rest) ∧ r.codeFrom text p = some rest

/-- A client that asks about a place in embedded code is sent to the same code, on lines that are not
blank and after what they lose, whatever was done before. No other host may have the same synthetic
uri, and every column of a text within the limit has to fit into a word. -/
theorem forwards_to_same_code (l : Launch) (hl : l.limit < UInt32.size) {es : List ServerEvent}
    (he : ∀ e ∈ es, e.isHandshake = false) (hon : (l.settings es).embeddedDocuments = true) {uri : Uri}
    (ha : Store.ApartFrom uri (es.filterMap ServerEvent.uri?)) {text : String}
    (ho : openText? es uri = some text) {t : Tree} (ht : parse l.limit text = .ok t) {r : Region}
    (hr : r ∈ t.regions) {n : Nat} {pre post : List Char}
    (hline : (Text.lines text.toList)[n]? = some (pre ++ post))
    (hsolid : (pre ++ post).all Text.isBlank = false)
    (hp : r.range.touches ⟨n, bytes pre⟩ = true)
    (hcut : ((r.render text).mapping.stripped[n - r.range.start.line]?).getD 0 ≤ bytes pre) :
    ∃ i, (l.server es).embeddedInfo? uri ⟨n, (l.server es).encoding.width pre⟩ = some i ∧
      Forwards (l.server es) uri text r ⟨n, bytes pre⟩ i := by
  obtain ⟨d, hd, hentry, hstart, hstripped⟩ := exists_document he hon ho ht hr
  have htext : d.text = (r.render text).text := congrArg (·.text) hentry
  obtain ⟨hsize, htree⟩ := of_parse ht
  obtain ⟨body, hbody, hb⟩ := ((Tree.embeds_of_parse ht).solid r hr).2
  rw [show t.source = text by rw [htree]] at hbody
  obtain ⟨front, rest, hplace, hshown, hcode, hblank⟩ := Region.exists_place hbody hb hline hp hcut
  rw [← htext] at hshown
  have hembedded : d.mapping.toEmbedded ⟨n, bytes pre⟩ = some ⟨n - r.range.start.line, bytes front⟩ := by
    rw [← hplace]
    refine Mapping.toEmbedded_congr hstart ?_
    rw [Region.start_mapping]
    exact hstripped _ (hblank hsolid)
  have hbegins : Text.LineBegins d.text.toList (n - r.range.start.line) front := ⟨rest, hshown⟩
  have hword : bytes d.text.toList < UInt32.size := by
    rw [htext]
    exact Nat.lt_of_le_of_lt (Nat.le_trans (Region.bytes_render_le hbody) hsize) hl
  refine ⟨⟨d, (Columns.ofText (l.server es).encoding d.text).toClient
    ⟨n - r.range.start.line, bytes front⟩⟩, ?_, hd, congrArg (·.uri) hentry, htext,
    _, front, rest, Columns.ofClient_toClient _ hbegins hword, hshown, hcode⟩
  rw [Server.embeddedInfo?, (l.holds_server he).document?, ho, Option.map_some, Option.bind_some,
    Server.columns, Document.text_read, Columns.ofClient_width _ ⟨post, hline⟩, Store.locate?,
    owner?_of_touches he hon ho ht hr hp hd hentry, Option.bind_some, hembedded, Option.map_some,
    Option.bind_some]
  dsimp only
  rw [l.document?_of_mem_ofHost he ha hd, Option.map_some]

/-- A python task with wide characters, and lines of blanks between them. -/
def wideTask (first second : String) : String :=
  "python f() \x7b\n  é\n" ++ first ++ "\n" ++ second ++ "\n  𝄞 = 1\n\x7d\n"

/-- The lines of blanks change places, so the document keeps a mapping that is out of date on them. -/
def wideTaskEvents : List ServerEvent :=
  [.opened ⟨"file:///a.bb"⟩ 1 (wideTask "" " "), .changed ⟨"file:///a.bb"⟩ 2 [wideTask " " ""]]

/-- The only region of the task. -/
def wideTaskRegion : Region :=
  ⟨.python, ⟨⟨15, 31⟩, ⟨1, 2⟩, ⟨4, 10⟩⟩, 0, true⟩

/-- After the last wide character of the task: four units and six bytes. -/
theorem forwards_to_same_code_wideTask :
    ((server ⟨64, 10, none, [], .stored⟩ wideTaskEvents).store.ofHost ⟨"file:///a.bb"⟩).map
      (·.mapping.stripped) = [[2, 0, 1, 2]] ∧
    (wideTaskRegion.render (wideTask " " "")).mapping.stripped = [2, 1, 0, 2] ∧
    ∃ i, (server ⟨64, 10, none, [], .stored⟩ wideTaskEvents).embeddedInfo? ⟨"file:///a.bb"⟩ ⟨4, 4⟩ = some i ∧
      Forwards (server ⟨64, 10, none, [], .stored⟩ wideTaskEvents) ⟨"file:///a.bb"⟩ (wideTask " " "")
        wideTaskRegion ⟨4, 6⟩ i := by
  have he : ∀ e ∈ wideTaskEvents, e.isHandshake = false := by
    simp [wideTaskEvents, ServerEvent.isHandshake]
  have ha : Store.ApartFrom ⟨"file:///a.bb"⟩ (wideTaskEvents.filterMap ServerEvent.uri?) := by
    intro h hm
    simp_all [wideTaskEvents, ServerEvent.uri?]
  have hr : wideTaskRegion
      ∈ (Tree.mk (wideTask " " "") (some (rootNode (wideTask " " "").toList))).regions := by
    decide +kernel
  have hline : (Text.lines (wideTask " " "").toList)[4]? = some ("  𝄞".toList ++ " = 1".toList) := by
    decide +kernel
  have hwidth : (server ⟨64, 10, none, [], .stored⟩ wideTaskEvents).encoding.width "  𝄞".toList = 4 := by
    decide +kernel
  have h := forwards_to_same_code ⟨64, 10, none, [], .stored⟩ (by decide) he (by decide +kernel) ha
    (by decide +kernel) (parse_eq_ok (by decide +kernel)) hr hline (by decide +kernel)
    (by decide +kernel) (by decide +kernel)
  rw [hwidth, show bytes "  𝄞".toList = 6 by decide +kernel] at h
  exact ⟨by decide +kernel, by decide +kernel, h⟩

/-- Two hosts have the same synthetic uris; the second one is opened and closed while the first one is
open. -/
def sharedEvents : List ServerEvent :=
  [.opened ⟨"x:/a"⟩ 1 "do_a() \x7b\n  foo\n\x7d\n", .opened ⟨"x:///a"⟩ 1 "do_b() \x7b\n  y\n\x7d\n",
    .closed ⟨"x:///a"⟩]

/-- The document of a host that is open is gone, and there is no answer at a place of its code. -/
theorem embeddedInfo?_of_shared_uri :
    (settings ⟨64, 10, none, ["utf-8"], .stored⟩ sharedEvents).embeddedDocuments = true ∧
    openText? sharedEvents ⟨"x:/a"⟩ = some "do_a() \x7b\n  foo\n\x7d\n" ∧
    (Region.ofText 64 "do_a() \x7b\n  foo\n\x7d\n").map (fun r => (r.range.start, r.range.stop))
      = [(⟨1, 2⟩, ⟨1, 5⟩)] ∧
    (server ⟨64, 10, none, ["utf-8"], .stored⟩ sharedEvents).embeddedInfo? ⟨"x:/a"⟩ ⟨1, 3⟩ = none := by
  decide +kernel

end Launch

end Recipe
