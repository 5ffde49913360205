import Recipe.Proofs.Server.Columns
import Recipe.Proofs.Server.Freshness
import Recipe.Proofs.Server.Recode
import Recipe.Proofs.Tree.Nodes
import Recipe.Server.Requests

/-!
# Encodings do not change what is meant

A client that knows the texts it has opened can turn the ranges it gets back into ranges of bytes. What
it then has is what the analysis of those texts gives: the description and the declaration at the place
it asked about, the outline, the symbols and the diagnostics. The encoding is not seen any more. So of
two clients that offer different encodings and do the same, both understand the same
(`Launch.encodings_same_meaning`), if every column of a text within the limit fits into a word. With the
default limit this is so (`Launch.sameMeaning_of_defaultLimit`).
-/

namespace Recipe

open Text (bytes)

/-! ## What a client understands -/

namespace Columns

/-- The columns that a client counts in a document as it has opened and changed it. -/
def ofHistory (e : Encoding) (es : List ServerEvent) (uri : Uri) : Columns :=
  ofText e ((openText? es uri).getD "")

/-- A diagnostic as the client understands it. -/
def diagnosticOfClient (c : Columns) (d : ClientDiagnostic) : Diagnostic :=
  ⟨c.rangeOfClient d.range, d.message⟩

/-- An entry of an outline as the client understands it. -/
def entryOfClient (c : Columns) (e : ClientEntry) : OutlineEntry :=
  { name := e.name, detail := e.detail, kind := e.kind, range := c.rangeOfClient e.range,
    selection := c.rangeOfClient e.selection }

/-- A symbol as the client understands it. -/
def symbolOfClient (c : Columns) (s : ClientSymbol) : Symbol :=
  ⟨s.name, s.kind, c.rangeOfClient s.location.range, s.location.uri⟩

/-- A description as the client understands it. -/
def hoverOfClient (c : Columns) (h : ClientHover) : Hover :=
  ⟨c.rangeOfClient h.range, h.contents⟩

section Read

variable {limit : Nat} {uri : Uri} {text : String} (hl : limit < UInt32.size) (e : Encoding)

include hl

/-- The ranges of a document's nodes are understood. -/
theorem rangeOfClient_of_hasRange {r : Range} (h : (Document.read limit uri text).tree.HasRange r) :
    (ofText e text).rangeOfClient ((ofText e text).rangeToClient r) = r := by
  obtain ⟨n, hn, rfl⟩ := h
  obtain ⟨hw, hs⟩ := Document.wellPlaced_of_mem_nodes hn
  exact rangeOfClient_rangeToClient e hw (Nat.lt_of_le_of_lt hs hl)

theorem diagnosticOfClient_diagnostic {d : Diagnostic}
    (h : d ∈ (Document.read limit uri text).tree.diagnostics) :
    (ofText e text).diagnosticOfClient ((ofText e text).diagnostic d) = d := by
  have hr := rangeOfClient_of_hasRange hl e (Tree.hasRange_of_mem_diagnostics h)
  simp only [diagnosticOfClient, diagnostic, hr]

theorem entryOfClient_entry {x : OutlineEntry} (h : x ∈ (Document.read limit uri text).tree.outline) :
    (ofText e text).entryOfClient ((ofText e text).entry x) = x := by
  obtain ⟨hr, hs⟩ := Tree.hasRange_of_mem_outline h
  simp only [entryOfClient, entry, rangeOfClient_of_hasRange hl e hr, rangeOfClient_of_hasRange hl e hs]

theorem symbolOfClient_symbol {x : Symbol}
    (h : x ∈ (Document.read limit uri text).declarations.values) :
    (ofText e text).symbolOfClient ((ofText e text).symbol x) = x := by
  have hr := rangeOfClient_of_hasRange hl e (Document.of_mem_declarations h).2
  simp only [symbolOfClient, symbol, hr]

end Read

end Columns

/-- Diagnostics that are published, as the client understands them. -/
structure Report where
  time : Nat
  uri : Uri
  items : List Diagnostic
  version? : Option Int

namespace Server

variable (s : Server) (es : List ServerEvent)

/-- The description at a place, asked for and understood by a client that has sent `es`. The place is
given by what stands before it on its line. -/
def hoverAt? (uri : Uri) (n : Nat) (pre : List Char) : Option Hover :=
  (s.hover? uri ⟨n, s.encoding.width pre⟩).map (Columns.ofHistory s.encoding es uri).hoverOfClient

/-- The declaration of what stands at a place: its document, and its range there. -/
def definitionAt? (uri : Uri) (n : Nat) (pre : List Char) : Option (Uri × Range) :=
  (s.definition? uri ⟨n, s.encoding.width pre⟩).map fun x =>
    (x.uri, (Columns.ofHistory s.encoding es x.uri).rangeOfClient x.range)

/-- The outline of a document. -/
def outlineOf? (uri : Uri) : Option (List OutlineEntry) :=
  (s.outline? uri).map (List.map (Columns.ofHistory s.encoding es uri).entryOfClient)

/-- The symbols that a query finds. -/
def symbolsFor (query : String) : List Symbol :=
  (s.workspaceSymbols query).map fun x =>
    (Columns.ofHistory s.encoding es x.location.uri).symbolOfClient x

/-- What is published with one more event. -/
def reports (e : ServerEvent) : List Report :=
  (s.postings e).map fun p => ⟨p.time, p.uri,
    p.items.map (Columns.ofHistory s.encoding (es ++ [e]) p.uri).diagnosticOfClient, p.version?⟩

end Server

/-! ## What it is -/

/-- Symbols are listed by name, then by uri. -/
def Symbol.listedLe (a b : Symbol) : Bool :=
  decide (a.name < b.name) || a.name == b.name && a.uri.textLe b.uri

/-- The declarations of all documents that a query in lower case asks for. -/
def Workspace.symbolsFor (v : Workspace) (query : String) : List Symbol :=
  ((v.slots.values.map Slot.document).flatMap fun d =>
    d.declarations.values.filter (Server.matchesQuery query)).mergeSort Symbol.listedLe

namespace Launch

/-- The diagnostics of a document, if they are switched on and the document is open. -/
def found (l : Launch) (es : List ServerEvent) (uri : Uri) : List Diagnostic :=
  match openText? es uri with
  | some text => if (l.settings es).diagnostics then Diagnostic.ofText l.limit text else []
  | none => []

theorem found_eq (l : Launch) (hl : l.limit < UInt32.size) (es : List ServerEvent) (uri : Uri) :
    (l.value es uri).map (Columns.ofHistory (.negotiate l.encodings) es uri).diagnosticOfClient
      = l.found es uri := by
  unfold value found Columns.ofHistory
  cases openText? es uri with
  | none => rfl
  | some text =>
    dsimp only [Option.getD_some]
    split
    · rw [List.map_map]
      refine (List.map_congr_left fun d hd => ?_).trans (List.map_id' _)
      have hmem : d ∈ (Document.read l.limit uri text).tree.diagnostics := by rwa [diagnostics_read]
      exact Columns.diagnosticOfClient_diagnostic hl _ hmem
    · rfl

theorem columns_of_openText? {es : List ServerEvent} {uri : Uri} {text : String}
    (ht : openText? es uri = some text) (s : Server) (limit : Nat) :
    s.columns (.read limit uri text) = Columns.ofText s.encoding text ∧
      Columns.ofHistory s.encoding es uri = Columns.ofText s.encoding text := by
  rw [Server.columns, Document.text_read, Columns.ofHistory, ht]
  exact ⟨rfl, rfl⟩

/-! ### Open documents -/

section Answers

variable {l : Launch} {es : List ServerEvent} {s : Server} (h : l.Holds es s) (hl : l.limit < UInt32.size)

include h

/-- A client's place is understood by the server. -/
theorem Holds.place?_eq {uri : Uri} {text : String} {n : Nat} {pre : List Char}
    (ht : openText? es uri = some text) (hp : Text.LineBegins text.toList n pre) :
    s.place? uri ⟨n, s.encoding.width pre⟩
      = if (s.store.owner? uri ⟨n, bytes pre⟩).isSome then none
        else some (.read l.limit uri text, ⟨n, bytes pre⟩) := by
  rw [Server.place?, h.document?, ht, Option.map_some, Option.bind_some, (columns_of_openText? ht s l.limit).1,
    Columns.ofClient_width s.encoding hp]

/-- The documents of the workspace are those that are open. -/
theorem Holds.mem_documents {d : Document} :
    d ∈ s.workspace.slots.values.map Slot.document ↔
      ∃ uri text, openText? es uri = some text ∧ Document.read l.limit uri text = d := by
  have hdoc : ∀ uri, s.workspace.document? uri = some d ↔
      ∃ text, openText? es uri = some text ∧ Document.read l.limit uri text = d := by
    intro uri
    rw [h.document?, Option.map_eq_some_iff]
  simp only [← hdoc, List.mem_map, Table.mem_values, Workspace.document?, Option.map_eq_some_iff]
  constructor
  · rintro ⟨slot, ⟨uri, hs⟩, hd⟩
    exact ⟨uri, slot, hs, hd⟩
  · rintro ⟨uri, slot, hs, hd⟩
    exact ⟨slot, ⟨uri, hs⟩, hd⟩

theorem Holds.mem_symbolsFor {query : String} {x : Symbol} :
    x ∈ s.workspace.symbolsFor query ↔ ∃ uri text, openText? es uri = some text ∧
      x ∈ (Document.read l.limit uri text).declarations.values ∧ Server.matchesQuery query x = true := by
  rw [Workspace.symbolsFor, List.mem_mergeSort, List.mem_flatMap]
  simp only [h.mem_documents, List.mem_filter]
  constructor
  · rintro ⟨d, ⟨uri, text, ht, rfl⟩, hx⟩
    exact ⟨uri, text, ht, hx⟩
  · rintro ⟨uri, text, ht, hx⟩
    exact ⟨_, ⟨uri, text, ht, rfl⟩, hx⟩

include hl

theorem Holds.hoverAt?_eq {uri : Uri} {text : String} {n : Nat} {pre : List Char}
    (ht : openText? es uri = some text) (hp : Text.LineBegins text.toList n pre) :
    s.hoverAt? es uri n pre = if (s.store.owner? uri ⟨n, bytes pre⟩).isSome then none
      else (Document.read l.limit uri text).hover? ⟨n, bytes pre⟩ := by
  obtain ⟨hc, hh⟩ := columns_of_openText? ht s l.limit
  rw [Server.hoverAt?, Server.hover?, h.place?_eq ht hp, hh]
  split
  · rfl
  · rw [Option.bind_some, Option.map_map, hc]
    refine (Option.map_congr fun x hx => ?_).trans Option.map_id'
    have hr := Columns.rangeOfClient_of_hasRange hl s.encoding (Document.hasRange_of_hover? hx)
    simp only [Function.comp_apply, Columns.hoverOfClient, hr]

theorem Holds.definitionAt?_eq {uri : Uri} {text : String} {n : Nat} {pre : List Char}
    (ht : openText? es uri = some text) (hp : Text.LineBegins text.toList n pre) :
    s.definitionAt? es uri n pre = if (s.store.owner? uri ⟨n, bytes pre⟩).isSome then none
      else ((Document.read l.limit uri text).definition? ⟨n, bytes pre⟩).map
        fun x => (uri, x.range) := by
  obtain ⟨hc, hh⟩ := columns_of_openText? ht s l.limit
  rw [Server.definitionAt?, Server.definition?, h.place?_eq ht hp]
  split
  · rfl
  · rw [Option.bind_some, Option.map_map, hc]
    refine Option.map_congr fun x hx => ?_
    obtain ⟨hu, hr⟩ := Document.of_mem_declarations (Document.mem_values_of_definition? hx)
    simp only [Function.comp_apply, hu, hh, Columns.rangeOfClient_of_hasRange hl s.encoding hr]

theorem Holds.outlineOf?_eq (uri : Uri) : s.outlineOf? es uri
    = (openText? es uri).map fun text => (Document.read l.limit uri text).tree.outline := by
  rw [Server.outlineOf?, Server.outline?, h.document?]
  cases ht : openText? es uri with
  | none => rfl
  | some text =>
    obtain ⟨hc, hh⟩ := columns_of_openText? ht s l.limit
    simp only [Option.map_some, hc, hh, List.map_map]
    refine congrArg some ((List.map_congr_left fun x hx => ?_).trans (List.map_id' _))
    exact Columns.entryOfClient_entry hl s.encoding hx

/-- Every workspace symbol is understood as the declaration that it stands for. -/
theorem Holds.symbolsFor_eq (query : String) :
    s.symbolsFor es query = s.workspace.symbolsFor (Text.lower query) := by
  refine (List.map_mergeSort (s := Symbol.listedLe) fun _ _ _ _ => rfl).trans ?_
  rw [Workspace.symbolsFor, List.map_flatMap]
  congr 1
  refine List.flatMap_congr fun d hd => ?_
  obtain ⟨uri, text, ht, rfl⟩ := h.mem_documents.1 hd
  obtain ⟨hc, hh⟩ := columns_of_openText? ht s l.limit
  rw [Server.documentSymbols, List.map_map, hc]
  refine (List.map_congr_left fun x hx => ?_).trans (List.map_id' _)
  have hx := (List.mem_filter.1 hx).1
  have hu : ((Columns.ofText s.encoding text).symbol x).location.uri = uri :=
    (Document.of_mem_declarations hx).1
  rw [Function.comp_apply, hu, hh, Columns.symbolOfClient_symbol hl s.encoding hx]

/-- What is published is understood as the diagnostics of the text. -/
theorem Holds.reports_eq (hw : l.Watched es s) {e : ServerEvent} (he : e.isHandshake = false) :
    s.reports es e = ((s.postings e).map Posting.heading).map fun x =>
      ⟨x.1, x.2.1, l.found (es ++ [e]) x.2.1, x.2.2⟩ := by
  rw [Server.reports, List.map_map]
  refine List.map_congr_left fun p hp => ?_
  rw [(hw.origin h he hp).2.1, h.encoding, found_eq l hl]
  rfl

end Answers

/-! ## Two runs -/

/-- What two servers tell their clients, who both have sent `es`, is understood as the same, and as what
the analysis of the open texts gives. At places of embedded code there is no answer. -/
structure SameMeaning (l : Launch) (es : List ServerEvent) (s t : Server) : Prop where
  hover : ∀ uri text n pre, openText? es uri = some text → Text.LineBegins text.toList n pre →
    s.hoverAt? es uri n pre = t.hoverAt? es uri n pre ∧
      s.hoverAt? es uri n pre = if (s.store.owner? uri ⟨n, bytes pre⟩).isSome then none
        else (Document.read l.limit uri text).hover? ⟨n, bytes pre⟩
  definition : ∀ uri text n pre, openText? es uri = some text → Text.LineBegins text.toList n pre →
    s.definitionAt? es uri n pre = t.definitionAt? es uri n pre ∧
      s.definitionAt? es uri n pre = if (s.store.owner? uri ⟨n, bytes pre⟩).isSome then none
        else ((Document.read l.limit uri text).definition? ⟨n, bytes pre⟩).map fun x => (uri, x.range)
  outline : ∀ uri, s.outlineOf? es uri = t.outlineOf? es uri ∧
    s.outlineOf? es uri
      = (openText? es uri).map fun text => (Document.read l.limit uri text).tree.outline
  symbols : ∀ query, s.symbolsFor es query = t.symbolsFor es query ∧
    ∀ x, x ∈ s.symbolsFor es query ↔ ∃ uri text, openText? es uri = some text ∧
      x ∈ (Document.read l.limit uri text).declarations.values ∧
      Server.matchesQuery (Text.lower query) x = true
  diagnostics : ∀ e : ServerEvent, e.isHandshake = false → s.reports es e = t.reports es e ∧
    ∀ r ∈ s.reports es e, r.items = l.found (es ++ [e]) r.uri

section Offering

variable (l : Launch) {es : List ServerEvent} (he : ∀ e ∈ es, e.isHandshake = false) (a b : List String)
include he

theorem sameMeaning_offering (hl : l.limit < UInt32.size) :
    l.SameMeaning es ((l.offering a).server es) ((l.offering b).server es) := by
  have hs := (l.offering a).holds_server he
  have ht := (l.offering b).holds_server he
  rw [l.server_offering a he] at hs ⊢
  rw [l.server_offering b he] at ht ⊢
  refine ⟨fun uri text n pre ho hp => ?_, fun uri text n pre ho hp => ?_, fun uri => ?_,
    fun query => ?_, fun e hh => ?_⟩
  · rw [hs.hoverAt?_eq hl ho hp, ht.hoverAt?_eq hl ho hp]
    exact ⟨rfl, rfl⟩
  · rw [hs.definitionAt?_eq hl ho hp, ht.definitionAt?_eq hl ho hp]
    exact ⟨rfl, rfl⟩
  · rw [hs.outlineOf?_eq hl, ht.outlineOf?_eq hl]
    exact ⟨rfl, rfl⟩
  · rw [hs.symbolsFor_eq hl, ht.symbolsFor_eq hl]
    exact ⟨rfl, fun x => hs.mem_symbolsFor⟩
  · have hws := (l.offering a).watched_server he
    have hwt := (l.offering b).watched_server he
    rw [l.server_offering a he] at hws
    rw [l.server_offering b he] at hwt
    rw [hs.reports_eq hl hws hh, ht.reports_eq hl hwt hh, Server.map_heading_postings_recode _ _ hh,
      Server.map_heading_postings_recode _ _ hh]
    refine ⟨rfl, fun r hr => ?_⟩
    obtain ⟨x, -, rfl⟩ := List.mem_map.1 hr
    rfl

/-- Servers with the default limit tell the same to their clients without another bound on it. -/
theorem sameMeaning_of_defaultLimit (hl : l.limit = defaultLimit) :
    l.SameMeaning es ((l.offering a).server es) ((l.offering b).server es) :=
  l.sameMeaning_offering he a b (hl ▸ Columns.defaultLimit_lt)

end Offering

/-- Clients that do the same understand the same, whatever encodings they offer and get. Every column of
a text within the limit has to fit into a word. -/
theorem encodings_same_meaning (l : Launch) (hl : l.limit < UInt32.size) {es : List ServerEvent}
    (he : ∀ e ∈ es, e.isHandshake = false) (a b : List String) :
    ((l.offering a).server es).encoding = .negotiate a ∧
      ((l.offering b).server es).encoding = .negotiate b ∧
      l.SameMeaning es ((l.offering a).server es) ((l.offering b).server es) :=
  ⟨((l.offering a).holds_server he).encoding, ((l.offering b).holds_server he).encoding,
    l.sameMeaning_offering he a b hl⟩

/-- A value with characters of two and of four bytes before an expansion. -/
def wideEvents : List ServerEvent :=
  [.opened ⟨"file:///a.bb"⟩ 1 "A = \"é𝄞 $\x7bA\x7d\"\nB =", .advance 20]

theorem encodings_same_meaning_wide :
    (∀ e ∈ wideEvents, e.isHandshake = false) ∧
      openText? wideEvents ⟨"file:///a.bb"⟩ = some "A = \"é𝄞 $\x7bA\x7d\"\nB =" ∧
      Text.LineBegins "A = \"é𝄞 $\x7bA\x7d\"\nB =".toList 0 "A = \"é𝄞 $\x7b".toList ∧
      (server ⟨4096, 10, none, ["utf-8"], .stored⟩ wideEvents).encoding = .utf8 ∧
      (server ⟨4096, 10, none, ["utf-16"], .stored⟩ wideEvents).encoding = .utf16 ∧
      SameMeaning ⟨4096, 10, none, [], .stored⟩ wideEvents
        (server ⟨4096, 10, none, ["utf-8"], .stored⟩ wideEvents)
        (server ⟨4096, 10, none, ["utf-16"], .stored⟩ wideEvents) := by
  have he : ∀ e ∈ wideEvents, e.isHandshake = false := by
    simp [wideEvents, ServerEvent.isHandshake]
  refine ⟨he, by decide, ⟨"A\x7d\"".toList, by decide⟩, ?_⟩
  exact encodings_same_meaning ⟨4096, 10, none, [], .stored⟩ (by decide) he ["utf-8"] ["utf-16"]

end Launch

end Recipe
