import Mathlib.Data.Prod.Lex
import Mathlib.Data.String.Basic
import Recipe.Proofs.Server.Meaning

/-!
# Workspace symbols

The symbols that a query asks for are gathered from two layers of tables, documents and their
declarations, and then sorted by name and uri. A document declares a name once
(`Declarations.nodup_names_ofTree`) and a uri has one document, so no two symbols have the same place in
the order (`Launch.Holds.apart_gathered`). Then there is one way to sort them, and in whatever order the
tables are gone through (`Slot.Reorders`), the answer is the same list (`Launch.workspaceSymbols_listed`).
-/

namespace Recipe

/-! ## The order of symbols -/

/-- Where a symbol is listed: by its name, then by the uri of its document. -/
def ClientSymbol.key (x : ClientSymbol) : String ×ₗ String :=
  toLex (x.name, x.location.uri.text)

namespace Server

theorem symbolLe_iff {a b : ClientSymbol} : symbolLe a b = true ↔ a.key ≤ b.key := by
  rw [ClientSymbol.key, ClientSymbol.key, Prod.Lex.toLex_le_toLex, symbolLe, Uri.textLe, Bool.or_eq_true,
    decide_eq_true_eq, Bool.and_eq_true, beq_iff_eq, Bool.not_eq_true', decide_eq_false_iff_not,
    not_lt]

/-- Sorted symbols of which no two have the same place are listed one before the other. -/
theorem pairwise_mergeSort {xs : List ClientSymbol} (h : xs.Pairwise fun a b => a.key ≠ b.key) :
    (xs.mergeSort symbolLe).Pairwise fun a b => a.key < b.key := by
  have htrans : ∀ a b c, symbolLe a b = true → symbolLe b c = true → symbolLe a c = true :=
    fun a b c hab hbc => symbolLe_iff.2 (le_trans (symbolLe_iff.1 hab) (symbolLe_iff.1 hbc))
  have htotal : ∀ a b, (symbolLe a b || symbolLe b a) = true := by
    intro a b
    rw [Bool.or_eq_true, symbolLe_iff, symbolLe_iff]
    exact le_total a.key b.key
  have hsorted := List.pairwise_mergeSort htrans htotal xs
  have hapart := (List.Perm.pairwise_iff Ne.symm (List.mergeSort_perm xs symbolLe)).2 h
  exact (hsorted.and hapart).imp fun {a b} hab => lt_of_le_of_ne (symbolLe_iff.1 hab.1) hab.2

/-- Symbols of which no two have the same place are sorted in one way, in whatever order they come. -/
theorem mergeSort_eq_of_perm {xs ys : List ClientSymbol} (h : xs.Pairwise fun a b => a.key ≠ b.key)
    (hp : xs.Perm ys) : xs.mergeSort symbolLe = ys.mergeSort symbolLe := by
  have hys := (List.Perm.pairwise_iff Ne.symm hp).1 h
  have hperm := (List.mergeSort_perm xs symbolLe).trans (hp.trans (List.mergeSort_perm ys symbolLe).symm)
  exact hperm.eq_of_pairwise (fun a b _ _ hab hba => absurd hba (lt_asymm hab)) (pairwise_mergeSort h)
    (pairwise_mergeSort hys)

end Server

/-! ## Names and uris -/

/-- Values that are written at keys of their own stand at these keys. -/
theorem Table.eq_key_of_mem_insertAll {α β : Type} [DecidableEq α] {key : β → α} {xs : List β}
    {t : Table α β} (ht : ∀ e ∈ t.entries, e.1 = key e.2) :
    ∀ e ∈ (insertAll key id xs t).entries, e.1 = key e.2 := by
  induction xs generalizing t with
  | nil => exact ht
  | cons x xs ih =>
    refine ih (List.forall_mem_append.2 ⟨fun e he => ht e (List.mem_of_mem_filter he), fun e he => ?_⟩)
    rw [List.mem_singleton.1 he]
    rfl

namespace Declarations

variable (uri : Uri) (t : Tree)

theorem ofTree_eq_insertAll : ofTree uri t
    = Table.insertAll Symbol.name id (t.statements.filterMap (Symbol.ofStatement? uri)) .empty := rfl

theorem eq_name_of_mem_entries : ∀ e ∈ (ofTree uri t).entries, e.1 = e.2.name :=
  ofTree_eq_insertAll uri t ▸ Table.eq_key_of_mem_insertAll (List.forall_mem_nil _)

/-- A document declares a name once. -/
theorem nodup_names_ofTree : (ofTree uri t).values.Pairwise fun a b => a.name ≠ b.name := by
  have hkeys := List.pairwise_map.1 (ofTree uri t).nodup
  refine List.pairwise_map.2 (hkeys.imp_of_mem fun {a b} ha hb hne => ?_)
  rwa [← eq_name_of_mem_entries uri t a ha, ← eq_name_of_mem_entries uri t b hb]

/-- The symbols of a document are what their names stand for. -/
theorem mem_values_ofTree {x : Symbol} :
    x ∈ (ofTree uri t).values ↔ (ofTree uri t).get? x.name = some x := by
  refine ⟨fun hx => ?_, Table.mem_values_of_get?⟩
  obtain ⟨e, he, rfl⟩ := List.mem_map.1 hx
  rw [← eq_name_of_mem_entries uri t e he]
  exact Table.get?_of_mem he

end Declarations

namespace Server

/-- The symbols that a query asks for, document after document. -/
def gathered (s : Server) (query : String) : List ClientSymbol :=
  (s.workspace.slots.values.map Slot.document).flatMap (s.documentSymbols (Text.lower query))

theorem workspaceSymbols_eq (s : Server) (query : String) :
    s.workspaceSymbols query = (s.gathered query).mergeSort symbolLe := rfl

end Server

namespace Launch

variable {l : Launch} {es : List ServerEvent} {s : Server}

/-- Every document stands in the workspace under its uri. -/
theorem Holds.map_uri_documents (h : l.Holds es s) :
    (s.workspace.slots.values.map Slot.document).map (·.uri) = s.workspace.uris := by
  rw [Table.values, Workspace.uris, Table.keys, List.map_map, List.map_map]
  refine List.map_congr_left fun e he => ?_
  have hdoc : s.workspace.document? e.1 = some e.2.document := by
    rw [Workspace.document?, Table.get?_of_mem he]
    rfl
  rw [h.document?] at hdoc
  obtain ⟨text, -, hread⟩ := Option.map_eq_some_iff.1 hdoc
  exact (congrArg Document.uri hread).symm

/-- No two symbols have the same place in the order. -/
theorem Holds.apart_gathered (h : l.Holds es s) (query : String) :
    (s.gathered query).Pairwise fun a b => a.key ≠ b.key := by
  have hread : ∀ {d : Document} {x : ClientSymbol}, d ∈ s.workspace.slots.values.map Slot.document →
      x ∈ s.documentSymbols (Text.lower query) d → x.location.uri = d.uri := by
    intro d x hd hx
    obtain ⟨uri, text, -, rfl⟩ := h.mem_documents.1 hd
    obtain ⟨y, hy, rfl⟩ := List.mem_map.1 hx
    exact (Document.of_mem_declarations (List.mem_filter.1 hy).1).1
  refine List.pairwise_flatMap.2 ⟨fun d hd => ?_, ?_⟩
  · -- The symbols of one document differ in their names.
    obtain ⟨uri, text, -, rfl⟩ := h.mem_documents.1 hd
    refine List.pairwise_map.2 (((Declarations.nodup_names_ofTree _ _).filter _).imp fun hne heq => ?_)
    exact hne (congrArg (fun k => (ofLex k).1) heq)
  · have hdistinct : s.workspace.uris.Nodup := s.workspace.slots.nodup
    rw [← h.map_uri_documents, List.nodup_iff_pairwise_ne, List.pairwise_map] at hdistinct
    refine hdistinct.imp_of_mem fun {d e} hd he hne x hx y hy heq => hne ?_
    rw [← hread hd hx, ← hread he hy]
    exact congrArg (fun k => Uri.mk (ofLex k).2) heq

end Launch

/-! ## Other orders of the tables -/

/-- Two documents are the same but for the order of their declarations. -/
structure Document.Reorders (d e : Document) : Prop where
  uri : d.uri = e.uri
  tree : d.tree = e.tree
  declarations : d.declarations.entries.Perm e.declarations.entries

/-- Two tables of documents are the same but for their order and the order of the declarations in each
document. -/
def Slot.Reorders (t u : Table Uri Slot) : Prop :=
  ∃ entries, t.entries.Perm entries ∧ List.Forall₂ (fun a b : Uri × Slot => a.1 = b.1 ∧
    a.2.pending? = b.2.pending? ∧ a.2.document.Reorders b.2.document) entries u.entries

namespace Server

theorem perm_documentSymbols (s : Server) (slots : Table Uri Slot) (query : String) {d e : Document}
    (h : d.Reorders e) : (s.documentSymbols query d).Perm ((s.withSlots slots).documentSymbols query e) := by
  have hcolumns : (s.withSlots slots).columns e = s.columns d := by
    rw [columns, columns, Document.text, Document.text, h.tree]
    rfl
  rw [documentSymbols, documentSymbols, hcolumns]
  exact ((h.declarations.map _).filter _).map _

theorem perm_flatMap_of_forall₂ {α β : Type} {R : α → α → Prop} {f g : α → List β} {xs ys : List α}
    (h : List.Forall₂ R xs ys) (hfg : ∀ a b, R a b → (f a).Perm (g b)) :
    (xs.flatMap f).Perm (ys.flatMap g) := by
  induction h with
  | nil => exact .nil
  | cons hab _ ih =>
    rw [List.flatMap_cons, List.flatMap_cons]
    exact (hfg _ _ hab).append ih

/-- Another order of the tables gives the same symbols in another order. -/
theorem perm_gathered {s : Server} {slots : Table Uri Slot} (h : Slot.Reorders s.workspace.slots slots)
    (query : String) : (s.gathered query).Perm ((s.withSlots slots).gathered query) := by
  obtain ⟨entries, hperm, hsame⟩ := h
  have hslots : (s.withSlots slots).workspace.slots = slots := rfl
  rw [gathered, gathered, hslots, Table.values, Table.values, List.map_map, List.map_map,
    List.flatMap_map, List.flatMap_map]
  refine (hperm.flatMap_right _).trans (perm_flatMap_of_forall₂ hsame fun a b hab => ?_)
  exact s.perm_documentSymbols slots _ hab.2.2

end Server

/-! ## What a query finds -/

theorem Text.occursIn_iff {part cs : List Char} : occursIn part cs = true ↔ part <:+: cs := by
  induction cs with
  | nil => rw [occursIn, List.isEmpty_iff, List.infix_nil]
  | cons c cs ih =>
    rw [occursIn, Bool.or_eq_true, List.isPrefixOf_iff_prefix, ih, List.infix_cons_iff]

namespace Launch

/-- Symbols are listed for a query: those declarations of the documents that are open after some events
whose names in lower case have the query in lower case in them, each once, by name and by uri. -/
structure Listed (l : Launch) (es : List ServerEvent) (query : String) (xs : List ClientSymbol) : Prop where
  sorted : xs.Pairwise fun a b => a.key < b.key
  nodup : xs.Nodup
  mem_iff : ∀ x, x ∈ xs ↔ ∃ uri text symbol, openText? es uri = some text ∧
    (Document.read l.limit uri text).declarations.get? symbol.name = some symbol ∧
    (Text.lower query).toList <:+: (Text.lower symbol.name).toList ∧
    x = (Columns.ofText (.negotiate l.encodings) text).symbol symbol
  /-- The empty query asks for all. -/
  all : query = "" → ∀ {uri text symbol}, openText? es uri = some text →
    (Document.read l.limit uri text).declarations.get? symbol.name = some symbol →
    (Columns.ofText (.negotiate l.encodings) text).symbol symbol ∈ xs

theorem Holds.mem_gathered {l : Launch} {es : List ServerEvent} {s : Server} (h : l.Holds es s)
    (query : String) (x : ClientSymbol) :
    x ∈ s.gathered query ↔ ∃ uri text symbol, openText? es uri = some text ∧
      (Document.read l.limit uri text).declarations.get? symbol.name = some symbol ∧
      (Text.lower query).toList <:+: (Text.lower symbol.name).toList ∧
      x = (Columns.ofText (.negotiate l.encodings) text).symbol symbol := by
  have hdocument : ∀ (uri : Uri) text, x ∈ s.documentSymbols (Text.lower query) (.read l.limit uri text) ↔
      ∃ symbol, (Document.read l.limit uri text).declarations.get? symbol.name = some symbol ∧
        (Text.lower query).toList <:+: (Text.lower symbol.name).toList ∧
        x = (Columns.ofText (.negotiate l.encodings) text).symbol symbol := by
    intro uri text
    rw [Server.documentSymbols, List.mem_map, Server.columns, Document.text_read, h.encoding]
    refine exists_congr fun symbol => ?_
    rw [List.mem_filter, Server.matchesQuery, Text.occursIn_iff, eq_comm, and_assoc]
    exact and_congr_left fun _ => Declarations.mem_values_ofTree ..
  rw [Server.gathered, List.mem_flatMap]
  constructor
  · rintro ⟨d, hd, hx⟩
    obtain ⟨uri, text, ho, rfl⟩ := h.mem_documents.1 hd
    obtain ⟨symbol, hsymbol⟩ := (hdocument uri text).1 hx
    exact ⟨uri, text, symbol, ho, hsymbol⟩
  · rintro ⟨uri, text, symbol, ho, hsymbol⟩
    exact ⟨_, h.mem_documents.2 ⟨uri, text, ho, rfl⟩, (hdocument uri text).2 ⟨symbol, hsymbol⟩⟩

/-- In whatever order the documents and their declarations are gone through, a query is answered by the
same list: the matching declarations of all open documents, each once, by name and then by uri. -/
theorem workspaceSymbols_listed (l : Launch) {es : List ServerEvent}
    (he : ∀ e ∈ es, e.isHandshake = false) {slots : Table Uri Slot}
    (hs : Slot.Reorders (l.server es).workspace.slots slots) (query : String) :
    l.Listed es query (((l.server es).withSlots slots).workspaceSymbols query) ∧
      ((l.server es).withSlots slots).workspaceSymbols query = (l.server es).workspaceSymbols query := by
  have hholds := l.holds_server he
  have hapart := hholds.apart_gathered query
  have hperm := Server.perm_gathered hs query
  have hsorted := Server.pairwise_mergeSort ((List.Perm.pairwise_iff Ne.symm hperm).1 hapart)
  have hmem : ∀ x, x ∈ ((l.server es).withSlots slots).workspaceSymbols query ↔
      x ∈ (l.server es).gathered query := by
    intro x
    rw [Server.workspaceSymbols_eq, List.mem_mergeSort, hperm.mem_iff]
  refine ⟨⟨hsorted, hsorted.imp fun hlt heq => ne_of_lt hlt (congrArg _ heq), fun x => ?_, ?_⟩,
    (Server.mergeSort_eq_of_perm hapart hperm).symm⟩
  · rw [hmem, hholds.mem_gathered]
  · rintro rfl uri text symbol ho hsymbol
    rw [hmem, hholds.mem_gathered]
    exact ⟨uri, text, symbol, ho, hsymbol, List.nil_infix, rfl⟩

/-- The tables of documents and of declarations, both backwards. -/
def backwards (t : Table Uri Slot) : Table Uri Slot where
  entries := t.entries.reverse.map fun e => (e.1, { e.2 with document := { e.2.document with
    declarations := e.2.document.declarations.reverse } })
  nodup := by
    rw [List.map_map]
    exact t.reverse.nodup

/-- Two documents declare the same name, one of them twice, and others. -/
def namesakeEvents : List ServerEvent :=
  [.opened ⟨"file:///b.bb"⟩ 1 "FOO = \"1\"\ndo_foo() \x7b\n\x7d\nFOO = \"2\"\n",
    .opened ⟨"file:///a.bb"⟩ 1 "BAR = \"1\"\nFOO = \"3\"\n"]

theorem workspaceSymbols_listed_namesakes :
    (∀ e ∈ namesakeEvents, e.isHandshake = false) ∧
    (backwards (server ⟨64, 10, none, [], .stored⟩ namesakeEvents).workspace.slots).keys
      = (server ⟨64, 10, none, [], .stored⟩ namesakeEvents).workspace.uris.reverse ∧
    Listed ⟨64, 10, none, [], .stored⟩ namesakeEvents "Foo"
      (((server ⟨64, 10, none, [], .stored⟩ namesakeEvents).withSlots
        (backwards (server ⟨64, 10, none, [], .stored⟩ namesakeEvents).workspace.slots)).workspaceSymbols
          "Foo") := by
  have he : ∀ e ∈ namesakeEvents, e.isHandshake = false := by
    simp [namesakeEvents, ServerEvent.isHandshake]
  have hs : ∀ t, Slot.Reorders t (backwards t) := fun t =>
    ⟨t.entries.reverse, (List.reverse_perm _).symm, List.forall₂_map_right_iff.2
      (List.forall₂_same.2 fun e _ => ⟨rfl, rfl, rfl, rfl, (List.reverse_perm _).symm⟩)⟩
  refine ⟨he, by decide +kernel, ?_⟩
  exact (workspaceSymbols_listed ⟨64, 10, none, [], .stored⟩ he (hs _) "Foo").1

end Launch

end Recipe
