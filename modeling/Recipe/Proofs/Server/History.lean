import Recipe.Proofs.Server.Act

/-!
# The history of a server

What a server holds can be read off the events it got, from the introduction of its client on: which
documents are open and with which texts (`openText?`), the settings in force (`Launch.settings`), and
the time (`Server.elapsed`). A change of the settings makes the server go through all its documents. In
which order it does so is left open (`Order`), and a launch may choose any. `Launch.holds_server` says
what is held after every run in every order.
-/

namespace Recipe

/-! ## Events -/

namespace ServerEvent

/-- The text that a document has after the event, if the event opens, changes or closes it; a change
without texts does nothing. -/
def text? (uri : Uri) : ServerEvent → Option (Option String)
  | opened u _ text => if u = uri then some (some text) else none
  | changed u _ texts => if u = uri then texts.getLast?.map some else none
  | closed u => if u = uri then some none else none
  | _ => none

/-- The settings that the event gives, if they are well formed. -/
def settings? : ServerEvent → Option Settings
  | configured configuration => Server.configuredSettings? configuration
  | _ => none

/-- How long the event takes. -/
def duration : ServerEvent → Nat
  | advance ms => ms
  | _ => 0

/-- The document that the event names. -/
def uri? : ServerEvent → Option Uri
  | opened uri _ _ | changed uri _ _ | closed uri => some uri
  | _ => none

end ServerEvent

/-- The text with which a document is open after some events. -/
def openText? (es : List ServerEvent) (uri : Uri) : Option String :=
  (es.filterMap (·.text? uri)).getLast?.join

/-- How long some events take. -/
def Server.elapsed (es : List ServerEvent) : Nat :=
  es.foldl (fun t e => t + e.duration) 0

theorem openText?_concat (es : List ServerEvent) (e : ServerEvent) (uri : Uri) :
    openText? (es ++ [e]) uri = (e.text? uri).getD (openText? es uri) := by
  unfold openText?
  cases h : e.text? uri with
  | none => simp [List.filterMap_append, h]
  | some t => simp [List.filterMap_append, h]

theorem Server.elapsed_concat (es : List ServerEvent) (e : ServerEvent) :
    Server.elapsed (es ++ [e]) = Server.elapsed es + e.duration :=
  List.foldl_append

/-! ## Orders -/

/-- An order in which the documents of a workspace are gone through. It may be another one each time: a
pass is started for every document that is gone through, so the number of the next pass is not the same
again. -/
structure Order where
  arrange : (nextPass : Nat) → Table Uri Slot → Table Uri Slot
  perm : ∀ nextPass slots, (arrange nextPass slots).entries.Perm slots.entries

/-- Documents are gone through as they were last written. -/
def Order.stored : Order :=
  ⟨fun _ slots => slots, fun _ _ => .refl _⟩

/-- Documents are gone through forwards and backwards in turn. -/
def Order.alternating : Order where
  arrange nextPass slots := if nextPass % 2 = 0 then slots else slots.reverse
  perm nextPass slots := by
    split
    · exact .refl _
    · exact List.reverse_perm _

namespace Server

/-- The server with another table of documents. -/
def withSlots (s : Server) (slots : Table Uri Slot) : Server :=
  { s with workspace := { s.workspace with slots } }

/-- The server that goes through its documents in an order. -/
def arranged (o : Order) (s : Server) : Server :=
  s.withSlots (o.arrange s.workspace.nextPass s.workspace.slots)

section Arranged

variable (o : Order) (s : Server)

theorem get?_arranged (uri : Uri) :
    (s.arranged o).workspace.slots.get? uri = s.workspace.slots.get? uri :=
  Table.get?_eq_of_perm (o.perm ..) uri

theorem document?_arranged (uri : Uri) :
    (s.arranged o).workspace.document? uri = s.workspace.document? uri :=
  congrArg _ (s.get?_arranged o uri)

theorem isCurrent_arranged (p : Pass) :
    (s.arranged o).workspace.isCurrent p = s.workspace.isCurrent p :=
  congrArg (Option.any _) (s.get?_arranged o p.uri)

variable {s} in
theorem Ready.arranged (hr : s.Ready) : (s.arranged o).Ready where
  limit := hr.limit
  read uri d hd := hr.read uri d ((s.document?_arranged o uri).symm.trans hd)
  documentsOf := hr.documentsOf
  fresh := hr.fresh
  nodup := hr.nodup
  waited p hp := hr.waited p ((s.isCurrent_arranged o p).symm.trans hp)

end Arranged

/-! ## Runs -/

/-- The server after some events, which goes through its documents in an order. -/
def run (o : Order) (s : Server) (es : List ServerEvent) : Server :=
  es.foldl (fun s e => (s.step e).1.arranged o) s

/-- What is sent with some events. -/
def sent (o : Order) (s : Server) : List ServerEvent → List Notice
  | [] => []
  | e :: es => (s.step e).2 ++ ((s.step e).1.arranged o).sent o es

variable (o : Order) in
theorem run_concat (s : Server) (es : List ServerEvent) (e : ServerEvent) :
    s.run o (es ++ [e]) = ((s.run o es).step e).1.arranged o :=
  List.foldl_append

variable (o : Order) in
theorem sent_concat (s : Server) (es : List ServerEvent) (e : ServerEvent) :
    s.sent o (es ++ [e]) = s.sent o es ++ ((s.run o es).step e).2 := by
  induction es generalizing s with
  | nil => simp [sent, run]
  | cons b es ih =>
    rw [List.cons_append, sent, sent, ih, List.append_assoc]
    rfl

/-- Acts and the end of waits leave the terms of a server alone: its limit and window, what was agreed
on with the client, and the clock. -/
structure SameTerms (s t : Server) : Prop where
  limit : t.limit = s.limit
  debounce : t.workspace.debounce = s.workspace.debounce
  encoding : t.encoding = s.encoding
  settings : t.settings = s.settings
  now : t.now = s.now

theorem SameTerms.trans {s t u : Server} (h : SameTerms s t) (h' : SameTerms t u) : SameTerms s u :=
  ⟨h'.limit.trans h.limit, h'.debounce.trans h.debounce, h'.encoding.trans h.encoding,
    h'.settings.trans h.settings, h'.now.trans h.now⟩

theorem sameTerms_perform {s : Server} (hr : s.Ready) (a : Act) : SameTerms s (s.perform a).1 := by
  rw [fst_perform hr.limit]
  cases a <;> exact ⟨rfl, rfl, rfl, rfl, rfl⟩

theorem sameTerms_performAll {s : Server} (hr : s.Ready) (acts : List Act) :
    SameTerms s (s.performAll acts).1 := by
  induction acts generalizing s with
  | nil => exact ⟨rfl, rfl, rfl, rfl, rfl⟩
  | cons a acts ih => exact (sameTerms_perform hr a).trans (ih (hr.perform a))

theorem sameTerms_settle (s : Server) : SameTerms s s.settle.1 :=
  ⟨rfl, (Workspace.sameDocuments_settle s.workspace s.now s.waiting).debounce, rfl, rfl, rfl⟩

/-- If an act about a document always has the same effect on what is looked at, and no other act has
any, then acts have this effect as soon as one of them is about the document. -/
theorem view_performAll {β : Type} (view : Server → β) (uri : Uri) (b : β) {s : Server} (hr : s.Ready)
    {acts : List Act} (hv : ∀ t, t.Ready → SameTerms s t → ∀ a ∈ acts,
      view (t.perform a).1 = if a.uri = uri then b else view t) :
    view (s.performAll acts).1 = if ∃ a ∈ acts, a.uri = uri then b else view s := by
  induction acts generalizing s with
  | nil => simp [performAll]
  | cons a acts ih =>
    have hterms := sameTerms_perform hr a
    rw [performAll, ih (hr.perform a) fun t ht hst a' ha' =>
      hv t ht (hterms.trans hst) a' (List.mem_cons_of_mem _ ha'), hv s hr ⟨rfl, rfl, rfl, rfl, rfl⟩ a
      List.mem_cons_self]
    by_cases hm : ∃ a' ∈ acts, a'.uri = uri
    · simp [hm]
    · by_cases ha : a.uri = uri <;> simp [hm, ha]

end Server

/-- How a server is started, how its client introduces itself, and in which order the server goes
through its documents. -/
structure Launch where
  limit : Nat
  debounce : Nat
  options? : Option Json
  encodings : List String
  order : Order

namespace Launch

/-- What the introduction of the client does to a server that has just been started. -/
def introduction (l : Launch) : Server × List Notice :=
  (Server.start l.limit l.debounce).step (.handshake l.options? l.encodings)

/-- The server after its client's introduction and some more events. -/
def server (l : Launch) (es : List ServerEvent) : Server :=
  l.introduction.1.run l.order es

/-- What is sent with the introduction and some more events. -/
def sent (l : Launch) (es : List ServerEvent) : List Notice :=
  l.introduction.2 ++ l.introduction.1.sent l.order es

/-- The settings in force after some events: the last ones that are well formed. -/
def settings (l : Launch) (es : List ServerEvent) : Settings :=
  (es.filterMap ServerEvent.settings?).getLast?.getD ((l.options?.bind Settings.ofJson?).getD .default)

/-- The version of a document that an event takes in, if it does. A change of the settings takes in
every open document again, without a version. -/
def refreshed? (l : Launch) (before : List ServerEvent) (uri : Uri) :
    ServerEvent → Option (Option Int)
  | .opened u version _ => if u = uri then some (some version) else none
  | .changed u version texts => if u = uri ∧ texts ≠ [] then some (some version) else none
  | .configured configuration =>
    if (openText? before uri).isSome = true
        ∧ l.settings (before ++ [.configured configuration]) ≠ l.settings before then some none
    else none
  | _ => none

theorem settings_concat (l : Launch) (es : List ServerEvent) (e : ServerEvent) :
    l.settings (es ++ [e]) = e.settings?.getD (l.settings es) := by
  unfold settings
  cases h : e.settings? with
  | none => simp [List.filterMap_append, h]
  | some t => simp [List.filterMap_append, h]

/-- What a server holds after some events. -/
structure Holds (l : Launch) (es : List ServerEvent) (s : Server) : Prop where
  ready : s.Ready
  limit : s.limit = l.limit
  debounce : s.workspace.debounce = l.debounce
  encoding : s.encoding = .negotiate l.encodings
  settings : s.settings = l.settings es
  now : s.now = Server.elapsed es
  document? : ∀ uri, s.workspace.document? uri = (openText? es uri).map (.read l.limit uri)

theorem server_concat (l : Launch) (es : List ServerEvent) (e : ServerEvent) :
    l.server (es ++ [e]) = ((l.server es).step e).1.arranged l.order :=
  Server.run_concat ..

theorem sent_concat (l : Launch) (es : List ServerEvent) (e : ServerEvent) :
    l.sent (es ++ [e]) = l.sent es ++ ((l.server es).step e).2 := by
  rw [sent, Server.sent_concat, ← List.append_assoc]
  rfl

section Step

variable {l : Launch} {es : List ServerEvent} {s : Server} {e : ServerEvent} {uri : Uri}

theorem Holds.prepare (h : l.Holds es s) (e : ServerEvent) :
    (s.prepare e).limit = l.limit ∧ (s.prepare e).workspace = s.workspace ∧
      (s.prepare e).encoding = s.encoding ∧ (s.prepare e).settings = l.settings (es ++ [e]) ∧
      (s.prepare e).now = Server.elapsed (es ++ [e]) := by
  rw [settings_concat, Server.elapsed_concat, ← h.settings, ← h.now, ← h.limit]
  cases e <;> exact ⟨rfl, rfl, rfl, rfl, rfl⟩

theorem Holds.mem_uris (h : l.Holds es s) :
    uri ∈ s.workspace.uris ↔ (openText? es uri).isSome = true := by
  have := congrArg Option.isSome (h.document? uri)
  rw [Option.isSome_map, Workspace.document?, Option.isSome_map] at this
  rw [← this, Workspace.uris, Table.mem_keys]

/-- An event closes a document if and only if it says so. -/
theorem close_mem_acts : Act.close uri ∈ s.acts e ↔ e = .closed uri := by
  cases e with
  | configured configuration =>
    rw [Server.acts]
    split <;> simp [Server.reread?]
  | closed u => simp [Server.acts, eq_comm]
  | _ => simp [Server.acts]

theorem Holds.reread?_eq (h : l.Holds es s) (u : Uri) :
    s.reread? u = (openText? es u).map (.refresh u none) := by
  rw [Server.reread?, h.document?, Option.map_map]
  exact Option.map_congr fun text _ => congrArg (Act.refresh u none) (Document.text_read ..)

/-- The texts that an event takes in are those that are open after it. -/
theorem Holds.refresh_mem_acts (h : l.Holds es s) {version? : Option Int} {text : String} :
    Act.refresh uri version? text ∈ s.acts e ↔
      l.refreshed? es uri e = some version? ∧ openText? (es ++ [e]) uri = some text := by
  rw [openText?_concat]
  cases e with
  | opened u version source =>
    by_cases hu : u = uri
    · simp [Server.acts, refreshed?, ServerEvent.text?, hu, @eq_comm _ version?, @eq_comm _ text]
    · simp [Server.acts, refreshed?, hu, Ne.symm hu]
  | changed u version texts =>
    by_cases hu : u = uri
    · cases texts using List.reverseRecOn with
      | nil => simp [Server.acts, refreshed?]
      | append_singleton texts source =>
        simp [Server.acts, refreshed?, ServerEvent.text?, hu, @eq_comm _ version?, @eq_comm _ text]
    · simp [Server.acts, refreshed?, hu]
  | configured configuration =>
    have hset : (Server.configuredSettings? configuration).getD s.settings
        = l.settings (es ++ [.configured configuration]) := by
      rw [settings_concat, h.settings]
      rfl
    rw [Server.acts, refreshed?, hset, h.settings]
    by_cases hs : l.settings (es ++ [.configured configuration]) = l.settings es
    · simp [hs]
    · rw [if_neg hs, List.mem_filterMap]
      simp only [h.reread?_eq, h.mem_uris, Option.map_eq_some_iff, Act.refresh.injEq]
      refine ⟨?_, ?_⟩
      · rintro ⟨u, hu, source, ho, rfl, rfl, rfl⟩
        exact ⟨if_pos ⟨hu, hs⟩, ho⟩
      · rintro ⟨hv, ht⟩
        have ho : openText? es uri = some text := ht
        rw [ho, if_pos ⟨rfl, hs⟩] at hv
        exact ⟨uri, by rw [ho]; rfl, text, ho, rfl, Option.some.inj hv, rfl⟩
  | _ => simp [Server.acts, refreshed?]

/-- A document that is taken in is open. -/
theorem openText?_of_refreshed? {version? : Option Int} (h : l.refreshed? es uri e = some version?) :
    ∃ text, openText? (es ++ [e]) uri = some text := by
  rw [openText?_concat]
  cases e with
  | opened u version source =>
    rw [refreshed?] at h
    split at h
    · rename_i hu
      exact ⟨source, by simp [ServerEvent.text?, hu]⟩
    · cases h
  | changed u version texts =>
    rw [refreshed?] at h
    split at h
    · rename_i hu
      exact ⟨texts.getLast hu.2, by simp [ServerEvent.text?, hu.1, List.getLast?_eq_some_getLast hu.2]⟩
    · cases h
  | configured configuration =>
    rw [refreshed?] at h
    split at h
    · rename_i ho
      exact Option.isSome_iff_exists.1 ho.1
    · cases h
  | _ => cases h

theorem refreshed?_of_text? {text : String} (h : e.text? uri = some (some text)) (l : Launch)
    (es : List ServerEvent) : ∃ version?, l.refreshed? es uri e = some version? := by
  cases e with
  | opened u version source =>
    by_cases hu : u = uri
    · exact ⟨_, if_pos hu⟩
    · simp [ServerEvent.text?, hu] at h
  | changed u version texts =>
    by_cases hu : u = uri
    · refine ⟨_, if_pos ⟨hu, ?_⟩⟩
      rintro rfl
      simp [ServerEvent.text?] at h
    · simp [ServerEvent.text?, hu] at h
  | closed u =>
    rw [ServerEvent.text?] at h
    split at h <;> cases h
  | _ => cases h

theorem closed_of_text? (h : e.text? uri = some none) : e = .closed uri := by
  cases e with
  | opened u version source =>
    rw [ServerEvent.text?] at h
    split at h <;> cases h
  | changed u version texts => simp [ServerEvent.text?] at h
  | closed u =>
    rw [ServerEvent.text?] at h
    split at h
    · rename_i hu
      rw [hu]
    · cases h
  | _ => cases h

/-- A document that is not taken in and not closed stays as it was. -/
theorem text?_of_quiet (hr : l.refreshed? es uri e = none) (hc : e ≠ .closed uri) :
    e.text? uri = none := by
  cases ht : e.text? uri with
  | none => rfl
  | some text? =>
    cases text? with
    | none => exact absurd (closed_of_text? ht) hc
    | some text =>
      obtain ⟨version?, hv⟩ := refreshed?_of_text? ht l es
      cases hr.symm.trans hv

/-- As long as an open document is not taken in again, the settings stay as they are. -/
theorem settings_of_quiet (h : l.refreshed? es uri e = none) :
    openText? es uri = none ∨ l.settings (es ++ [e]) = l.settings es := by
  cases e with
  | configured configuration =>
    rw [refreshed?] at h
    split at h
    · cases h
    · rename_i hn
      rw [not_and_or, not_not] at hn
      exact hn.imp (fun hs => by simpa using hs) id
  | _ => exact .inr (settings_concat ..)

/-- The acts about a document agree on its text. -/
theorem Holds.text?_of_mem_acts (h : l.Holds es s) {a : Act} (ha : a ∈ s.acts e) :
    a.text? = openText? (es ++ [e]) a.uri := by
  cases a with
  | refresh u version? text => exact (h.refresh_mem_acts.1 ha).2.symm
  | close u =>
    rw [close_mem_acts.1 ha, openText?_concat]
    simp [ServerEvent.text?, Act.text?, Act.uri]

/-- A document without acts is neither taken in nor closed. -/
theorem Holds.quiet_of_acts (h : l.Holds es s) (hn : ¬ ∃ a ∈ s.acts e, a.uri = uri) :
    l.refreshed? es uri e = none ∧ e ≠ .closed uri := by
  refine ⟨?_, ?_⟩
  · cases hv : l.refreshed? es uri e with
    | none => rfl
    | some version? =>
      obtain ⟨text, ht⟩ := openText?_of_refreshed? hv
      exact absurd ⟨_, h.refresh_mem_acts.2 ⟨hv, ht⟩, rfl⟩ hn
  · rintro rfl
    exact hn ⟨.close uri, close_mem_acts.2 rfl, rfl⟩

theorem Holds.document?_apply (h : l.Holds es s) (he : e.isHandshake = false) (uri : Uri) :
    (s.apply e).1.workspace.document? uri = (openText? (es ++ [e]) uri).map (.read l.limit uri) := by
  obtain ⟨hlimit, hworkspace, -⟩ := h.prepare e
  rw [Server.apply_eq h.ready he, Server.view_performAll (·.workspace.document? uri) uri
    ((openText? (es ++ [e]) uri).map (.read l.limit uri)) (h.ready.prepare e)]
  · split
    · rfl
    · rename_i hn
      obtain ⟨hr, hc⟩ := h.quiet_of_acts hn
      rw [hworkspace, h.document?, openText?_concat, text?_of_quiet hr hc]
      rfl
  · intro t ht hterms a ha
    rw [Server.document?_perform ht.limit, h.text?_of_mem_acts ha, hterms.limit, hlimit]
    by_cases hu : a.uri = uri
    · simp [hu]
    · simp [hu, Ne.symm hu]

/-- A server still holds what its history says after one more event. -/
theorem Holds.step (h : l.Holds es s) (he : e.isHandshake = false) :
    l.Holds (es ++ [e]) (s.step e).1 := by
  obtain ⟨hlimit, hworkspace, hencoding, hsettings, hnow⟩ := h.prepare e
  have hterms : Server.SameTerms (s.prepare e) (s.step e).1 := by
    have hacts := Server.sameTerms_performAll (h.ready.prepare e) (s.acts e)
    rw [← Server.apply_eq h.ready he] at hacts
    exact hacts.trans (Server.sameTerms_settle _)
  have hsame := Workspace.sameDocuments_settle (s.apply e).1.workspace (s.apply e).1.now
    (s.apply e).1.waiting
  exact {
    ready := h.ready.step he
    limit := hterms.limit.trans hlimit
    debounce := hterms.debounce.trans ((congrArg _ hworkspace).trans h.debounce)
    encoding := hterms.encoding.trans (hencoding.trans h.encoding)
    settings := hterms.settings.trans hsettings
    now := hterms.now.trans hnow
    document? := fun uri => (hsame.document? uri).trans (h.document?_apply he uri) }

theorem Holds.arranged (h : l.Holds es s) (o : Order) : l.Holds es (s.arranged o) where
  ready := h.ready.arranged o
  limit := h.limit
  debounce := h.debounce
  encoding := h.encoding
  settings := h.settings
  now := h.now
  document? := fun uri => (s.document?_arranged o uri).trans (h.document? uri)

end Step

theorem holds_start (l : Launch) : l.Holds [] (l.server []) where
  ready := {
    limit := rfl
    read := fun _ _ hd => nomatch hd
    documentsOf := fun host => .nil host
    fresh := fun _ hw => nomatch hw
    nodup := .nil
    waited := fun _ hp => nomatch hp }
  limit := rfl
  debounce := rfl
  encoding := rfl
  settings := rfl
  now := rfl
  document? := fun _ => rfl

/-- After every run a server holds what its history says. -/
theorem holds_server (l : Launch) {es : List ServerEvent} (he : ∀ e ∈ es, e.isHandshake = false) :
    l.Holds es (l.server es) := by
  induction es using List.reverseRecOn with
  | nil => exact l.holds_start
  | append_singleton es e ih =>
    rw [server_concat]
    exact ((ih fun e' h => he e' (List.mem_append_left _ h)).step (he e (by simp))).arranged _

end Launch

end Recipe
