import Recipe.Proofs.Server.History

/-!
# What server and client hold

What a server holds and what its client has been told of embedded documents is a function of the texts
that are open and of the settings in force, whatever has happened before: the embedded documents of a
host are those of the regions of its text, or none when they are switched off or the host is not open
(`Launch.entries_server`), and a client that takes every notice has just these (`Launch.mirrored_server`).
`Launch.mirrors_openTexts` puts this together.
-/

namespace Recipe

/-- The changes of embedded documents that a notice tells. -/
def Notice.changes? : Notice → Option Changes
  | embedded _ c => some c
  | _ => none

/-- The entries of a host's embedded documents under some settings, given the text with which the host
is open. -/
def Settings.entries (settings : Settings) (limit : Nat) (host : Uri) : Option String → List Entry
  | some text =>
    if settings.embeddedDocuments then (Region.ofText limit text).map (Region.entry host text) else []
  | none => []

theorem Act.entries_call (settings : Settings) (limit : Nat) (a : Act) :
    (a.call settings).entries limit = settings.entries limit a.uri a.text? := by
  cases a with
  | refresh uri version? text =>
    rw [call, text?, Settings.entries]
    split
    · exact Store.Call.entries_text ..
    · rfl
  | close uri => rfl

/-! ## Clients -/

namespace Router

/-- Takes the changes that notices tell, one after the other. -/
def receiveAll (r : Router) (notices : List Notice) : Router :=
  (notices.filterMap Notice.changes?).foldl receive r

theorem receiveAll_append (r : Router) (notices others : List Notice) :
    r.receiveAll (notices ++ others) = (r.receiveAll notices).receiveAll others := by
  rw [receiveAll, List.filterMap_append, List.foldl_append]
  rfl

theorem receiveAll_of_changes {notices : List Notice} (h : ∀ n ∈ notices, n.changes? = none)
    (r : Router) : r.receiveAll notices = r := by
  rw [receiveAll, List.filterMap_eq_nil_iff.2 h]
  rfl

/-- A client that is not told of empty changes misses nothing. -/
theorem view?_receiveAll_embeddedNotice (r : Router) (host : Uri) (c : Changes) (u : Uri) :
    (r.receiveAll (Server.embeddedNotice host c)).view? u = (r.receive c).view? u := by
  unfold Server.embeddedNotice
  split
  · rename_i h
    simp only [Changes.isEmpty, Bool.and_eq_true, List.isEmpty_iff] at h
    exact (view?_receive_of_not_mem (by simp [Changes.uris, h])).symm
  · rfl

end Router

namespace Server

theorem view?_receiveAll_perform {s : Server} (hl : s.workspace.limit? = some s.limit) (a : Act)
    (r : Router) (u : Uri) :
    (r.receiveAll (s.perform a).2).view? u = (r.receive (s.embeddedAfter a).2).view? u := by
  obtain ⟨warnings, hw, h⟩ := snd_perform hl a
  have hwarnings : ∀ n ∈ warnings, n.changes? = none := by
    intro n hn
    have := List.all_eq_true.1 hw n hn
    cases n with
    | warning message => rfl
    | _ => cases this
  have hfarewell : ∀ n ∈ a.farewell, n.changes? = none := by
    cases a with
    | refresh uri version? text => simp [Act.farewell]
    | close uri => simp [Act.farewell, Notice.changes?]
  rw [h, Router.receiveAll_append, Router.receiveAll_of_changes hwarnings, Router.receiveAll_append,
    Router.receiveAll_of_changes hfarewell, Router.view?_receiveAll_embeddedNotice]

/-! ## Agreement of server and client -/

/-- The tables of the store agree, and a client has just what the store answers with. -/
structure Mirrored (hosts : List Uri) (s : Server) (r : Router) : Prop where
  consistent : s.store.Consistent hosts
  follows : ∀ u, r.view? u = s.store.view? u

section Mirrored

variable {hosts : List Uri} {s : Server} {r : Router}

theorem Mirrored.perform (h : Mirrored hosts s r) (hr : s.Ready) (hap : Store.Apart hosts) {a : Act}
    (ha : a.uri ∈ hosts) : Mirrored hosts (s.perform a).1 (r.receiveAll (s.perform a).2) := by
  have hreplace : s.embeddedAfter a
      = s.store.replace a.uri ((a.call s.settings).documents s.limit) := by
    rw [embeddedAfter, Store.apply_eq_replace, Act.host_call]
  have hdocuments := a.documentsOf_call s.settings s.limit
  refine ⟨?_, fun u => ?_⟩
  · rw [store_perform hr.limit]
    exact h.consistent.replace hap ha hdocuments
  · rw [view?_receiveAll_perform hr.limit, hreplace, store_perform hr.limit]
    exact Store.view?_receive_changes h.consistent hdocuments h.follows u

theorem Mirrored.performAll (h : Mirrored hosts s r) (hr : s.Ready) (hap : Store.Apart hosts)
    {acts : List Act} (ha : ∀ a ∈ acts, a.uri ∈ hosts) :
    Mirrored hosts (s.performAll acts).1 (r.receiveAll (s.performAll acts).2) := by
  induction acts generalizing s r with
  | nil => exact h
  | cons a acts ih =>
    rw [List.forall_mem_cons] at ha
    rw [performAll, Router.receiveAll_append]
    exact ih (h.perform hr hap ha.1) (hr.perform a) ha.2

/-- Ending waits keeps the router's mirror of the store, since all that is sent then is
diagnostics. -/
theorem Mirrored.settle (h : Mirrored hosts s r) :
    Mirrored hosts s.settle.1 (r.receiveAll s.settle.2) := by
  have hsilent : ∀ n ∈ s.settle.2, n.changes? = none := by
    intro n hn
    obtain ⟨f, -, hf⟩ := List.mem_filterMap.1 hn
    obtain ⟨ds, -, rfl⟩ := Option.map_eq_some_iff.1 hf
    rfl
  rw [Router.receiveAll_of_changes hsilent]
  exact ⟨h.consistent, h.follows⟩

theorem Mirrored.arranged (h : Mirrored hosts s r) (o : Order) : Mirrored hosts (s.arranged o) r :=
  ⟨h.consistent, h.follows⟩

end Mirrored

/-- An act on `host` makes the entries of its documents those of the text that the act gives to
`host`, and leaves those of every other host. -/
theorem entries_perform {s : Server} (hr : s.Ready) (a : Act) (host : Uri) :
    ((s.perform a).1.store.ofHost host).map (·.entry)
      = if a.uri = host then s.settings.entries s.limit host a.text?
        else (s.store.ofHost host).map (·.entry) := by
  rw [store_perform hr.limit, Store.ofHost_replace]
  by_cases hu : a.uri = host
  · subst hu
    rw [if_pos rfl, if_pos rfl,
      Store.map_entry_renew (hr.documentsOf a.uri) (a.documentsOf_call s.settings s.limit)]
    exact Act.entries_call ..
  · rw [if_neg (Ne.symm hu), if_neg hu]

end Server

namespace Launch

variable {l : Launch} {es : List ServerEvent} {s : Server} {e : ServerEvent}

theorem entries_step (h : l.Holds es s) (he : e.isHandshake = false) {host : Uri}
    (hs : (s.store.ofHost host).map (·.entry)
      = (l.settings es).entries l.limit host (openText? es host)) :
    ((s.step e).1.store.ofHost host).map (·.entry)
      = (l.settings (es ++ [e])).entries l.limit host (openText? (es ++ [e]) host) := by
  obtain ⟨hlimit, -, -, hsettings, -⟩ := h.prepare e
  have hstore : (s.prepare e).store = s.store := by cases e <;> rfl
  show ((s.apply e).1.store.ofHost host).map (·.entry) = _
  rw [Server.apply_eq h.ready he, Server.view_performAll
    (fun t => (t.store.ofHost host).map (·.entry)) host
    ((l.settings (es ++ [e])).entries l.limit host (openText? (es ++ [e]) host)) (h.ready.prepare e)]
  · split
    · rfl
    · rename_i hn
      obtain ⟨hr, hc⟩ := h.quiet_of_acts hn
      rw [hstore, hs, openText?_concat, text?_of_quiet hr hc, Option.getD_none]
      rcases settings_of_quiet hr with ho | ho
      · rw [ho]
        rfl
      · rw [ho]
  · intro t ht hterms a ha
    rw [Server.entries_perform ht, h.text?_of_mem_acts ha, hterms.settings, hterms.limit, hsettings,
      hlimit]
    by_cases hu : a.uri = host <;> simp [hu]

theorem entries_server (he : ∀ e ∈ es, e.isHandshake = false) (host : Uri) :
    ((l.server es).store.ofHost host).map (·.entry)
      = (l.settings es).entries l.limit host (openText? es host) := by
  induction es using List.reverseRecOn with
  | nil => rfl
  | append_singleton es e ih =>
    have hes : ∀ e' ∈ es, e'.isHandshake = false := fun e' h => he e' (List.mem_append_left _ h)
    rw [server_concat]
    exact entries_step (l.holds_server hes) (he e (by simp)) (ih hes)

/-! ## Runs -/

theorem uri?_of_text? {uri : Uri} {t : Option String} (h : e.text? uri = some t) :
    e.uri? = some uri := by
  cases e <;> simp only [ServerEvent.text?, Option.ite_none_right_eq_some, reduceCtorEq] at h <;>
    exact congrArg some h.1

/-- A document that is open was named by an event. -/
theorem mem_uris_of_openText? {uri : Uri} {text : String} (h : openText? es uri = some text) :
    uri ∈ es.filterMap ServerEvent.uri? := by
  have ht := Option.join_eq_some_iff.1 h
  obtain ⟨e, he, het⟩ := List.mem_filterMap.1 (List.mem_of_getLast? ht)
  exact List.mem_filterMap.2 ⟨e, he, uri?_of_text? het⟩

/-- An event acts on documents that it or an event before it names. -/
theorem Holds.uri_mem_of_mem_acts (h : l.Holds es s) {a : Act} (ha : a ∈ s.acts e) :
    a.uri ∈ (es ++ [e]).filterMap ServerEvent.uri? := by
  cases a with
  | refresh uri version? text => exact mem_uris_of_openText? (h.refresh_mem_acts.1 ha).2
  | close uri =>
    rw [close_mem_acts.1 ha, List.filterMap_append]
    exact List.mem_append_right _ List.mem_cons_self

theorem mirrored_step {hosts : List Uri} (ha : Store.Apart hosts) (h : l.Holds es s)
    (he : e.isHandshake = false) (hh : (es ++ [e]).filterMap ServerEvent.uri? ⊆ hosts) {r : Router}
    (hm : Server.Mirrored hosts s r) :
    Server.Mirrored hosts (s.step e).1 (r.receiveAll (s.step e).2) := by
  have hprepare : Server.Mirrored hosts (s.prepare e) r := by
    obtain ⟨hconsistent, hfollows⟩ := hm
    cases e <;> exact ⟨hconsistent, hfollows⟩
  have hacts := hprepare.performAll (h.ready.prepare e) ha fun a ha => hh (h.uri_mem_of_mem_acts ha)
  rw [← Server.apply_eq h.ready he] at hacts
  rw [Server.step_eq, Router.receiveAll_append]
  exact hacts.settle

/-- Server and client agree after every run over hosts without synthetic uris in common. -/
theorem mirrored_server {hosts : List Uri} (ha : Store.Apart hosts)
    (hh : es.filterMap ServerEvent.uri? ⊆ hosts) (he : ∀ e ∈ es, e.isHandshake = false) :
    Server.Mirrored hosts (l.server es) (Router.empty.receiveAll (l.sent es)) := by
  induction es using List.reverseRecOn with
  | nil =>
    have hempty : (Store.run 0 []).Consistent hosts := Store.consistent_run ha (by simp)
    exact ⟨hempty, fun _ => rfl⟩
  | append_singleton es e ih =>
    have hes : ∀ e' ∈ es, e'.isHandshake = false := fun e' h => he e' (List.mem_append_left _ h)
    have hsub : es.filterMap ServerEvent.uri? ⊆ (es ++ [e]).filterMap ServerEvent.uri? := by
      rw [List.filterMap_append]
      exact List.subset_append_left _ _
    rw [server_concat, sent_concat, Router.receiveAll_append]
    exact (mirrored_step ha (l.holds_server hes) (he e (by simp)) hh
      (ih (List.Subset.trans hsub hh) hes)).arranged _

/-- What server and client hold after some events is a function of the open texts and the settings. -/
structure Mirrors (l : Launch) (es : List ServerEvent) : Prop where
  /-- The documents that are there are those that are open. -/
  document? : ∀ uri,
    (l.server es).workspace.document? uri = (openText? es uri).map (.read l.limit uri)
  text : ∀ uri d, (l.server es).workspace.document? uri = some d → openText? es uri = some d.text
  /-- Only a text above the limit is not read. -/
  root? : ∀ uri d, (l.server es).workspace.document? uri = some d →
    (d.tree.root? = none ↔ l.limit < Text.bytes d.text.toList)
  settings : (l.server es).settings = l.settings es
  /-- A host has one embedded document for each region of its text, or none. -/
  entries : ∀ host, ((l.server es).store.ofHost host).map (·.entry)
    = (l.settings es).entries l.limit host (openText? es host)
  /-- An embedded document is found by its uri. -/
  isUnion : (l.server es).store.IsUnion
  /-- A client that has taken every notice has the embedded documents of all hosts. -/
  client : ∀ u v, (Router.empty.receiveAll (l.sent es)).view? u = some v ↔
    ∃ host, ∃ d ∈ (l.server es).store.ofHost host, d.uri = u ∧ d.view = v

/-- After every run over hosts without synthetic uris in common, and in every order of documents, server
and client hold what the open texts and the settings say. -/
theorem mirrors_openTexts (l : Launch) {es : List ServerEvent}
    (he : ∀ e ∈ es, e.isHandshake = false) (ha : Store.Apart (es.filterMap ServerEvent.uri?)) :
    l.Mirrors es := by
  have hholds := l.holds_server he
  obtain ⟨hconsistent, hfollows⟩ := mirrored_server (l := l) ha (List.Subset.refl _) he
  have hread : ∀ uri d, (l.server es).workspace.document? uri = some d →
      ∃ text, openText? es uri = some text ∧ d = .read l.limit uri text := by
    intro uri d hd
    rw [hholds.document?] at hd
    obtain ⟨text, ht, h⟩ := Option.map_eq_some_iff.1 hd
    exact ⟨text, ht, h.symm⟩
  refine ⟨hholds.document?, fun uri d hd => ?_, fun uri d hd => ?_, hholds.settings,
    entries_server he, hconsistent.isUnion, fun u v => ?_⟩
  · obtain ⟨text, ht, rfl⟩ := hread uri d hd
    rw [Document.text_read, ht]
  · obtain ⟨text, -, rfl⟩ := hread uri d hd
    rw [Document.text_read]
    exact Document.root?_read ..
  · rw [hfollows, Store.view?, Option.map_eq_some_iff]
    refine ⟨?_, ?_⟩
    · rintro ⟨d, hd, hv⟩
      obtain ⟨hu, hm⟩ := (hconsistent.document?_iff u d).1 hd
      exact ⟨d.host, d, hm, hu, hv⟩
    · rintro ⟨host, d, hd, rfl, hv⟩
      exact ⟨d, hconsistent.document?_eq_some hd, hv⟩

/-- Two revisions of a recipe while embedded documents are switched off and on again. -/
def revisionEvents : List ServerEvent :=
  [.opened ⟨"git:/a.bb?old"⟩ 1 "do_a() \x7b\n  x\n\x7d\n",
    .changed ⟨"git:/a.bb?new"⟩ 1 ["", "A = \"${@b}\"\n"],
    .configured (.obj [("bitbake", .obj [("embeddedDocuments", .bool false)])]),
    .closed ⟨"git:/a.bb?old"⟩, .configured (.obj [("bitbake", .obj [])]), .advance 20]

theorem mirrors_openTexts_revisions :
    (∀ e ∈ revisionEvents, e.isHandshake = false) ∧
    Store.Apart (revisionEvents.filterMap ServerEvent.uri?) ∧
    Mirrors ⟨64, 10, none, [], .alternating⟩ revisionEvents := by
  have he : ∀ e ∈ revisionEvents, e.isHandshake = false := by
    simp [revisionEvents, ServerEvent.isHandshake]
  have ha := Store.apart_revisions.mono
    (by decide : revisionEvents.filterMap ServerEvent.uri? ⊆ Store.revisions)
  exact ⟨he, ha, mirrors_openTexts _ he ha⟩

end Launch

end Recipe
