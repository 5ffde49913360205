import Recipe.Proofs.Server.History
import Recipe.Proofs.Server.Posting
import Recipe.Proofs.Workspace.Outcome

/-!
# Published diagnostics are never stale

What is watched for can be told from the history: it is due one window after the last event that took
in the document, it has the version of that event, and the document has been left alone since
(`Launch.watched_server`). So whatever is published is what the text and the settings at that time say
(`Launch.Watched.origin`). Main statement: `Launch.postings_fresh`.
-/

namespace Recipe

/-- The diagnostics of a text; a text that is refused has none. -/
def Diagnostic.ofText (limit : Nat) (source : String) : List Diagnostic :=
  match parse limit source with
  | .ok tree => tree.diagnostics
  | .error _ => []

namespace Server

/-- What is published with some events. -/
def published (o : Order) (s : Server) : List ServerEvent → List Posting
  | [] => []
  | e :: es => s.postings e ++ ((s.step e).1.arranged o).published o es

section Order

variable (o : Order) (s : Server)

theorem published_concat (es : List ServerEvent) (e : ServerEvent) :
    s.published o (es ++ [e]) = s.published o es ++ (s.run o es).postings e := by
  induction es generalizing s with
  | nil => simp [published, run]
  | cons b es ih =>
    rw [List.cons_append, published, published, ih, List.append_assoc]
    rfl

theorem map_notice_published (es : List ServerEvent) :
    (s.published o es).map Posting.notice = (s.sent o es).filter Notice.isDiagnostics := by
  induction es generalizing s with
  | nil => rfl
  | cons e es ih =>
    rw [published, sent, List.map_append, List.filter_append, map_notice_postings, ih]

theorem watching_arranged (uri : Uri) : (s.arranged o).watching uri = s.watching uri := by
  unfold watching
  simp only [isCurrent_arranged]
  rfl

end Order

end Server

namespace Launch

/-! ## What is to be published -/

/-- What is published with the introduction of the client and some more events. -/
def postings (l : Launch) (es : List ServerEvent) : List Posting :=
  (Server.start l.limit l.debounce).postings (.handshake l.options? l.encodings)
    ++ l.introduction.1.published l.order es

/-- What is to be published for a document: the diagnostics of its text, or none if diagnostics are
switched off or the document is not open. -/
def value (l : Launch) (es : List ServerEvent) (uri : Uri) : List ClientDiagnostic :=
  match openText? es uri with
  | some text =>
    if (l.settings es).diagnostics then
      (Diagnostic.ofText l.limit text).map (Columns.ofText (.negotiate l.encodings) text).diagnostic
    else []
  | none => []

/-- How the diagnostics of a pass are to be published. -/
def tag (l : Launch) (es : List ServerEvent) (version? : Option Int) : Publication :=
  ⟨(l.settings es).diagnostics, .negotiate l.encodings, version?⟩

/-- The event neither takes in nor closes a document. -/
def Quiet (l : Launch) (before : List ServerEvent) (uri : Uri) (e : ServerEvent) : Prop :=
  l.refreshed? before uri e = none ∧ e ≠ .closed uri

/-- None of some events takes in or closes a document. -/
def Leaves (l : Launch) (uri : Uri) (before : List ServerEvent) : List ServerEvent → Prop
  | [] => True
  | e :: es => l.Quiet before uri e ∧ l.Leaves uri (before ++ [e]) es

/-- The last event that took in a document did so at `time` with `version?`, and the document was not
closed since. -/
def LastRefresh (l : Launch) (es : List ServerEvent) (uri : Uri) (version? : Option Int) (time : Nat) :
    Prop :=
  ∃ before e after, es = before ++ e :: after ∧ l.refreshed? before uri e = some version? ∧
    l.Leaves uri (before ++ [e]) after ∧ time = Server.elapsed before

section History

variable {l : Launch} {es : List ServerEvent} {e : ServerEvent} {uri : Uri}

theorem postings_concat (l : Launch) (es : List ServerEvent) (e : ServerEvent) :
    l.postings (es ++ [e]) = l.postings es ++ (l.server es).postings e := by
  rw [postings, Server.published_concat, ← List.append_assoc]
  rfl

theorem leaves_concat {before : List ServerEvent} :
    l.Leaves uri before (es ++ [e]) ↔ l.Leaves uri before es ∧ l.Quiet (before ++ es) uri e := by
  induction es generalizing before with
  | nil => simp [Leaves]
  | cons b es ih =>
    rw [List.cons_append, Leaves, Leaves, ih, List.append_assoc, and_assoc]
    rfl

theorem LastRefresh.of_refreshed? {version? : Option Int}
    (h : l.refreshed? es uri e = some version?) :
    l.LastRefresh (es ++ [e]) uri version? (Server.elapsed es) :=
  ⟨es, e, [], rfl, h, trivial, rfl⟩

theorem LastRefresh.quiet {version? : Option Int} {time : Nat} (h : l.LastRefresh es uri version? time)
    (hq : l.Quiet es uri e) : l.LastRefresh (es ++ [e]) uri version? time := by
  obtain ⟨before, r, after, rfl, hr, hl, ht⟩ := h
  refine ⟨before, r, after ++ [e], by simp, hr, leaves_concat.2 ⟨hl, ?_⟩, ht⟩
  rwa [List.append_assoc]

/-- A document that is left alone keeps its text. -/
theorem openText?_of_leaves {before after : List ServerEvent} (h : l.Leaves uri before after) :
    openText? (before ++ after) uri = openText? before uri := by
  induction after using List.reverseRecOn with
  | nil => rw [List.append_nil]
  | append_singleton after e ih =>
    obtain ⟨hl, hr, hc⟩ := leaves_concat.1 h
    rw [← List.append_assoc, openText?_concat, text?_of_quiet hr hc, Option.getD_none, ih hl]

/-- A document that was taken in and not closed since is open. -/
theorem LastRefresh.exists_openText? {version? : Option Int} {time : Nat}
    (h : l.LastRefresh es uri version? time) : ∃ text, openText? es uri = some text := by
  obtain ⟨before, r, after, rfl, hr, hl, -⟩ := h
  obtain ⟨text, ht⟩ := openText?_of_refreshed? hr
  refine ⟨text, ?_⟩
  rw [List.append_cons, openText?_of_leaves hl, ht]

/-- An event that leaves a document alone does not change what is to be published for it. -/
theorem value_of_quiet (h : l.Quiet es uri e) : l.value (es ++ [e]) uri = l.value es uri := by
  unfold value
  rw [openText?_concat, text?_of_quiet h.1 h.2, Option.getD_none]
  rcases settings_of_quiet h.1 with ho | ho
  · rw [ho]
  · rw [ho]

theorem value_closed : l.value (es ++ [.closed uri]) uri = [] := by
  unfold value
  rw [openText?_concat]
  simp [ServerEvent.text?]

end History

/-! ## One event -/

section Step

variable {l : Launch} {es : List ServerEvent} {s : Server} {e : ServerEvent} {uri : Uri}

theorem Holds.now_apply (h : l.Holds es s) (he : e.isHandshake = false) :
    (s.apply e).1.now = Server.elapsed (es ++ [e]) :=
  (h.step he).now

theorem duration_of_refreshed? {version? : Option Int} (h : l.refreshed? es uri e = some version?) :
    e.duration = 0 := by
  cases e with
  | advance ms => cases h
  | _ => rfl

theorem ne_closed_of_refreshed? {version? : Option Int} (h : l.refreshed? es uri e = some version?) :
    e ≠ .closed uri := by
  rintro rfl
  cases h

/-- The acts about a document agree on what is watched for after them. -/
theorem Holds.begun_of_mem_acts (h : l.Holds es s) {t : Server}
    (ht : Server.SameTerms (s.prepare e) t) {a : Act} (ha : a ∈ s.acts e) :
    (t.begun a).map (fun w => (w.due, w.tag)) = ((l.refreshed? es a.uri e).map fun version? =>
      (Server.elapsed es + l.debounce, l.tag (es ++ [e]) version?)).toList := by
  obtain ⟨-, hworkspace, hencoding, hsettings, hnow⟩ := h.prepare e
  cases a with
  | refresh u version? text =>
    have hr := (h.refresh_mem_acts.1 ha).1
    have hdue : t.now + t.workspace.debounce = Server.elapsed es + l.debounce := by
      rw [ht.now, hnow, Server.elapsed_concat, duration_of_refreshed? hr, ht.debounce, hworkspace,
        h.debounce]
      rfl
    have htag : (⟨t.settings.diagnostics, t.encoding, version?⟩ : Publication)
        = l.tag (es ++ [e]) version? := by
      rw [ht.settings, hsettings, ht.encoding, hencoding, h.encoding]
      rfl
    rw [Act.uri, hr, Server.begun, List.map_singleton, hdue, htag]
    rfl
  | close u =>
    rw [close_mem_acts.1 ha]
    rfl

/-- An event that refreshes a document leaves one publication watched for, due after the debounce.
Its closing leaves none, and any other event leaves the same ones. -/
theorem Holds.watching_apply (h : l.Holds es s) (he : e.isHandshake = false) (uri : Uri) :
    (∃ version?, l.refreshed? es uri e = some version? ∧
      (s.apply e).1.watching uri
        = [(Server.elapsed es + l.debounce, l.tag (es ++ [e]) version?)]) ∨
    (e = .closed uri ∧ (s.apply e).1.watching uri = []) ∨
    (l.Quiet es uri e ∧ (s.apply e).1.watching uri = s.watching uri) := by
  have hprepare : (s.prepare e).watching uri = s.watching uri := by cases e <;> rfl
  rw [Server.apply_eq h.ready he, Server.view_performAll (·.watching uri) uri
    ((l.refreshed? es uri e).map fun version? =>
      (Server.elapsed es + l.debounce, l.tag (es ++ [e]) version?)).toList (h.ready.prepare e)]
  · split
    · rename_i hm
      obtain ⟨a, ha, rfl⟩ := hm
      cases a with
      | refresh u version? text =>
        have hr := (h.refresh_mem_acts.1 ha).1
        exact .inl ⟨version?, hr, by rw [Act.uri, hr]; rfl⟩
      | close u =>
        obtain rfl := close_mem_acts.1 ha
        exact .inr (.inl ⟨rfl, rfl⟩)
    · rename_i hn
      exact .inr (.inr ⟨h.quiet_of_acts hn, hprepare⟩)
  · intro t ht hterms a ha
    rw [Server.watching_perform ht]
    refine ite_congr rfl (fun hu => ?_) fun _ => rfl
    rw [← hu]
    exact h.begun_of_mem_acts hterms ha

/-- What is watched for is published as the text and the settings say. -/
theorem Holds.items_apply (h : l.Holds es s) (he : e.isHandshake = false) (version? : Option Int) :
    (s.apply e).1.items uri (l.tag (es ++ [e]) version?) = l.value (es ++ [e]) uri := by
  unfold Server.items value
  rw [h.document?_apply he]
  cases openText? (es ++ [e]) uri with
  | none => rfl
  | some text =>
    simp only [Option.map_some, diagnostics_read, Document.text_read]
    rfl

/-- What is watched for after some events. -/
def Watched (l : Launch) (es : List ServerEvent) (s : Server) : Prop :=
  ∀ uri, ∀ x ∈ s.watching uri, ∃ version? time, l.LastRefresh es uri version? time ∧
    x = (time + l.debounce, l.tag es version?) ∧ Server.elapsed es < x.1

/-- Every publication that is watched for after an event, before any wait ends, is of the last
refresh of its document and is not overdue. -/
theorem Watched.apply (hw : l.Watched es s) (h : l.Holds es s) (he : e.isHandshake = false)
    {x : Nat × Publication} (hx : x ∈ (s.apply e).1.watching uri) :
    ∃ version? time, l.LastRefresh (es ++ [e]) uri version? time ∧
      x = (time + l.debounce, l.tag (es ++ [e]) version?) ∧ Server.elapsed es ≤ x.1 := by
  rcases h.watching_apply he uri with ⟨version?, hr, hwatching⟩ | ⟨-, hwatching⟩ | ⟨hq, hwatching⟩
  · rw [hwatching, List.mem_singleton] at hx
    exact ⟨version?, _, .of_refreshed? hr, hx, hx ▸ Nat.le_add_right _ _⟩
  · rw [hwatching] at hx
    cases hx
  · rw [hwatching] at hx
    obtain ⟨version?, time, hlast, rfl, hlt⟩ := hw uri x hx
    obtain ⟨text, ht⟩ := hlast.exists_openText?
    have htag : l.tag (es ++ [e]) version? = l.tag es version? := by
      unfold tag
      rcases settings_of_quiet hq.1 with ho | ho
      · cases ho.symm.trans ht
      · rw [ho]
    exact ⟨version?, time, hlast.quiet hq, by rw [htag], Nat.le_of_lt hlt⟩

theorem Watched.step (hw : l.Watched es s) (h : l.Holds es s) (he : e.isHandshake = false) :
    l.Watched (es ++ [e]) (s.step e).1 := by
  intro uri x hx
  have hx' : x ∈ (s.apply e).1.settle.1.watching uri := hx
  rw [Server.watching_settle (h.ready.apply he), List.mem_filter, decide_eq_true_eq,
    h.now_apply he] at hx'
  obtain ⟨version?, time, hlast, rfl, -⟩ := hw.apply h he hx'.1
  exact ⟨version?, time, hlast, rfl, hx'.2⟩

theorem Watched.arranged (hw : l.Watched es s) (o : Order) : l.Watched es (s.arranged o) := by
  intro uri x hx
  rw [s.watching_arranged] at hx
  exact hw uri x hx

/-- Where a publication comes from. -/
inductive Origin (l : Launch) (before : List ServerEvent) (e : ServerEvent) (p : Posting) : Prop where
  /-- The document is closed. -/
  | closed (h : e = .closed p.uri) (time : p.time = Server.elapsed before) (items : p.items = [])
      (version? : p.version? = none)
  /-- One window has passed since the document was taken in for the last time. -/
  | refreshed (time : Nat) (h : l.LastRefresh (before ++ [e]) p.uri p.version? time)
      (due : p.time = time + l.debounce)

theorem mem_farewell {p : Posting} {time : Nat} (h : p ∈ e.farewell time) :
    e = .closed p.uri ∧ p.time = time ∧ p.items = [] ∧ p.version? = none := by
  cases e with
  | closed u =>
    rw [List.mem_singleton.1 h]
    exact ⟨rfl, rfl, rfl, rfl⟩
  | _ => cases h

/-- Everything that is published is fresh. -/
theorem Watched.origin (hw : l.Watched es s) (h : l.Holds es s) (he : e.isHandshake = false)
    {p : Posting} (hp : p ∈ s.postings e) :
    l.Origin es e p ∧ p.items = l.value (es ++ [e]) p.uri ∧
      Server.elapsed es ≤ p.time ∧ p.time ≤ Server.elapsed (es ++ [e]) := by
  have hp' : p ∈ (s.postings e).filter (·.uri = p.uri) := List.mem_filter.2 ⟨hp, by simp⟩
  rw [Server.filter_postings h.ready he] at hp'
  rcases List.mem_append.1 hp' with hp | hp
  · obtain ⟨hc, ht, hi, hv⟩ := mem_farewell (List.mem_filter.1 hp).1
    rw [h.now] at ht
    refine ⟨.closed hc ht hi hv, ?_, Nat.le_of_eq ht.symm, ?_⟩
    · rw [hi, hc, value_closed]
    · rw [ht, Server.elapsed_concat]
      exact Nat.le_add_right _ _
  · obtain ⟨x, hx, hpx⟩ := List.mem_map.1 hp
    rw [List.mem_filter, decide_eq_true_eq, h.now_apply he] at hx
    obtain ⟨version?, time, hlast, rfl, hle⟩ := hw.apply h he hx.1
    rw [← hpx]
    exact ⟨.refreshed time hlast rfl, h.items_apply he version?, hle, hx.2⟩

end Step

theorem watched_server (l : Launch) {es : List ServerEvent} (he : ∀ e ∈ es, e.isHandshake = false) :
    l.Watched es (l.server es) := by
  induction es using List.reverseRecOn with
  | nil =>
    intro uri x hx
    cases hx
  | append_singleton es e ih =>
    have hes : ∀ e' ∈ es, e'.isHandshake = false := fun e' h => he e' (List.mem_append_left _ h)
    rw [server_concat]
    exact ((ih hes).step (l.holds_server hes) (he e (by simp))).arranged _

/-! ## How often -/

section Count

variable {l : Launch} {es : List ServerEvent} {s : Server} {e : ServerEvent} {uri : Uri}

theorem farewell_of_ne (hc : e ≠ .closed uri) (time : Nat) :
    (e.farewell time).filter (·.uri = uri) = [] := by
  refine List.filter_eq_nil_iff.2 fun p hp hu => hc ?_
  rw [(mem_farewell hp).1, of_decide_eq_true hu]

/-- What is watched for is published or still watched for, unless the document is closed. -/
theorem Holds.length_postings (h : l.Holds es s) (he : e.isHandshake = false) (hc : e ≠ .closed uri) :
    ((s.postings e).filter (·.uri = uri)).length + ((s.step e).1.watching uri).length
      = ((s.apply e).1.watching uri).length := by
  have hsettle : (s.step e).1.watching uri = ((s.apply e).1.watching uri).filter
      fun x => decide ((s.apply e).1.now < x.1) := Server.watching_settle (h.ready.apply he) uri
  have hsplit := List.length_eq_length_filter_add (l := (s.apply e).1.watching uri)
    fun x => decide (x.1 ≤ (s.apply e).1.now)
  simp only [← decide_not, Nat.not_le] at hsplit
  rw [hsettle, Server.filter_postings h.ready he, farewell_of_ne hc, List.nil_append, List.length_map,
    hsplit]

theorem server_append (l : Launch) (before after : List ServerEvent) :
    l.server (before ++ after) = (l.server before).run l.order after :=
  List.foldl_append

/-- From the event that takes in a document on, and as long as the document is left alone, there is one
publication, or one that is watched for. -/
theorem length_published {before after : List ServerEvent}
    (hh : ∀ e' ∈ before ++ e :: after, e'.isHandshake = false)
    (hr : (l.refreshed? before uri e).isSome = true) (hl : l.Leaves uri (before ++ [e]) after) :
    (((l.server before).published l.order (e :: after)).filter (·.uri = uri)).length
      + ((l.server (before ++ e :: after)).watching uri).length = 1 := by
  induction after using List.reverseRecOn with
  | nil =>
    have he := hh e (by simp)
    have hholds := l.holds_server fun e' h => hh e' (List.mem_append_left _ h)
    have hpublished : (l.server before).published l.order [e] = (l.server before).postings e :=
      List.append_nil _
    obtain ⟨version?, hr⟩ := Option.isSome_iff_exists.1 hr
    have hc := ne_closed_of_refreshed? hr
    rw [hpublished, server_concat, Server.watching_arranged, hholds.length_postings he hc]
    rcases hholds.watching_apply he uri with ⟨version?, -, hw⟩ | ⟨hc', -⟩ | ⟨hq, -⟩
    · rw [hw]
      rfl
    · exact absurd hc' hc
    · cases hq.1.symm.trans hr
  | append_singleton after e' ih =>
    obtain ⟨hl, hq⟩ := leaves_concat.1 hl
    have heq : before ++ e :: (after ++ [e']) = (before ++ e :: after) ++ [e'] := by simp
    rw [heq] at hh ⊢
    have hh' : ∀ e'' ∈ before ++ e :: after, e''.isHandshake = false := fun e'' h =>
      hh e'' (List.mem_append_left _ h)
    have he := hh e' (by simp)
    have hholds := l.holds_server hh'
    rw [← List.append_cons] at hq
    have hlength := hholds.length_postings he hq.2
    have happly : ((l.server (before ++ e :: after)).apply e').1.watching uri
        = (l.server (before ++ e :: after)).watching uri := by
      rcases hholds.watching_apply he uri with ⟨version?, hr, -⟩ | ⟨hc, -⟩ | ⟨-, hw⟩
      · cases hq.1.symm.trans hr
      · exact absurd hc hq.2
      · exact hw
    rw [happly] at hlength
    have hpublished := Server.published_concat l.order (l.server before) (e :: after) e'
    rw [← server_append] at hpublished
    rw [← List.cons_append, hpublished, List.filter_append, List.length_append, server_concat,
      Server.watching_arranged]
    have := ih hh' hl
    omega

/-! ## What is published last -/

/-- A document that has been opened, changed or closed, and for which nothing is watched for, has what is
to be published. -/
theorem last_posting (he : ∀ e ∈ es, e.isHandshake = false)
    (ht : ∃ e ∈ es, (e.text? uri).isSome = true) (hw : (l.server es).watching uri = []) :
    ∃ p, ((l.postings es).filter (·.uri = uri)).getLast? = some p ∧ p.items = l.value es uri := by
  induction es using List.reverseRecOn with
  | nil =>
    obtain ⟨e, hm, -⟩ := ht
    cases hm
  | append_singleton es e ih =>
    have hes : ∀ e' ∈ es, e'.isHandshake = false := fun e' h => he e' (List.mem_append_left _ h)
    have he := he e (by simp)
    have hholds := l.holds_server hes
    rw [postings_concat, List.filter_append, List.getLast?_append]
    cases hp : (((l.server es).postings e).filter (·.uri = uri)).getLast? with
    | some p =>
      obtain ⟨hm, hu⟩ := List.mem_filter.1 (List.mem_of_getLast? hp)
      refine ⟨p, rfl, ?_⟩
      rw [((l.watched_server hes).origin hholds he hm).2.1, of_decide_eq_true hu]
    | none =>
      -- The event publishes nothing, so it leaves the document alone, and nothing was watched for.
      have hnil := List.getLast?_eq_none_iff.1 hp
      have hlength : e ≠ .closed uri → (((l.server es).apply e).1.watching uri).length = 0 := by
        intro hc
        rw [← hholds.length_postings he hc, hnil, ← Server.watching_arranged l.order, ← server_concat, hw]
        rfl
      rcases hholds.watching_apply he uri with ⟨version?, hr, hx⟩ | ⟨rfl, -⟩ | ⟨hq, hx⟩
      · have := hlength (ne_closed_of_refreshed? hr)
        rw [hx] at this
        cases this
      · rw [Server.filter_postings hholds.ready he] at hnil
        simp [ServerEvent.farewell] at hnil
      · have hw' := List.eq_nil_of_length_eq_zero (hx ▸ hlength hq.2)
        have ht' : ∃ e' ∈ es, (e'.text? uri).isSome = true := by
          obtain ⟨e', hm, ht⟩ := ht
          rcases List.mem_append.1 hm with hm | hm
          · exact ⟨e', hm, ht⟩
          · rw [List.mem_singleton.1 hm, text?_of_quiet hq.1 hq.2] at ht
            cases ht
        rw [Option.none_or, value_of_quiet hq]
        exact ih hes ht' hw'

end Count

/-- Nothing stale is published. -/
structure Fresh (l : Launch) (es : List ServerEvent) : Prop where
  /-- The postings are the notices with diagnostics that are sent. -/
  sent : (l.postings es).map Posting.notice = (l.sent es).filter Notice.isDiagnostics
  /-- Whatever is published tells what the text and the settings say by then. It is sent for a document
  that is closed, or one window after the document was taken in for the last time. -/
  origin : ∀ before e after, es = before ++ e :: after → ∀ p ∈ (l.server before).postings e,
    l.Origin before e p ∧ p.items = l.value (before ++ [e]) p.uri ∧
      Server.elapsed before ≤ p.time ∧ p.time ≤ Server.elapsed (before ++ [e])
  /-- Taking in a document publishes at most once. -/
  once : ∀ uri before e after, es = before ++ e :: after →
    (l.refreshed? before uri e).isSome = true → l.Leaves uri (before ++ [e]) after →
      (((l.server before).published l.order (e :: after)).filter (·.uri = uri)).length ≤ 1
  /-- A pass is pending only until one window after the document was taken in for the last time. -/
  pending : ∀ uri number, (l.server es).workspace.isCurrent ⟨uri, number⟩ = true →
    ∃ version? time, l.LastRefresh es uri version? time ∧ Server.elapsed es < time + l.debounce
  /-- Where no pass is pending, the last publication tells what the text and the settings say. -/
  last : ∀ uri, (∃ e ∈ es, (e.text? uri).isSome = true) →
    (∀ number, (l.server es).workspace.isCurrent ⟨uri, number⟩ = false) →
      ∃ p, ((l.postings es).filter (·.uri = uri)).getLast? = some p ∧ p.items = l.value es uri

/-- What a server publishes is never stale, whatever its client does after its introduction and in
whatever order the server goes through its documents. -/
theorem postings_fresh (l : Launch) {es : List ServerEvent}
    (he : ∀ e ∈ es, e.isHandshake = false) : l.Fresh es := by
  refine ⟨?_, ?_, ?_, fun uri number hc => ?_, fun uri ht hn => ?_⟩
  · rw [postings, sent, List.map_append, List.filter_append, Server.map_notice_postings,
      Server.map_notice_published]
    rfl
  · rintro before e after rfl p hp
    have hbefore : ∀ e' ∈ before, e'.isHandshake = false := fun e' h =>
      he e' (List.mem_append_left _ h)
    exact (l.watched_server hbefore).origin (l.holds_server hbefore) (he e (by simp)) hp
  · rintro uri before e after rfl hr hl
    have := length_published he hr hl
    omega
  · obtain ⟨w, hw, hp⟩ := (l.holds_server he).ready.waited _ hc
    have hx : (w.due, w.tag) ∈ (l.server es).watching uri := by
      refine List.mem_map.2 ⟨w, List.mem_filter.2 ⟨hw, ?_⟩, rfl⟩
      rw [hp, hc]
      simp
    obtain ⟨version?, time, hlast, hx, hlt⟩ := l.watched_server he uri _ hx
    rw [hx] at hlt
    exact ⟨version?, time, hlast, hlt⟩
  · exact last_posting he ht (Server.watching_eq_nil hn)

/-- A document is changed within the window of its first text, diagnostics are switched off while the
change is pending, and in the end it is closed. -/
def reconfiguredEvents : List ServerEvent :=
  [.opened ⟨"file:///a.bb"⟩ 1 "A = ", .advance 6, .changed ⟨"file:///a.bb"⟩ 2 ["A =", "B = \"é"],
    .advance 6, .configured (.obj [("bitbake", .obj [("diagnostics", .bool false)])]), .advance 12,
    .changed ⟨"file:///a.bb"⟩ 3 [], .closed ⟨"file:///a.bb"⟩]

theorem postings_fresh_reconfigured :
    (∀ e ∈ reconfiguredEvents, e.isHandshake = false) ∧
      Fresh ⟨64, 10, none, ["utf-8"], .alternating⟩ reconfiguredEvents := by
  have he : ∀ e ∈ reconfiguredEvents, e.isHandshake = false := by
    simp [reconfiguredEvents, ServerEvent.isHandshake]
  exact ⟨he, postings_fresh _ he⟩

end Launch

end Recipe
