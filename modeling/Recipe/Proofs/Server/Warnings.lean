import Recipe.Proofs.Grammar.Reading
import Recipe.Proofs.Server.Mirror

/-!
# Warnings about large texts

A server warns when a document crosses the limit: its text is above the limit, and the text before it
was not, or there was none since the document was last closed. The server has no memory of its warnings;
it compares the document it has with the one that takes its place (`Server.filter_perform`). What it has
is told by the history, so the warnings about a document are counted by the events that make it cross
(`Launch.warnings_mark_crossings`). A change of the settings takes in every text again, but none of them
crosses (`Server.filter_performAll_reread`).
-/

namespace Recipe

open Text (bytes)

/-! ## Whom a warning is about -/

/-- What a warning says after the size of the text. -/
def refusalTail (limit : Nat) : String :=
  " bytes, above the " ++ toString limit ++ " byte limit; BitBake analysis is disabled for it"

/-- Whether a notice is a warning about a document: it has the uri of the document and some size. -/
def Notice.warnsAbout (limit : Nat) (uri : Uri) : Notice → Bool
  | warning message => (Grammar.literal? (uri.text ++ " is ") message.toList).any fun rest =>
      rest.dropWhile Char.isDigit == (refusalTail limit).toList
  | _ => false

theorem Notice.isWarning_of_warnsAbout {limit : Nat} {uri : Uri} {n : Notice}
    (h : n.warnsAbout limit uri = true) : n.isWarning = true := by
  cases n with
  | warning message => rfl
  | _ => cases h

theorem all_isDigit_toString (n : Nat) : (toString n).toList.all Char.isDigit = true := by
  rw [Nat.toString_eq_ofList_toDigits, String.toList_ofList, List.all_eq_true]
  exact fun c hc => Nat.isDigit_of_mem_toDigits (by decide) (by decide) hc

theorem head?_refusalTail (limit : Nat) : (refusalTail limit).toList.head? = some ' ' := by
  have hhead : ∀ a b c : String, a.toList.head? = some ' ' → (a ++ b ++ c).toList.head? = some ' ' := by
    intro a b c ha
    rw [String.toList_append, String.toList_append, List.append_assoc, List.head?_append, ha]
    rfl
  exact hhead _ _ _ (by decide)

theorem Server.refusalWarning_eq (s : Server) (u : Uri) (text : String) : s.refusalWarning u text
    = .warning (u.text ++ " is " ++ toString (bytes text.toList) ++ refusalTail s.limit) := by
  have happend : ∀ a b c d e f : String, a ++ b ++ c ++ d ++ e ++ f = a ++ b ++ c ++ (d ++ e ++ f) := by
    intro a b c d e f
    simp only [String.append_assoc]
  exact congrArg Notice.warning (happend ..)

/-- What stands before a blank and a number can be told from the text that they end. -/
theorem eq_of_append_digits {a b d e : List Char} (ha : a.getLast? = some ' ')
    (hb : b.getLast? = some ' ') (hd : d.all Char.isDigit = true) (he : e.all Char.isDigit = true)
    (h : a ++ d = b ++ e) : a = b := by
  have hr := congrArg List.reverse h
  rw [List.reverse_append, List.reverse_append] at hr
  have hblank : ∀ {c : List Char}, c.getLast? = some ' ' → c.reverse.head?.any Char.isDigit = false := by
    intro c hc
    rw [List.head?_reverse, hc]
    rfl
  have hinj := Text.append_inj_of_head? (by rwa [List.all_reverse]) (hblank ha)
    (by rwa [List.all_reverse]) (hblank hb) hr
  exact List.reverse_inj.1 hinj.2

/-- A warning is about the document it was sent for, and about no other. -/
theorem warnsAbout_refusalWarning (s : Server) (u : Uri) (text : String) (uri : Uri) :
    (s.refusalWarning u text).warnsAbout s.limit uri = decide (u = uri) := by
  have hdigits := all_isDigit_toString (bytes text.toList)
  have htail : (refusalTail s.limit).toList.head?.any Char.isDigit = false := by
    rw [head?_refusalTail]
    rfl
  rw [s.refusalWarning_eq, Notice.warnsAbout, String.toList_append, String.toList_append,
    List.append_assoc]
  generalize (toString (bytes text.toList)).toList = digits at hdigits
  generalize (refusalTail s.limit).toList = tail at htail
  have hcut : Grammar.Cut.span Char.isDigit (digits ++ tail) = ⟨digits, tail⟩ :=
    Grammar.span_of_all hdigits htail
  rw [Bool.eq_iff_iff, decide_eq_true_eq, Option.any_eq_true]
  constructor
  · rintro ⟨rest, hrest, hdrop⟩
    have hmessage := Grammar.eq_append_of_literal? hrest
    have hsplit := List.takeWhile_append_dropWhile (p := Char.isDigit) (l := rest)
    rw [eq_of_beq hdrop] at hsplit
    rw [← hsplit, ← List.append_assoc, ← List.append_assoc, List.append_cancel_right_eq] at hmessage
    have hname := eq_of_append_digits (by simp) (by simp) hdigits List.all_takeWhile hmessage
    rw [String.toList_append, String.toList_append, List.append_cancel_right_eq, String.toList_inj] at hname
    cases u
    cases uri
    exact congrArg Uri.mk hname
  · rintro rfl
    exact ⟨digits ++ tail, Grammar.literal?_append _ _, beq_iff_eq.2 (congrArg Grammar.Cut.rest hcut)⟩

/-! ## Warnings of an act -/

/-- Whether a text is above a limit. -/
def Text.isAbove (limit : Nat) (text : String) : Bool :=
  decide (limit < bytes text.toList)

namespace Server

/-- The warnings of an act: a text above the limit takes the place of none, or of one within it. -/
def warnings (s : Server) : Act → List Notice
  | .refresh uri _ text =>
    if !s.isRefused uri && Text.isAbove s.limit text then [s.refusalWarning uri text] else []
  | .close _ => []

theorem filter_embeddedNotice (host : Uri) (c : Changes) :
    (embeddedNotice host c).filter Notice.isWarning = [] := by
  unfold embeddedNotice
  split <;> rfl

theorem isRefused_install (s : Server) (uri : Uri) (text : String) :
    { s with workspace := s.workspace.install s.limit uri text }.isRefused uri
      = Text.isAbove s.limit text := by
  rw [isRefused, Workspace.document?_install, if_pos rfl, Option.any_some, Bool.eq_iff_iff,
    Option.isNone_iff_eq_none, Document.root?_read, Text.isAbove, decide_eq_true_eq]

/-- An act sends its warnings, and no others. -/
theorem filter_perform {s : Server} (hl : s.workspace.limit? = some s.limit) (a : Act) :
    (s.perform a).2.filter Notice.isWarning = s.warnings a := by
  cases a with
  | refresh uri version? text =>
    have hd := Workspace.document?_install s.workspace s.limit uri text uri
    rw [if_pos rfl] at hd
    rw [perform, refresh, Workspace.update_eq hl]
    dsimp only
    rw [refreshEmbedded_eq version? hd, isRefused_install, List.filter_append, filter_embeddedNotice,
      List.append_nil, warnings]
    split <;> rfl
  | close uri =>
    rw [perform, apply, closeEmbedded_eq, List.filter_append, filter_embeddedNotice]
    rfl

/-- No text crosses the limit when it is taken in again. -/
theorem warnings_of_reread {s : Server} (hr : s.Ready) {a : Act} (ha : s.reread? a.uri = some a) :
    s.warnings a = [] := by
  obtain ⟨d, hd, heq⟩ := Option.map_eq_some_iff.1 ha
  have hrefused : s.isRefused a.uri = Text.isAbove s.limit d.text := by
    rw [isRefused, hd, Option.any_some, Bool.eq_iff_iff, Option.isNone_iff_eq_none,
      hr.read a.uri d hd, Document.root?_read, Document.text_read, Text.isAbove, decide_eq_true_eq]
  rw [← heq, warnings, hrefused]
  cases Text.isAbove s.limit d.text <;> rfl

theorem filter_performAll_reread {s : Server} (hr : s.Ready) {acts : List Act}
    (ha : ∀ a ∈ acts, s.reread? a.uri = some a) :
    (s.performAll acts).2.filter Notice.isWarning = [] := by
  induction acts generalizing s with
  | nil => rfl
  | cons a acts ih =>
    obtain ⟨hfirst, hothers⟩ := List.forall_mem_cons.1 ha
    have hsame : (s.perform a).1.reread? = s.reread? := by
      funext u
      rw [reread?, reread?, document?_reread hr hfirst]
    rw [performAll, List.filter_append, filter_perform hr.limit, warnings_of_reread hr hfirst,
      List.nil_append]
    exact ih (hr.perform a) fun b hb => by rw [hsame]; exact hothers b hb

theorem filter_settle (s : Server) : s.settle.2.filter Notice.isWarning = [] := by
  refine List.filter_eq_nil_iff.2 fun n hn => ?_
  obtain ⟨f, -, hf⟩ := List.mem_filterMap.1 hn
  obtain ⟨ds, -, rfl⟩ := Option.map_eq_some_iff.1 hf
  exact Bool.false_ne_true

theorem reread?_of_mem_acts {s : Server} {configuration : Json} {a : Act}
    (ha : a ∈ s.acts (.configured configuration)) : s.reread? a.uri = some a := by
  rw [acts] at ha
  split at ha
  · cases ha
  · obtain ⟨u, -, hu⟩ := List.mem_filterMap.1 ha
    obtain ⟨d, -, rfl⟩ := Option.map_eq_some_iff.1 hu
    exact hu

/-- A change of the settings gives no warnings. -/
theorem flatMap_warnings_configured {s : Server} (hr : s.Ready) (configuration : Json) :
    (s.acts (.configured configuration)).flatMap s.warnings = [] :=
  List.flatMap_eq_nil_iff.2 fun _ ha => warnings_of_reread hr (reread?_of_mem_acts ha)

/-- The warnings that an event sends are those of the acts that it makes, one act after the
other. -/
theorem filter_step {s : Server} (hr : s.Ready) {e : ServerEvent} (he : e.isHandshake = false) :
    (s.step e).2.filter Notice.isWarning = (s.acts e).flatMap s.warnings := by
  have hone : ∀ a, ((s.performAll [a]).2).filter Notice.isWarning = [a].flatMap s.warnings := by
    intro a
    rw [performAll, performAll, List.append_nil, filter_perform hr.limit, List.flatMap_singleton]
  rw [step_eq, List.filter_append, filter_settle, List.append_nil, apply_eq hr he]
  cases e with
  | handshake options? encodings => cases he
  | opened uri version text => exact hone _
  | changed uri version texts =>
    rw [acts]
    cases texts.getLast? with
    | none => rfl
    | some text => exact hone _
  | closed uri => exact hone _
  | configured configuration =>
    rw [flatMap_warnings_configured hr]
    exact filter_performAll_reread (hr.prepare _) fun a => reread?_of_mem_acts
  | advance ms => rfl

/-- An act sends one warning about `uri` if it gives `uri` a text above the limit and `uri` is not
refused already, and none otherwise. -/
theorem countP_warnings (s : Server) (a : Act) (uri : Uri) :
    (s.warnings a).countP (Notice.warnsAbout s.limit uri)
      = if a.uri = uri ∧ s.isRefused uri = false ∧ a.text?.any (Text.isAbove s.limit) = true then 1
        else 0 := by
  cases a with
  | refresh u version? text =>
    rw [warnings, Act.uri, Act.text?, Option.any_some]
    by_cases hu : u = uri
    · subst hu
      cases s.isRefused u <;> cases Text.isAbove s.limit text <;> simp [warnsAbout_refusalWarning]
    · cases s.isRefused u <;> cases Text.isAbove s.limit text <;> simp [warnsAbout_refusalWarning, hu]
  | close u => simp [warnings, Act.text?]

end Server

/-! ## Crossings of a history -/

/-- Whether an event gives a document a text above the limit, while the document was not open before or
had a text within the limit. -/
def ServerEvent.crosses (limit : Nat) (before : List ServerEvent) (uri : Uri) (e : ServerEvent) : Bool :=
  (e.text? uri).join.any (Text.isAbove limit) && !(openText? before uri).any (Text.isAbove limit)

/-- How many of some events make a document cross the limit. -/
def crossings (limit : Nat) (uri : Uri) (es : List ServerEvent) : Nat :=
  es.zipIdx.countP fun x => x.1.crosses limit (es.take x.2) uri

theorem crossings_concat (limit : Nat) (uri : Uri) (es : List ServerEvent) (e : ServerEvent) :
    crossings limit uri (es ++ [e])
      = crossings limit uri es + if e.crosses limit es uri = true then 1 else 0 := by
  have hfront : es.zipIdx.countP (fun x => x.1.crosses limit ((es ++ [e]).take x.2) uri)
      = crossings limit uri es := by
    refine List.countP_congr fun x hx => ?_
    have hlt := List.snd_lt_of_mem_zipIdx hx
    rw [List.take_append_of_le_length (by omega)]
  rw [crossings, List.zipIdx_append, List.countP_append, hfront, List.zipIdx_singleton,
    List.countP_singleton]
  simp

namespace Launch

section Step

variable {l : Launch} {es : List ServerEvent} {s : Server} {e : ServerEvent} {uri : Uri}

theorem Holds.isRefused_eq (h : l.Holds es s) (uri : Uri) :
    s.isRefused uri = (openText? es uri).any (Text.isAbove l.limit) := by
  rw [Server.isRefused, h.document?]
  cases openText? es uri with
  | none => rfl
  | some text =>
    rw [Option.map_some, Option.any_some, Option.any_some, Bool.eq_iff_iff, Option.isNone_iff_eq_none,
      Document.root?_read, Text.isAbove, decide_eq_true_eq]

theorem countP_warnsAbout (limit : Nat) (uri : Uri) (ns : List Notice) :
    ns.countP (Notice.warnsAbout limit uri)
      = (ns.filter Notice.isWarning).countP (Notice.warnsAbout limit uri) := by
  rw [List.countP_filter]
  refine List.countP_congr fun n _ => ?_
  rw [Bool.and_eq_true]
  exact ⟨fun h => ⟨h, n.isWarning_of_warnsAbout h⟩, And.left⟩

/-- One event warns about a document if and only if it makes the document cross the limit. -/
theorem Holds.countP_step (h : l.Holds es s) (he : e.isHandshake = false) (uri : Uri) :
    (s.step e).2.countP (Notice.warnsAbout l.limit uri)
      = if e.crosses l.limit es uri = true then 1 else 0 := by
  have hone : ∀ a : Act, e.text? uri = (if a.uri = uri then some a.text? else none) →
      ([a].flatMap s.warnings).countP (Notice.warnsAbout s.limit uri)
        = if e.crosses s.limit es uri = true then 1 else 0 := by
    intro a ha
    rw [List.flatMap_singleton, Server.countP_warnings, h.isRefused_eq, ← h.limit, ServerEvent.crosses, ha]
    by_cases hu : a.uri = uri
    · simp [hu, and_comm]
    · simp [hu]
  rw [countP_warnsAbout, Server.filter_step h.ready he, ← h.limit]
  cases e with
  | handshake options? encodings => cases he
  | opened u version text => exact hone (.refresh u (some version) text) rfl
  | changed u version texts =>
    rw [Server.acts]
    cases hlast : texts.getLast? with
    | none => simp [ServerEvent.crosses, ServerEvent.text?, hlast]
    | some text =>
      refine hone (.refresh u (some version) text) ?_
      rw [ServerEvent.text?, hlast]
      rfl
  | closed u => exact hone (.close u) rfl
  | configured configuration =>
    rw [Server.flatMap_warnings_configured h.ready]
    rfl
  | advance ms => rfl

/-- An event that is not about a document does not make it cross the limit. -/
theorem crosses_of_other (limit : Nat) (h : e.uri? ≠ some uri) : e.crosses limit es uri = false := by
  have htext : e.text? uri = none := by
    cases ht : e.text? uri with
    | none => rfl
    | some text? => exact absurd (uri?_of_text? ht) h
  rw [ServerEvent.crosses, htext]
  rfl

/-- An event warns about documents that the events name. -/
theorem Holds.exists_warnsAbout (h : l.Holds es s) (he : e.isHandshake = false) {n : Notice}
    (hn : n ∈ (s.step e).2) (hw : n.isWarning = true) :
    ∃ uri ∈ (es ++ [e]).filterMap ServerEvent.uri?, n.warnsAbout l.limit uri = true := by
  have hmem := List.mem_filter.2 ⟨hn, hw⟩
  rw [Server.filter_step h.ready he] at hmem
  obtain ⟨a, ha, hna⟩ := List.mem_flatMap.1 hmem
  refine ⟨a.uri, h.uri_mem_of_mem_acts ha, ?_⟩
  cases a with
  | refresh u version? text =>
    rw [Server.warnings] at hna
    split at hna
    · rw [List.mem_singleton.1 hna, ← h.limit, warnsAbout_refusalWarning]
      exact decide_eq_true rfl
    · cases hna
  | close u => cases hna

end Step

theorem countP_sent (l : Launch) {es : List ServerEvent} (he : ∀ e ∈ es, e.isHandshake = false)
    (uri : Uri) : (l.sent es).countP (Notice.warnsAbout l.limit uri) = crossings l.limit uri es := by
  induction es using List.reverseRecOn with
  | nil => rfl
  | append_singleton es e ih =>
    have hes : ∀ e' ∈ es, e'.isHandshake = false := fun e' h => he e' (List.mem_append_left _ h)
    rw [sent_concat, List.countP_append, ih hes, crossings_concat,
      (l.holds_server hes).countP_step (he e (by simp))]

theorem exists_warnsAbout_of_mem_sent (l : Launch) {es : List ServerEvent}
    (he : ∀ e ∈ es, e.isHandshake = false) {n : Notice} (hn : n ∈ l.sent es) (hw : n.isWarning = true) :
    ∃ uri ∈ es.filterMap ServerEvent.uri?, n.warnsAbout l.limit uri = true := by
  induction es using List.reverseRecOn with
  | nil => cases hn
  | append_singleton es e ih =>
    have hes : ∀ e' ∈ es, e'.isHandshake = false := fun e' h => he e' (List.mem_append_left _ h)
    rw [sent_concat] at hn
    rcases List.mem_append.1 hn with hn | hn
    · obtain ⟨uri, hu, hwarns⟩ := ih hes hn
      rw [List.filterMap_append]
      exact ⟨uri, List.mem_append_left _ hu, hwarns⟩
    · exact (l.holds_server hes).exists_warnsAbout (he e (by simp)) hn hw

/-- The warnings about a document are as many as the events that made it cross the limit. Changes of the
settings give no warnings, in whatever order the documents are taken in again, events of other documents
none about this one, and every warning is about a document that the events name. -/
theorem warnings_mark_crossings (l : Launch) {es : List ServerEvent}
    (he : ∀ e ∈ es, e.isHandshake = false) :
    (∀ uri, (l.sent es).countP (Notice.warnsAbout l.limit uri) = crossings l.limit uri es) ∧
    (∀ n ∈ l.sent es, n.isWarning = true →
      ∃ uri ∈ es.filterMap ServerEvent.uri?, n.warnsAbout l.limit uri = true) ∧
    (∀ configuration n, n ∈ ((l.server es).step (.configured configuration)).2 → n.isWarning = false) ∧
    ∀ (e : ServerEvent) uri, e.isHandshake = false → e.uri? ≠ some uri →
      ((l.server es).step e).2.countP (Notice.warnsAbout l.limit uri) = 0 := by
  have hholds := l.holds_server he
  refine ⟨l.countP_sent he, fun n => l.exists_warnsAbout_of_mem_sent he, fun configuration n hn => ?_,
    fun e uri hh hu => ?_⟩
  · have hnone := Server.filter_step hholds.ready (e := .configured configuration) rfl
    rw [Server.flatMap_warnings_configured hholds.ready] at hnone
    exact Bool.eq_false_iff.2 (List.filter_eq_nil_iff.1 hnone n hn)
  · rw [hholds.countP_step hh, crosses_of_other l.limit hu]
    rfl

/-- A document grows above the limit, stays there, is taken in again, shrinks, grows, and is closed and
opened again; another one is opened with a large text. -/
def growingEvents : List ServerEvent :=
  [.opened ⟨"file:///a.bb"⟩ 1 "A = 1", .changed ⟨"file:///a.bb"⟩ 2 ["", "A = \"éé\""],
    .changed ⟨"file:///a.bb"⟩ 3 ["A = \"ééé\""],
    .configured (.obj [("bitbake", .obj [("diagnostics", .bool false)])]),
    .opened ⟨"file:///b.bb"⟩ 1 "A = \"éé\"", .changed ⟨"file:///a.bb"⟩ 4 ["A"],
    .changed ⟨"file:///a.bb"⟩ 5 ["A = \"éé\""], .closed ⟨"file:///a.bb"⟩,
    .opened ⟨"file:///a.bb"⟩ 1 "A = \"éé\""]

theorem warnings_mark_crossings_growing :
    (∀ e ∈ growingEvents, e.isHandshake = false) ∧
    (sent ⟨8, 10, none, [], .alternating⟩ growingEvents).countP (Notice.warnsAbout 8 ⟨"file:///a.bb"⟩) = 3 ∧
    (sent ⟨8, 10, none, [], .alternating⟩ growingEvents).countP (Notice.warnsAbout 8 ⟨"file:///b.bb"⟩) = 1 := by
  have he : ∀ e ∈ growingEvents, e.isHandshake = false := by
    simp [growingEvents, ServerEvent.isHandshake]
  have hcount := (warnings_mark_crossings ⟨8, 10, none, [], .alternating⟩ he).1
  refine ⟨he, (hcount _).trans ?_, (hcount _).trans ?_⟩
  · decide
  · decide

end Launch

end Recipe
