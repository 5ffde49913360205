import Recipe.Proofs.Server.History
import Recipe.Proofs.Server.Posting

/-!
# Servers that differ in the encoding

The encoding agreed on with a client is only used to write positions. So two runs with the same events
whose clients offer different encodings lead to servers that differ in nothing but that encoding
(`Launch.server_offering`), and publish for the same documents at the same times
(`Server.map_heading_postings_recode`).
-/

namespace Recipe

section Tags

variable {α β : Type}

/-- A wait with another tag. -/
def Waiting.map (f : α → β) (w : Waiting α) : Waiting β :=
  ⟨w.pass, w.due, f w.tag⟩

/-- The end of a wait with another tag. -/
def Finished.map (f : α → β) (x : Finished α) : Finished β :=
  ⟨x.pass, x.time, f x.tag, x.diagnostics?⟩

/-- Ending waits commutes with a map of their tags. -/
theorem Workspace.settle_map (f : α → β) (v : Workspace) (now : Nat) (ws : List (Waiting α)) :
    v.settle now (ws.map (.map f)) = ⟨(v.settle now ws).workspace,
      (v.settle now ws).waiting.map (.map f), (v.settle now ws).finished.map (.map f)⟩ := by
  induction ws generalizing v with
  | nil => rfl
  | cons w ws ih =>
    by_cases hc : v.isCurrent w.pass = true
    · by_cases hd : w.due ≤ now
      · simp [settle, hc, hd, ih, Finished.map, Waiting.map]
      · simp [settle, hc, hd, ih, Waiting.map]
    · simp [settle, hc, ih, Finished.map, Waiting.map]

end Tags

/-- The publication in another encoding. -/
def Publication.recode (e : Encoding) (p : Publication) : Publication :=
  { p with encoding := e }

/-- What is told of a publication besides the diagnostics: its time, its document and its version. -/
def Posting.heading (p : Posting) : Nat × Uri × Option Int :=
  (p.time, p.uri, p.version?)

namespace Server

/-- The server whose client had chosen another encoding. -/
def recode (e : Encoding) (s : Server) : Server :=
  { s with encoding := e, waiting := s.waiting.map (.map (.recode e)) }

section Apply

variable (e : Encoding) (s : Server)

@[simp] theorem workspace_recode : (s.recode e).workspace = s.workspace := rfl

theorem refreshEmbedded_recode (host : Uri) (text : String) : (s.recode e).refreshEmbedded host text
    = ((s.refreshEmbedded host text).1.recode e, (s.refreshEmbedded host text).2) := by
  have hsettings : (s.recode e).settings = s.settings := rfl
  unfold refreshEmbedded
  rw [hsettings, workspace_recode]
  cases s.settings.embeddedDocuments with
  | true => cases s.workspace.document? host <;> rfl
  | false => rfl

theorem schedule_recode (pass : Pass) (version? : Option Int) :
    (s.recode e).schedule pass version? = (s.schedule pass version?).recode e := by
  simp [schedule, recode, Waiting.map, Publication.recode]

theorem refresh_recode (uri : Uri) (version? : Option Int) (text : String) :
    (s.recode e).refresh uri version? text
      = ((s.refresh uri version? text).1.recode e, (s.refresh uri version? text).2) := by
  unfold refresh
  rw [workspace_recode]
  cases s.workspace.update uri text with
  | ok r =>
    have ht : { s.recode e with workspace := r.1 } = recode e { s with workspace := r.1 } := rfl
    dsimp only
    rw [ht, refreshEmbedded_recode]
    dsimp only
    rw [schedule_recode]
    rfl
  | error r =>
    dsimp only
    rw [refreshEmbedded_recode]

theorem refreshAll_recode (uris : List Uri) :
    (s.recode e).refreshAll uris = ((s.refreshAll uris).1.recode e, (s.refreshAll uris).2) := by
  induction uris generalizing s with
  | nil => rfl
  | cons uri uris ih =>
    rw [refreshAll, refreshAll, workspace_recode]
    cases s.workspace.document? uri with
    | none => exact ih s
    | some d =>
      dsimp only
      rw [refresh_recode]
      dsimp only
      rw [ih]

/-- What an event does at once does not depend on the encoding. -/
theorem apply_recode {ev : ServerEvent} (he : ev.isHandshake = false) :
    (s.recode e).apply ev = ((s.apply ev).1.recode e, (s.apply ev).2) := by
  cases ev with
  | handshake options? encodings => cases he
  | opened uri version text => exact refresh_recode e s uri (some version) text
  | changed uri version texts =>
    rw [apply, apply]
    cases texts.getLast? with
    | none => rfl
    | some text => exact refresh_recode e s uri (some version) text
  | closed uri => rfl
  | configured configuration =>
    rw [apply, apply]
    cases configuredSettings? configuration with
    | none => rfl
    | some settings =>
      have hsettings : (s.recode e).settings = s.settings := rfl
      dsimp only
      rw [hsettings, workspace_recode]
      by_cases h : settings = s.settings
      · rw [if_pos h, if_pos h]
      · rw [if_neg h, if_neg h]
        exact refreshAll_recode e { s with settings } s.workspace.uris
  | advance ms => rfl

theorem fst_settle_recode : (s.recode e).settle.1 = s.settle.1.recode e := by
  unfold settle
  dsimp only [recode]
  rw [Workspace.settle_map]

theorem fst_step_recode {ev : ServerEvent} (he : ev.isHandshake = false) :
    ((s.recode e).step ev).1 = (s.step ev).1.recode e := by
  rw [step_eq, step_eq, apply_recode e s he]
  exact fst_settle_recode e _

/-- An event publishes for the same documents at the same times in every encoding. -/
theorem map_heading_postings_recode {ev : ServerEvent} (he : ev.isHandshake = false) :
    ((s.recode e).postings ev).map Posting.heading = (s.postings ev).map Posting.heading := by
  have hlate : ∀ (v : Workspace) (f : Finished Publication),
      ((publication v (f.map (.recode e))).bind (Notice.posting? f.time)).map Posting.heading
        = ((publication v f).bind (Notice.posting? f.time)).map Posting.heading := by
    intro v f
    unfold publication Finished.map
    cases f.diagnostics? <;> rfl
  unfold postings
  rw [apply_recode e s he]
  dsimp only [recode]
  rw [Workspace.settle_map, List.map_append, List.map_append]
  congr 1
  rw [List.filterMap_map, List.map_filterMap, List.map_filterMap]
  exact List.filterMap_congr fun f _ => hlate _ f

end Apply

end Server

namespace Launch

/-- The launch whose client offers other encodings. -/
def offering (l : Launch) (encodings : List String) : Launch :=
  { l with encodings }

/-- A client that offers other encodings has the same server after the same events, with the
encoding that is negotiated from its offer. -/
theorem server_offering (l : Launch) (encodings : List String) {es : List ServerEvent}
    (he : ∀ e ∈ es, e.isHandshake = false) :
    (l.offering encodings).server es = (l.server es).recode (.negotiate encodings) := by
  induction es using List.reverseRecOn with
  | nil => rfl
  | append_singleton es e ih =>
    rw [server_concat, server_concat, ih fun e' h => he e' (List.mem_append_left _ h)]
    exact congrArg (Server.arranged l.order) (Server.fst_step_recode _ _ (he e (by simp)))

end Launch

end Recipe
