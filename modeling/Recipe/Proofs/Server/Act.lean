import Recipe.Proofs.Embedded.Listing
import Recipe.Proofs.Workspace.Basic
import Recipe.Server.Basic

/-!
# What an event does

What an event asks for is done document by document: each act takes in one text or forgets one
document (`Server.apply_eq`). An act is known by what it does to the workspace, to the store and to the
waits (`Server.fst_perform`), and by what it sends. A server whose client has introduced itself is ready
(`Server.Ready`), and stays so with every event but another introduction (`Server.Ready.step`).
-/

namespace Recipe

/-- A text of a document is taken in, or the document is forgotten. -/
inductive Act where
  | refresh (uri : Uri) (version? : Option Int) (text : String)
  | close (uri : Uri)

namespace Act

/-- The document that an act is about. -/
def uri : Act → Uri
  | refresh uri _ _ | close uri => uri

/-- The text that the document has after an act. -/
def text? : Act → Option String
  | refresh _ _ text => some text
  | close _ => none

/-- The call of the store that an act makes. -/
def call (settings : Settings) : Act → Store.Call
  | refresh uri _ text => if settings.embeddedDocuments then .text uri text else .close uri
  | close uri => .close uri

theorem host_call (settings : Settings) (a : Act) : (a.call settings).host = a.uri := by
  cases a with
  | refresh uri version? text =>
    rw [call]
    split <;> rfl
  | close uri => rfl

theorem documentsOf_call (settings : Settings) (limit : Nat) (a : Act) :
    DocumentsOf a.uri ((a.call settings).documents limit) :=
  a.host_call settings ▸ (a.call settings).documentsOf_documents limit

/-- What the client is told at the end of an act: no diagnostics for a document that is forgotten. -/
def farewell : Act → List Notice
  | refresh _ _ _ => []
  | close uri => [.diagnostics uri [] none]

end Act

/-- Whether a notice is a warning. -/
def Notice.isWarning : Notice → Bool
  | warning _ => true
  | _ => false

theorem Document.text_read (limit : Nat) (uri : Uri) (source : String) :
    (Document.read limit uri source).text = source := by
  unfold Document.read parse
  dsimp only
  split <;> rfl

theorem Document.root?_read (limit : Nat) (uri : Uri) (source : String) :
    (Document.read limit uri source).tree.root? = none ↔ limit < Text.bytes source.toList := by
  unfold Document.read parse
  dsimp only
  split
  · rename_i h
    simp [h, Except.toOption, Document.ofTree, Tree.withoutRoot]
  · rename_i h
    simp [h, Except.toOption, Document.ofTree]

/-- Whether the client introduces itself. -/
def ServerEvent.isHandshake : ServerEvent → Bool
  | handshake _ _ => true
  | _ => false

namespace Server

/-! ## Acts -/

/-- Carries out an act. -/
def perform (s : Server) : Act → Server × List Notice
  | .refresh uri version? text => s.refresh uri version? text
  | .close uri => s.apply (.closed uri)

/-- Carries out acts one after the other. -/
def performAll (s : Server) : List Act → Server × List Notice
  | [] => (s, [])
  | a :: acts =>
    (((s.perform a).1.performAll acts).1, (s.perform a).2 ++ ((s.perform a).1.performAll acts).2)

/-- The workspace after an act. -/
def workspaceAfter (s : Server) : Act → Workspace
  | .refresh uri _ text => s.workspace.install s.limit uri text
  | .close uri => s.workspace.close uri

/-- The waits that begin with an act. -/
def begun (s : Server) : Act → List (Waiting Publication)
  | .refresh uri version? _ =>
    [⟨⟨uri, s.workspace.nextPass⟩, s.now + s.workspace.debounce,
      ⟨s.settings.diagnostics, s.encoding, version?⟩⟩]
  | .close _ => []

/-- What an act does to the embedded documents. -/
def embeddedAfter (s : Server) (a : Act) : Store × Changes :=
  s.store.apply s.limit (a.call s.settings)

section Perform

variable {s : Server} (hl : s.workspace.limit? = some s.limit)

theorem closeEmbedded_eq (s : Server) (host : Uri) : s.closeEmbedded host
    = ({ s with store := (s.store.apply s.limit (.close host)).1 },
      embeddedNotice host (s.store.apply s.limit (.close host)).2) := rfl

/-- With the document in the workspace, the store is brought up to date by one call. -/
theorem refreshEmbedded_eq {host : Uri} {text : String} (version? : Option Int)
    (hd : s.workspace.document? host = some (.read s.limit host text)) :
    s.refreshEmbedded host text
      = ({ s with store := (s.embeddedAfter (.refresh host version? text)).1 },
        embeddedNotice host (s.embeddedAfter (.refresh host version? text)).2) := by
  unfold refreshEmbedded embeddedAfter Act.call
  split
  · rw [hd]
    rfl
  · exact closeEmbedded_eq s host

include hl

theorem refresh_eq (uri : Uri) (version? : Option Int) (text : String) :
    ∃ warnings : List Notice, warnings.all Notice.isWarning = true ∧
      s.refresh uri version? text
        = ({ s with
            workspace := s.workspaceAfter (.refresh uri version? text)
            store := (s.embeddedAfter (.refresh uri version? text)).1
            waiting := s.waiting ++ s.begun (.refresh uri version? text) },
          warnings ++ embeddedNotice uri (s.embeddedAfter (.refresh uri version? text)).2) := by
  have hd := Workspace.document?_install s.workspace s.limit uri text uri
  rw [if_pos rfl] at hd
  unfold refresh
  rw [Workspace.update_eq hl]
  dsimp only
  rw [refreshEmbedded_eq version? hd]
  refine ⟨_, ?_, rfl⟩
  split <;> rfl

/-- An act changes the workspace and the store of a server and adds the wait that it begins. It
changes no other field. -/
theorem fst_perform (a : Act) : (s.perform a).1 = { s with
    workspace := s.workspaceAfter a
    store := (s.embeddedAfter a).1
    waiting := s.waiting ++ s.begun a } := by
  cases a with
  | refresh uri version? text =>
    obtain ⟨warnings, -, h⟩ := refresh_eq hl uri version? text
    rw [perform, h]
  | close uri => simp [perform, apply, closeEmbedded_eq, begun, workspaceAfter, embeddedAfter, Act.call]

/-- An act sends warnings, then the notice about the embedded documents that changed, then what is
published when the document is closed. -/
theorem snd_perform (a : Act) : ∃ warnings : List Notice, warnings.all Notice.isWarning = true ∧
    (s.perform a).2 = warnings ++ (embeddedNotice a.uri (s.embeddedAfter a).2 ++ a.farewell) := by
  cases a with
  | refresh uri version? text =>
    obtain ⟨warnings, hw, h⟩ := refresh_eq hl uri version? text
    exact ⟨warnings, hw, by rw [perform, h, Act.farewell, List.append_nil]; rfl⟩
  | close uri => exact ⟨[], rfl, rfl⟩

theorem store_perform (a : Act) : (s.perform a).1.store
    = (s.store.replace a.uri ((a.call s.settings).documents s.limit)).1 := by
  rw [fst_perform hl, ← Act.host_call s.settings, ← Store.apply_eq_replace]
  rfl

theorem document?_perform (a : Act) (uri : Uri) : (s.perform a).1.workspace.document? uri
    = if uri = a.uri then a.text?.map (.read s.limit uri) else s.workspace.document? uri := by
  rw [fst_perform hl]
  cases a with
  | refresh u version? text =>
    refine (Workspace.document?_install ..).trans (ite_congr rfl (fun h => ?_) fun _ => rfl)
    rw [h]
    rfl
  | close u => exact Workspace.document?_close ..

end Perform

/-! ## Passes -/

theorem nextPass_le_workspaceAfter (s : Server) (a : Act) :
    s.workspace.nextPass ≤ (s.workspaceAfter a).nextPass := by
  cases a with
  | refresh uri version? text => exact Nat.le_succ _
  | close uri => exact Nat.le_refl _

/-- A wait that begins is for a new pass. -/
theorem number_of_mem_begun {s : Server} {a : Act} {w : Waiting Publication} (hw : w ∈ s.begun a) :
    w.pass.number = s.workspace.nextPass ∧ w.pass.number < (s.workspaceAfter a).nextPass := by
  cases a with
  | refresh uri version? text =>
    rw [List.mem_singleton.1 hw]
    exact ⟨rfl, Nat.lt_succ_self _⟩
  | close uri => cases hw

/-- A pass that is current after an act was so before, or its wait begins with the act. -/
theorem current_or_begun {s : Server} {a : Act} {p : Pass}
    (hp : (s.workspaceAfter a).isCurrent p = true) :
    s.workspace.isCurrent p = true ∨ ∃ w ∈ s.begun a, w.pass = p := by
  cases a with
  | refresh uri version? text =>
    rw [workspaceAfter, Workspace.isCurrent_install] at hp
    split at hp
    · rename_i hu
      refine .inr ⟨_, List.mem_cons_self, ?_⟩
      rw [← of_decide_eq_true hp, ← hu]
    · exact .inl hp
  | close uri =>
    rw [workspaceAfter, Workspace.isCurrent_close, Bool.and_eq_true] at hp
    exact .inl hp.1

/-! ## Ready servers -/

/-- The client has introduced itself. Every document was read from its text, the embedded documents are
listed under their hosts, every wait is for a pass of its own, and every current pass is waited for. -/
structure Ready (s : Server) : Prop where
  limit : s.workspace.limit? = some s.limit
  read : ∀ uri d, s.workspace.document? uri = some d → d = .read s.limit uri d.text
  documentsOf : ∀ host, DocumentsOf host (s.store.ofHost host)
  fresh : ∀ w ∈ s.waiting, w.pass.number < s.workspace.nextPass
  nodup : (s.waiting.map Waiting.pass).Nodup
  waited : ∀ p, s.workspace.isCurrent p = true → ∃ w ∈ s.waiting, w.pass = p

namespace Ready

variable {s : Server}

theorem perform (hr : s.Ready) (a : Act) : (s.perform a).1.Ready := by
  have hdoc := document?_perform hr.limit a
  have hlimit : (s.perform a).1.limit = s.limit := by rw [fst_perform hr.limit]
  refine ⟨?_, fun uri d hd => ?_, fun host => ?_, ?_, ?_, fun p hp => ?_⟩
  · rw [fst_perform hr.limit]
    cases a <;> exact hr.limit
  · rw [hdoc] at hd
    rw [hlimit]
    split at hd
    · obtain ⟨text, -, rfl⟩ := Option.map_eq_some_iff.1 hd
      rw [Document.text_read]
    · exact hr.read uri d hd
  · rw [store_perform hr.limit, Store.ofHost_replace]
    split
    · rename_i hu
      rw [hu]
      exact Store.documentsOf_renew (hr.documentsOf a.uri) (a.documentsOf_call s.settings s.limit)
    · exact hr.documentsOf host
  · rw [fst_perform hr.limit]
    refine List.forall_mem_append.2 ⟨fun w hw => ?_, fun w hw => (number_of_mem_begun hw).2⟩
    exact Nat.lt_of_lt_of_le (hr.fresh w hw) (s.nextPass_le_workspaceAfter a)
  · rw [fst_perform hr.limit, List.map_append]
    refine hr.nodup.append ?_ fun p hp hb => ?_
    · cases a <;> simp [begun]
    · obtain ⟨w, hw, rfl⟩ := List.mem_map.1 hp
      obtain ⟨v, hv, hvw⟩ := List.mem_map.1 hb
      have hlt := hr.fresh w hw
      rw [← hvw, (number_of_mem_begun hv).1] at hlt
      exact Nat.lt_irrefl _ hlt
  · rw [fst_perform hr.limit] at hp ⊢
    rcases current_or_begun hp with hp | ⟨w, hw, hwp⟩
    · exact (hr.waited p hp).imp fun w hw => ⟨List.mem_append_left _ hw.1, hw.2⟩
    · exact ⟨w, List.mem_append_right _ hw, hwp⟩

theorem performAll (hr : s.Ready) (acts : List Act) : (s.performAll acts).1.Ready := by
  induction acts generalizing s with
  | nil => exact hr
  | cons a acts ih => exact ih (hr.perform a)

theorem settle (hr : s.Ready) : s.settle.1.Ready := by
  have hsame := Workspace.sameDocuments_settle s.workspace s.now s.waiting
  obtain ⟨-, hwaiting, hcurrent⟩ := Workspace.settle_eq s.workspace s.now hr.nodup
  have hsub : s.settle.1.waiting.Sublist s.waiting := by
    show (s.workspace.settle s.now s.waiting).waiting.Sublist s.waiting
    rw [hwaiting]
    exact List.filter_sublist
  refine ⟨hsame.limit?.trans hr.limit, fun uri d hd => ?_, hr.documentsOf, fun w hw => ?_, ?_,
    fun p hp => ?_⟩
  · exact hr.read uri d ((hsame.document? uri).symm.trans hd)
  · exact Nat.lt_of_lt_of_eq (hr.fresh w (hsub.subset hw)) hsame.nextPass.symm
  · exact hr.nodup.sublist (hsub.map _)
  · have hp := Bool.and_eq_true_iff.1 ((hcurrent p).symm.trans hp)
    obtain ⟨w, hw, rfl⟩ := hr.waited p hp.1
    refine ⟨w, ?_, rfl⟩
    show w ∈ (s.workspace.settle s.now s.waiting).waiting
    have hdue : ¬ w.due ≤ s.now := by
      have hnone := hp.2
      rw [Bool.not_eq_true', List.any_eq_false] at hnone
      simpa using hnone w hw
    rw [hwaiting, List.mem_filter, Option.isNone_iff_eq_none, Workspace.ended?_eq_none]
    exact ⟨hw, hp.1, Nat.not_le.1 hdue⟩

end Ready

/-! ## Events -/

/-- What an event does at once: it sets the settings or the clock. -/
def prepare (s : Server) : ServerEvent → Server
  | .configured configuration =>
    { s with settings := (configuredSettings? configuration).getD s.settings }
  | .advance ms => { s with now := s.now + ms }
  | _ => s

/-- The act that takes in the text of a document again. -/
def reread? (s : Server) (uri : Uri) : Option Act :=
  (s.workspace.document? uri).map fun d => .refresh uri none d.text

/-- The acts that an event asks for. -/
def acts (s : Server) : ServerEvent → List Act
  | .opened uri version text => [.refresh uri (some version) text]
  | .changed uri version texts => texts.getLast?.toList.map (.refresh uri (some version))
  | .closed uri => [.close uri]
  | .configured configuration =>
    if (configuredSettings? configuration).getD s.settings = s.settings then []
    else s.workspace.uris.filterMap s.reread?
  | _ => []

theorem Ready.prepare {s : Server} (hr : s.Ready) (e : ServerEvent) : (s.prepare e).Ready := by
  obtain ⟨hlimit, hread, hdocuments, hfresh, hnodup, hwaited⟩ := hr
  cases e <;> exact ⟨hlimit, hread, hdocuments, hfresh, hnodup, hwaited⟩

/-- Taking in a text again does not change any document. -/
theorem document?_reread {s : Server} (hr : s.Ready) {uri : Uri} {a : Act} (ha : s.reread? uri = some a)
    (u : Uri) : (s.perform a).1.workspace.document? u = s.workspace.document? u := by
  obtain ⟨d, hd, rfl⟩ := Option.map_eq_some_iff.1 ha
  rw [document?_perform hr.limit]
  split
  · rename_i hu
    obtain rfl : u = uri := hu
    rw [hd]
    exact congrArg some (hr.read u d hd).symm
  · rfl

theorem refreshAll_eq {s : Server} (hr : s.Ready) (uris : List Uri) :
    s.refreshAll uris = s.performAll (uris.filterMap s.reread?) := by
  induction uris generalizing s with
  | nil => rfl
  | cons uri uris ih =>
    rw [refreshAll, List.filterMap_cons]
    cases hd : s.workspace.document? uri with
    | none =>
      simp only [reread?, hd, Option.map_none]
      exact ih hr
    | some d =>
      have ha : s.reread? uri = some (.refresh uri none d.text) := by rw [reread?, hd]; rfl
      have hsame : (s.perform (.refresh uri none d.text)).1.reread? = s.reread? := by
        funext u
        rw [reread?, reread?, document?_reread hr ha]
      rw [ha]
      dsimp only
      rw [performAll, ← hsame, ← ih (hr.perform _)]
      rfl

/-- An event is prepared, and then its acts are carried out. -/
theorem apply_eq {s : Server} (hr : s.Ready) {e : ServerEvent} (he : e.isHandshake = false) :
    s.apply e = (s.prepare e).performAll (s.acts e) := by
  have hone : ∀ (t : Server) a, t.performAll [a] = t.perform a := by
    intro t a
    simp [performAll]
  cases e with
  | handshake options? encodings => cases he
  | opened uri version text => exact (hone s (.refresh uri (some version) text)).symm
  | changed uri version texts =>
    rw [apply, acts]
    cases texts.getLast? with
    | none => rfl
    | some text => exact (hone s (.refresh uri (some version) text)).symm
  | closed uri => exact (hone s (.close uri)).symm
  | configured configuration =>
    simp only [apply, acts, prepare]
    cases hc : configuredSettings? configuration with
    | none => simp [performAll]
    | some settings =>
      simp only [Option.getD_some]
      split
      · rename_i h
        simp [performAll, h]
      · have hr' : { s with settings }.Ready := ⟨hr.limit, hr.read, hr.documentsOf, hr.fresh, hr.nodup, hr.waited⟩
        exact refreshAll_eq hr' _
  | advance ms => rfl

theorem Ready.apply {s : Server} (hr : s.Ready) {e : ServerEvent} (he : e.isHandshake = false) :
    (s.apply e).1.Ready := by
  rw [apply_eq hr he]
  exact (hr.prepare e).performAll _

theorem step_eq (s : Server) (e : ServerEvent) :
    s.step e = ((s.apply e).1.settle.1, (s.apply e).2 ++ (s.apply e).1.settle.2) := rfl

theorem Ready.step {s : Server} (hr : s.Ready) {e : ServerEvent} (he : e.isHandshake = false) :
    (s.step e).1.Ready :=
  (hr.apply he).settle

end Server

end Recipe
