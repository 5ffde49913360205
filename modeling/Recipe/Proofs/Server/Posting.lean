import Recipe.Proofs.Server.Act

/-!
# What a server publishes, and when

The diagnostics that an event publishes are listed with their times (`Server.postings`). For one
document the server is a small machine: it watches for the pass that is pending for the document
(`Server.watching`). An act about the document replaces what is watched for (`watching_perform`), and the
end of waits takes out what is due (`watching_settle`) and publishes it (`filter_postings`).
-/

namespace Recipe

/-- Diagnostics that are published, and when. -/
structure Posting where
  time : Nat
  uri : Uri
  items : List ClientDiagnostic
  version? : Option Int
deriving DecidableEq, Repr

/-- The notice of a posting. -/
def Posting.notice (p : Posting) : Notice :=
  .diagnostics p.uri p.items p.version?

namespace Notice

/-- Whether a notice publishes diagnostics. -/
def isDiagnostics : Notice → Bool
  | diagnostics _ _ _ => true
  | _ => false

/-- What a notice that is sent at some time publishes. -/
def posting? (time : Nat) : Notice → Option Posting
  | diagnostics uri items version? => some ⟨time, uri, items, version?⟩
  | _ => none

theorem map_notice_filterMap (time : Nat) (notices : List Notice) :
    (notices.filterMap (posting? time)).map Posting.notice = notices.filter isDiagnostics := by
  induction notices with
  | nil => rfl
  | cons n notices ih =>
    cases n with
    | diagnostics uri items version? => exact congrArg (diagnostics uri items version? :: ·) ih
    | _ => exact ih

end Notice

/-- What is published at once by an event: no diagnostics for a document that is closed. -/
def ServerEvent.farewell (time : Nat) : ServerEvent → List Posting
  | closed uri => [⟨time, uri, [], none⟩]
  | _ => []

namespace Server

/-- What an event publishes: the event itself when it comes, and the waits that end with it each at the
time they are over. -/
def postings (s : Server) (e : ServerEvent) : List Posting :=
  let t := (s.apply e).1
  let r := t.workspace.settle t.now t.waiting
  (s.apply e).2.filterMap (Notice.posting? s.now)
    ++ r.finished.filterMap fun f => (publication r.workspace f).bind (Notice.posting? f.time)

/-- The postings of an event are the notices with diagnostics that it sends. -/
theorem map_notice_postings (s : Server) (e : ServerEvent) :
    (s.postings e).map Posting.notice = (s.step e).2.filter Notice.isDiagnostics := by
  have hlate : ∀ (w : Workspace) (fs : List (Finished Publication)),
      (fs.filterMap fun f => (publication w f).bind (Notice.posting? f.time)).map Posting.notice
        = (fs.filterMap (publication w)).filter Notice.isDiagnostics := by
    intro w fs
    induction fs with
    | nil => rfl
    | cons f fs ih =>
      cases hf : publication w f with
      | none => simpa [hf] using ih
      | some n =>
        obtain ⟨ds, -, rfl⟩ := Option.map_eq_some_iff.1 hf
        rw [List.filterMap_cons, List.filterMap_cons, hf]
        exact congrArg (_ :: ·) ih
  rw [postings, List.map_append, Notice.map_notice_filterMap, step_eq, List.filter_append]
  exact congrArg _ (hlate _ _)

/-- Acts publish nothing but their farewells. -/
theorem postings_performAll {s : Server} (hr : s.Ready) (time : Nat) (acts : List Act) :
    (s.performAll acts).2.filterMap (Notice.posting? time)
      = acts.flatMap fun a => a.farewell.filterMap (Notice.posting? time) := by
  induction acts generalizing s with
  | nil => rfl
  | cons a acts ih =>
    obtain ⟨warnings, hw, h⟩ := snd_perform hr.limit a
    have hwarnings : warnings.filterMap (Notice.posting? time) = [] := by
      refine List.filterMap_eq_nil_iff.2 fun n hn => ?_
      have := List.all_eq_true.1 hw n hn
      cases n with
      | warning message => rfl
      | _ => cases this
    have hembedded : (embeddedNotice a.uri (s.embeddedAfter a).2).filterMap (Notice.posting? time)
        = [] := by
      unfold embeddedNotice
      split <;> rfl
    rw [performAll, List.filterMap_append, h, List.filterMap_append, List.filterMap_append, hwarnings,
      hembedded, ih (hr.perform a)]
    rfl

theorem postings_apply {s : Server} (hr : s.Ready) {e : ServerEvent} (he : e.isHandshake = false)
    (time : Nat) : (s.apply e).2.filterMap (Notice.posting? time) = e.farewell time := by
  rw [apply_eq hr he, postings_performAll (hr.prepare e)]
  cases e with
  | handshake options? encodings => cases he
  | changed uri version texts =>
    rw [acts]
    cases texts.getLast? <;> rfl
  | configured configuration =>
    refine List.flatMap_eq_nil_iff.2 fun a ha => ?_
    rw [acts] at ha
    split at ha
    · cases ha
    · obtain ⟨uri, -, hr⟩ := List.mem_filterMap.1 ha
      obtain ⟨d, -, rfl⟩ := Option.map_eq_some_iff.1 hr
      rfl
  | _ => rfl

/-! ## Watching for a pass -/

/-- When the passes that are pending for a document are due, and how their diagnostics are
published. -/
def watching (s : Server) (uri : Uri) : List (Nat × Publication) :=
  (s.waiting.filter fun w => decide (w.pass.uri = uri) && s.workspace.isCurrent w.pass).map
    fun w => (w.due, w.tag)

theorem watching_eq_nil {s : Server} {uri : Uri}
    (h : ∀ number, s.workspace.isCurrent ⟨uri, number⟩ = false) : s.watching uri = [] := by
  rw [watching, List.map_eq_nil_iff, List.filter_eq_nil_iff]
  intro w _ hw
  rw [Bool.and_eq_true, decide_eq_true_eq] at hw
  have := h w.pass.number
  rw [← hw.1] at this
  exact Bool.false_ne_true (this.symm.trans hw.2)

/-- An act leaves the passes of other documents alone. -/
theorem isCurrent_workspaceAfter_of_ne (s : Server) {a : Act} {p : Pass} (h : p.uri ≠ a.uri) :
    (s.workspaceAfter a).isCurrent p = s.workspace.isCurrent p := by
  cases a with
  | refresh u version? text =>
    rw [Act.uri] at h
    rw [workspaceAfter, Workspace.isCurrent_install, if_neg h]
  | close u =>
    rw [Act.uri] at h
    rw [workspaceAfter, Workspace.isCurrent_close, decide_eq_true h, Bool.and_true]

section Watching

variable {s : Server} (hr : s.Ready)

include hr

/-- The passes of the document before an act about it are no longer current. -/
theorem isCurrent_workspaceAfter_of_mem (a : Act) {w : Waiting Publication} (hw : w ∈ s.waiting)
    (hu : w.pass.uri = a.uri) : (s.workspaceAfter a).isCurrent w.pass = false := by
  cases a with
  | refresh u version? text =>
    rw [Act.uri] at hu
    rw [workspaceAfter, Workspace.isCurrent_install, if_pos hu]
    exact decide_eq_false (Nat.ne_of_lt (hr.fresh w hw))
  | close u =>
    rw [Act.uri] at hu
    rw [workspaceAfter, Workspace.isCurrent_close, decide_eq_false fun hne => hne hu, Bool.and_false]

/-- An act about a document replaces what is watched for. -/
theorem watching_perform (a : Act) (uri : Uri) : (s.perform a).1.watching uri
    = if a.uri = uri then (s.begun a).map fun w => (w.due, w.tag) else s.watching uri := by
  rw [fst_perform hr.limit]
  unfold watching
  dsimp only
  rw [List.filter_append, List.map_append]
  split
  · rename_i hu
    have hold : s.waiting.filter (fun w => decide (w.pass.uri = uri)
        && (s.workspaceAfter a).isCurrent w.pass) = [] := by
      refine List.filter_eq_nil_iff.2 fun w hw h => ?_
      rw [Bool.and_eq_true, decide_eq_true_eq, ← hu] at h
      rw [isCurrent_workspaceAfter_of_mem hr a hw h.1] at h
      exact Bool.false_ne_true h.2
    have hnew : (s.begun a).filter (fun w => decide (w.pass.uri = uri)
        && (s.workspaceAfter a).isCurrent w.pass) = s.begun a := by
      cases a with
      | refresh u version? text =>
        rw [Act.uri] at hu
        simp [begun, hu, workspaceAfter, Workspace.isCurrent_install]
      | close u => rfl
    rw [hold, hnew]
    rfl
  · rename_i hu
    have hsame : ∀ w ∈ s.waiting, (decide (w.pass.uri = uri) && (s.workspaceAfter a).isCurrent w.pass)
        = (decide (w.pass.uri = uri) && s.workspace.isCurrent w.pass) := by
      intro w _
      by_cases hw : w.pass.uri = uri
      · rw [isCurrent_workspaceAfter_of_ne s (hw ▸ Ne.symm hu)]
      · simp [hw]
    have hnew : (s.begun a).filter (fun w => decide (w.pass.uri = uri)
        && (s.workspaceAfter a).isCurrent w.pass) = [] := by
      cases a with
      | refresh u version? text =>
        rw [Act.uri] at hu
        simp [begun, hu]
      | close u => rfl
    rw [List.filter_congr hsame, hnew, List.map_nil, List.append_nil]

/-- Ending waits leaves the publications watched for that are due later than now. -/
theorem watching_settle (uri : Uri) :
    s.settle.1.watching uri = (s.watching uri).filter fun x => decide (s.now < x.1) := by
  obtain ⟨-, hwaiting, hcurrent⟩ := Workspace.settle_eq s.workspace s.now hr.nodup
  unfold watching settle
  dsimp only
  rw [hwaiting, List.filter_filter, List.filter_map, List.filter_filter]
  congr 1
  refine List.filter_congr fun w hw => ?_
  rw [hcurrent, Bool.eq_iff_iff]
  simp only [Bool.and_eq_true, Option.isNone_iff_eq_none, Workspace.ended?_eq_none,
    Function.comp_apply, decide_eq_true_eq]
  refine ⟨fun ⟨⟨hu, hc, _⟩, _, hd⟩ => ⟨hd, hu, hc⟩, fun ⟨hd, hu, hc⟩ => ⟨⟨hu, hc, ?_⟩, hc, hd⟩⟩
  -- No other wait is for the same pass, and this one is not over.
  rw [Bool.not_eq_true', List.any_eq_false]
  intro v hv hvw
  rw [Bool.and_eq_true, decide_eq_true_eq, decide_eq_true_eq] at hvw
  have heq := List.inj_on_of_nodup_map hr.nodup hv hw hvw.1
  rw [heq] at hvw
  exact Nat.not_lt.2 hvw.2 hd

end Watching

/-! ## Publishing -/

/-- The diagnostics of a document as a tag says. -/
def items (s : Server) (uri : Uri) (tag : Publication) : List ClientDiagnostic :=
  match s.workspace.document? uri with
  | some d =>
    if tag.enabled then d.tree.diagnostics.map (Columns.ofText tag.encoding d.text).diagnostic else []
  | none => []

/-- What is published for a document when what was watched for is due. -/
def post (s : Server) (uri : Uri) (x : Nat × Publication) : Posting :=
  ⟨x.1, uri, s.items uri x.2, x.2.version?⟩

/-- A wait publishes if its pass is current and due. -/
theorem posting_ended? (s : Server) (w : Waiting Publication) :
    ((s.workspace.ended? s.now w).bind fun f =>
        (publication (s.workspace.settle s.now s.waiting).workspace f).bind (Notice.posting? f.time))
      = if s.workspace.isCurrent w.pass && decide (w.due ≤ s.now)
        then some (s.post w.pass.uri (w.due, w.tag)) else none := by
  have hsame := Workspace.sameDocuments_settle s.workspace s.now s.waiting
  unfold Workspace.ended?
  cases hc : s.workspace.isCurrent w.pass with
  | false => rfl
  | true =>
    obtain ⟨d, hd⟩ := Workspace.document?_of_isCurrent hc
    have hd' := (hsame.document? w.pass.uri).trans hd
    by_cases hdue : w.due ≤ s.now
    · simp [hdue, hd, publication, hd', Notice.posting?, post, items]
    · simp [hdue]

/-- What an event publishes for a document: the event itself, and what is due of what is watched for. -/
theorem filter_postings {s : Server} (hr : s.Ready) {e : ServerEvent} (he : e.isHandshake = false)
    (uri : Uri) : (s.postings e).filter (·.uri = uri)
      = (e.farewell s.now).filter (·.uri = uri)
        ++ (((s.apply e).1.watching uri).filter fun x => decide (x.1 ≤ (s.apply e).1.now)).map
          ((s.apply e).1.post uri) := by
  have hnodup := (hr.apply he).nodup
  rw [postings, postings_apply hr he, List.filter_append]
  generalize (s.apply e).1 = t at hnodup ⊢
  congr 1
  rw [(Workspace.settle_eq t.workspace t.now hnodup).1, List.filterMap_filterMap,
    List.filterMap_congr fun w _ => posting_ended? t w, watching]
  induction t.waiting with
  | nil => rfl
  | cons w ws ih =>
    by_cases hu : w.pass.uri = uri
    · cases hc : t.workspace.isCurrent w.pass with
      | false => simpa [hc] using ih
      | true =>
        by_cases hd : w.due ≤ t.now
        · simpa [hc, hd, hu, post] using ih
        · simpa [hc, hd, hu] using ih
    · by_cases hd : t.workspace.isCurrent w.pass = true ∧ w.due ≤ t.now
      · simpa [hd, hu, post] using ih
      · rw [List.filterMap_cons, if_neg (by simpa using hd), List.filter_cons_of_neg (by simp [hu])]
        exact ih

end Server

end Recipe
