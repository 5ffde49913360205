import Recipe.Proofs.Workspace.Outcome
import Recipe.Proofs.Workspace.Simulation

/-!
# What comes of a wait

What was found for workspaces holds of an analyzer, since each event does the same in both. It remains
to see that the channel of a pass tells it from every other pass (`Session.Names`), so that the results
of a pass are those of the pass that has its name in the workspace (`WaitedPass.answers_eq`).
`waitedPass_results` puts this together with what is known of the passes of one document.
-/

namespace Recipe

namespace Analyzer

theorem exists_wait_of_mem_ended {a : Analyzer} {now : Nat} {ws : List Wait} {f : Ended}
    (hf : f ∈ (a.settle now ws).ended) : ∃ w ∈ ws, w.pass = f.pass := by
  induction ws generalizing a with
  | nil => cases hf
  | cons w ws ih =>
    have htail : ∀ {b : Analyzer}, f ∈ (b.settle now ws).ended → ∃ x ∈ w :: ws, x.pass = f.pass := by
      intro b hf
      obtain ⟨x, hx, he⟩ := ih hf
      exact ⟨x, List.mem_cons_of_mem w hx, he⟩
    rw [settle] at hf
    split at hf
    · rcases List.mem_cons.1 hf with rfl | hf
      · exact ⟨w, List.mem_cons_self, rfl⟩
      · exact htail hf
    split at hf
    · rcases List.mem_cons.1 hf with rfl | hf
      · exact ⟨w, List.mem_cons_self, rfl⟩
      · exact htail hf
    · exact htail hf

namespace Session

variable {s : Session}

/-- The session is sound, and a valid session of the workspace. -/
structure Proper (s : Session) : Prop where
  sound : s.Sound
  valid : s.toSession.Valid

theorem proper_start (limit debounce : Nat) : (start (.empty (some limit) debounce)).Proper :=
  ⟨sound_start (some limit) debounce, Recipe.Session.valid_start limit debounce⟩

theorem proper_step (h : s.Proper) (e : SessionEvent) : (s.step e).1.Proper := by
  have hvalid := Recipe.Session.valid_step h.valid e
  rw [toSession_step h.sound] at hvalid
  exact ⟨sound_step h.sound e, hvalid⟩

theorem proper_run (h : s.Proper) (es : List SessionEvent) : (s.run es).Proper :=
  ⟨sound_run h.sound es, toSession_run h.sound es ▸ Recipe.Session.valid_run h.valid es⟩

theorem run_append (s : Session) (es fs : List SessionEvent) : s.run (es ++ fs) = (s.run es).run fs :=
  List.foldl_append

theorem endedIn_append (s : Session) (es fs : List SessionEvent) :
    s.endedIn (es ++ fs) = s.endedIn es ++ (s.run es).endedIn fs := by
  induction es generalizing s with
  | nil => rfl
  | cons e es ih =>
    rw [List.cons_append, endedIn, endedIn, ih, List.append_assoc]
    rfl

/-! ## Names -/

theorem cancelled_of_mem_started {e : SessionEvent} {p : DiagnosticPass} (h : p ∈ s.started e) :
    p.cancelled = s.analyzer.nextChannel := by
  unfold started at h
  split at h
  · obtain ⟨_, -, rfl⟩ := List.mem_map.1 h
    rfl
  · obtain ⟨_, -, rfl⟩ := List.mem_map.1 h
    rfl
  · cases h

theorem mem_passes_of_mem_ended {e : SessionEvent} {f : Ended} (hf : f ∈ s.ended e) :
    f.pass ∈ (s.apply e).1.passes := by
  obtain ⟨w, hw, he⟩ := exists_wait_of_mem_ended hf
  rw [← he]
  exact List.mem_append_right _ (List.mem_map_of_mem hw)

theorem nextChannel_le_step (h : s.Proper) (e : SessionEvent) :
    s.analyzer.nextChannel ≤ (s.step e).1.analyzer.nextChannel := by
  have hle := Recipe.Session.nextPass_le_step h.valid e
  rw [toSession_step h.sound] at hle
  exact hle

/-- The channel of `p` has been made, and no other pass has it. -/
structure Names (s : Session) (p : DiagnosticPass) : Prop where
  made : p.cancelled < s.analyzer.nextChannel
  eq_of_cancelled : ∀ q ∈ s.passes, q.cancelled = p.cancelled → q = p

/-- A pass that an event starts has a channel of its own. -/
theorem Names.apply {p : DiagnosticPass} (hp : s.Names p) (e : SessionEvent) {q : DiagnosticPass}
    (hq : q ∈ (s.apply e).1.passes) (he : q.cancelled = p.cancelled) : q = p := by
  rcases List.mem_append.1 (passes_apply s e hq) with hnew | hold
  · have := cancelled_of_mem_started hnew
    have := hp.made
    omega
  · exact hp.eq_of_cancelled q hold he

theorem Names.step (h : s.Proper) {p : DiagnosticPass} (hp : s.Names p) (e : SessionEvent) :
    (s.step e).1.Names p :=
  ⟨Nat.lt_of_lt_of_le hp.made (nextChannel_le_step h e),
    fun _ hq => hp.apply e (passes_step h.sound e hq)⟩

theorem Names.run (h : s.Proper) {p : DiagnosticPass} (hp : s.Names p) (es : List SessionEvent) :
    (s.run es).Names p := by
  induction es generalizing s with
  | nil => exact hp
  | cons e es ih => exact ih (proper_step h e) (hp.step h e)

theorem Names.eq_of_mem_endedIn (h : s.Proper) {p : DiagnosticPass} (hp : s.Names p)
    {es : List SessionEvent} {f : Ended} (hf : f ∈ s.endedIn es) (he : f.pass.cancelled = p.cancelled) :
    f.pass = p := by
  induction es generalizing s with
  | nil => cases hf
  | cons e es ih =>
    rcases List.mem_append.1 hf with hf | hf
    · exact hp.apply e (mem_passes_of_mem_ended hf) he
    · exact ih (proper_step h e) (hp.step h e) hf

/-- The pass of an update is told from those before it by its channel. -/
theorem eq_nextPass (h : s.Proper) {label : String} {uri : Uri} {source : String} {q : DiagnosticPass}
    (hq : q ∈ (s.apply (.update label uri source)).1.passes)
    (he : q.cancelled = (s.analyzer.nextPass uri).cancelled) : q = s.analyzer.nextPass uri := by
  rcases List.mem_append.1 (passes_apply s _ hq) with hnew | hold
  · obtain ⟨_, -, rfl⟩ := List.mem_map.1 hnew
    rfl
  · exact absurd he (Nat.ne_of_lt (h.sound.made q hold))

theorem names_update (h : s.Proper) (label : String) (uri : Uri) (source : String) :
    (s.step (.update label uri source)).1.Names (s.analyzer.nextPass uri) := by
  refine ⟨?_, fun q hq => eq_nextPass h (passes_step h.sound _ hq)⟩
  have hnext := (Recipe.Session.sameDocuments_step (s := s.toSession) (.update label uri source)).nextPass
  rw [Recipe.Session.nextPass_apply h.valid, toSession_step h.sound] at hnext
  exact Nat.lt_of_lt_of_eq (Nat.lt_succ_self _) hnext.symm

/-! ## Results -/

theorem resultsOf_toSession (h : s.Proper) {p : DiagnosticPass} {es : List SessionEvent}
    (hp : ∀ f ∈ s.endedIn es, f.pass.toPass = p.toPass → f.pass = p) :
    s.toSession.resultsOf p.toPass es = s.resultsOf p es := by
  rw [resultsOf, Recipe.Session.resultsOf, endedIn_toSession h.sound, List.filter_map, List.map_map]
  refine congrArg (List.map _) (List.filter_congr fun f hf => ?_)
  rw [Function.comp_apply, decide_eq_decide]
  exact ⟨hp f hf, fun he => congrArg DiagnosticPass.toPass he⟩

/-- Of the passes of a document that are kept or waited for, one at most is not cancelled. -/
theorem not_cancelled_le_one (h : s.Proper) (uri : Uri) :
    (s.passes.filter fun p => decide (p.uri = uri) && !s.analyzer.isCancelled p).length ≤ 1 := by
  have hle := Recipe.Session.current_le_one h.valid uri
  rw [passes_toSession, List.filter_map, List.length_map] at hle
  refine Nat.le_trans (Nat.le_of_eq (congrArg List.length (List.filter_congr fun p hp => ?_))) hle
  rw [← isCurrent_toWorkspace h.sound hp]
  rfl

/-- Whether a pass is started by one of some events: its channel is made by them. -/
def starts (s : Session) (es : List SessionEvent) (p : DiagnosticPass) : Bool :=
  decide (s.analyzer.nextChannel ≤ p.cancelled) &&
    decide (p.cancelled < (s.run es).analyzer.nextChannel)

theorem starts_toSession (h : s.Proper) (es : List SessionEvent) (p : DiagnosticPass) :
    s.toSession.starts es p.toPass = s.starts es p := by
  rw [starts, Recipe.Session.starts, ← toSession_run h.sound]
  rfl

/-- Of the passes of a document that a burst starts, one at most ends with diagnostics. -/
theorem some_le_one (h : s.Proper) (before : List SessionEvent) {burst : List SessionEvent} {uri : Uri}
    (hb : Recipe.Session.IsBurst uri s.analyzer.debounce burst) (rest : List SessionEvent) :
    ((s.endedIn (before ++ (burst ++ rest))).filter fun f => f.diagnostics?.isSome &&
      decide (f.pass.uri = uri) && (s.run before).starts burst f.pass).length ≤ 1 := by
  have hle := Recipe.Session.burst_le_one h.valid before hb rest
  rw [endedIn_toSession h.sound, List.filter_map, List.length_map] at hle
  refine Nat.le_trans (Nat.le_of_eq (congrArg List.length (List.filter_congr fun f _ => ?_))) hle
  rw [← starts_toSession (proper_run h before), toSession_run h.sound]
  rfl

/-- A caller is told of every pass that ended, and of nothing else. -/
theorem told_step (h : s.Proper) (e : SessionEvent) :
    (s.step e).2.2.Perm ((s.ended e).map Ended.told) := by
  have hperm := Recipe.Session.outcomes_step h.valid e
  rw [toSession_step h.sound, ended_toSession h.sound, List.map_map] at hperm
  exact hperm

end Session

end Analyzer

/-! ## Waited passes -/

namespace WaitedPass

open Analyzer.Session

variable (w : WaitedPass)

/-- The analyzer's session in which the run begins. -/
def opening : Analyzer.Session :=
  .start (.empty (some w.limit) w.debounce)

/-- The pass that the analyzer gives for the update. -/
def handed : DiagnosticPass :=
  (w.opening.run w.before).analyzer.nextPass w.uri

/-- When the wait for that pass ends in the run, and with which diagnostics. -/
def answers : List (Nat × Option (List Diagnostic)) :=
  w.opening.resultsOf w.handed w.events

theorem proper_opening : w.opening.Proper :=
  proper_start w.limit w.debounce

theorem toPass_handed : w.handed.toPass = w.pass := by
  have hrun : (w.opening.run w.before).toSession = w.start.run w.before :=
    toSession_run w.proper_opening.sound w.before
  rw [pass, ← hrun]
  rfl

/-- What the analyzer answers is what comes of the pass in the workspace. -/
theorem answers_eq : w.answers = w.results := by
  have h := w.proper_opening
  have hbefore := proper_run h w.before
  rw [answers, results, ← toPass_handed]
  refine (resultsOf_toSession h fun f hf he => ?_).symm
  have hchannel : f.pass.cancelled = w.handed.cancelled := congrArg Pass.number he
  rw [events, endedIn_append] at hf
  rcases List.mem_append.1 hf with hf | hf
  · -- The passes that end before the update have older channels.
    have hlt := Recipe.Session.number_lt_of_mem_endedIn h.valid (f := f.toFinished)
      (by rw [endedIn_toSession h.sound]; exact List.mem_map_of_mem hf)
    rw [← toSession_run h.sound] at hlt
    exact absurd hchannel (Nat.ne_of_lt hlt)
  rcases List.mem_append.1 hf with hf | hf
  · exact eq_nextPass hbefore (mem_passes_of_mem_ended hf) hchannel
  · exact (names_update hbefore w.label w.uri w.source).eq_of_mem_endedIn (proper_step hbefore _) hf
      hchannel

/-- The pass of the update is still kept when the wait begins. -/
theorem held_handed :
    (w.opening.run (w.before ++ .update w.label w.uri w.source :: w.between)).held.get? w.label
      = some w.handed := by
  have h := w.proper_opening
  have hbefore := proper_run h w.before
  have hheld := w.results_eq.1
  have hrun : (w.opening.run (w.before ++ .update w.label w.uri w.source :: w.between)).toSession
      = w.waitStart := toSession_run h.sound _
  rw [← hrun, get?_held_toSession, Option.map_eq_some_iff] at hheld
  obtain ⟨q, hq, he⟩ := hheld
  have hnames := (names_update hbefore w.label w.uri w.source).run (proper_step hbefore _) w.between
  rw [run_append] at hq ⊢
  have hchannel : q.cancelled = w.handed.cancelled :=
    congrArg Pass.number (he.trans w.toPass_handed.symm)
  exact hq.trans (congrArg some (hnames.eq_of_cancelled q
    (List.mem_append_left _ (Table.mem_values_of_get? hq)) hchannel))

end WaitedPass

namespace Analyzer.Session

/-- A pass that is waited for ends with diagnostics if and only if its document is neither updated nor
closed until its window ends. It then ends with the window, and with the diagnostics of the text of its
update; else it ends without, unless its window has not ended yet. What happens to other documents
and passes does not matter. At any time one pass at most of a document is not cancelled, and of the passes
of a document that a burst starts one at most ends with diagnostics. Callers are told just this. -/
theorem waitedPass_results :
    (∀ w : WaitedPass,
      (w.opening.run (w.before ++ .update w.label w.uri w.source :: w.between)).held.get? w.label
        = some w.handed ∧
      ((∃ time found, (time, some found) ∈ w.answers) ↔ w.Quiet) ∧
      (w.Quiet → w.answers = [(w.began + w.debounce, some w.found)]) ∧
      (¬ w.Quiet → w.Pending ∧ w.answers = [] ∨ ¬ w.Pending ∧ ∃ time, w.answers = [(time, none)]) ∧
      w.withoutOthers.answers = w.answers) ∧
    ∀ limit debounce : Nat, let s : Session := start (.empty (some limit) debounce)
      (∀ es uri, ((s.run es).passes.filter fun p =>
        decide (p.uri = uri) && !(s.run es).analyzer.isCancelled p).length ≤ 1) ∧
      (∀ before burst rest uri, Recipe.Session.IsBurst uri debounce burst →
        ((s.endedIn (before ++ (burst ++ rest))).filter fun f => f.diagnostics?.isSome &&
          decide (f.pass.uri = uri) && (s.run before).starts burst f.pass).length ≤ 1) ∧
      ∀ es e, ((s.run es).step e).2.2.Perm (((s.run es).ended e).map Ended.told) := by
  refine ⟨fun w => ⟨w.held_handed, ?_, ?_, ?_, ?_⟩, ?_⟩
  · rw [w.answers_eq]
    rcases w.results_cases with ⟨hr, hq⟩ | ⟨hr, -, hq⟩ | ⟨⟨time, hr⟩, hq, -⟩
    · exact ⟨fun _ => hq, fun _ => ⟨_, _, by rw [hr]; exact List.mem_cons_self⟩⟩
    · simp [hr, hq]
    · simp [hr, hq]
  · rw [w.answers_eq]
    intro hquiet
    rcases w.results_cases with ⟨hr, -⟩ | ⟨-, -, hq⟩ | ⟨-, hq, -⟩
    · exact hr
    · exact absurd hquiet hq
    · exact absurd hquiet hq
  · rw [w.answers_eq]
    intro hquiet
    rcases w.results_cases with ⟨-, hq⟩ | ⟨hr, hp, -⟩ | ⟨hr, -, hp⟩
    · exact absurd hq hquiet
    · exact .inl ⟨hp, hr⟩
    · exact .inr ⟨hp, hr⟩
  · rw [w.answers_eq, w.withoutOthers.answers_eq]
    exact w.results_withoutOthers
  · intro limit debounce s
    have h : s.Proper := proper_start limit debounce
    exact ⟨fun es uri => not_cancelled_le_one (proper_run h es) uri,
      fun before burst rest uri hb => some_le_one h before hb rest,
      fun es e => told_step (proper_run h es) e⟩

/-- A document is closed and opened again while a pass for it is kept, so that the counts begin anew. An
update of a text with an unknown word follows, and another document is updated while its pass is waited
for. -/
def quietWait : WaitedPass where
  limit := 100
  debounce := 500
  before := [.update "a" ⟨"file:///a.bb"⟩ "A = 1", .advance 200, .close ⟨"file:///a.bb"⟩]
  label := "b"
  uri := ⟨"file:///a.bb"⟩
  source := "?"
  between := [.wait "a", .advance 10]
  after := [.advance 499, .update "c" ⟨"file:///c.bb"⟩ "", .advance 1, .close ⟨"file:///a.bb"⟩]
  kept := rfl

theorem waitedPass_results_quietWait :
    quietWait.Quiet ∧ quietWait.answers
      = [(710, some [⟨⟨⟨0, 1⟩, ⟨0, 0⟩, ⟨0, 1⟩⟩, "Invalid syntax \"?\""⟩])] := by
  have hquiet : quietWait.Quiet :=
    ⟨rfl, [.advance 499, .update "c" ⟨"file:///c.bb"⟩ "", .advance 1], ⟨_, rfl⟩, rfl, by decide⟩
  have hfound : quietWait.found = [⟨⟨⟨0, 1⟩, ⟨0, 0⟩, ⟨0, 1⟩⟩, "Invalid syntax \"?\""⟩] := by
    decide +kernel
  refine ⟨hquiet, ?_⟩
  rw [(waitedPass_results.1 quietWait).2.2.1 hquiet, hfound]
  rfl

end Analyzer.Session

end Recipe
