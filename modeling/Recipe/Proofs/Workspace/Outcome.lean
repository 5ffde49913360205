import Recipe.Proofs.Workspace.Burst

/-!
# Outcomes of waits

The pass of an update is kept for a while and then waited for (`WaitedPass`), whatever else happens in
the session. What comes of it is a matter of its document and the clock (`WaitedPass.results_eq`), so
there are three cases: its document is left alone until the window ends, its document is touched before
that, or neither has happened yet (`WaitedPass.results_cases`). What happens to other documents and to
other passes can be left out (`WaitedPass.results_withoutOthers`).
-/

namespace Recipe

open Session (elapsed verdict)

namespace SessionEvent

/-- The limit for texts after some events. -/
def limitAfter (limit : Nat) : List SessionEvent → Nat
  | [] => limit
  | setLimit m :: es => limitAfter m es
  | _ :: es => limitAfter limit es

/-- Whether the event updates or closes the document of another uri, or waits for a pass or gives one
up. -/
def others (uri : Uri) : SessionEvent → Bool
  | analyze _ u _ => decide (u ≠ uri)
  | update _ u _ => decide (u ≠ uri)
  | close u => decide (u ≠ uri)
  | wait _ => true
  | drop _ => true
  | _ => false

end SessionEvent

/-- A run in which the pass of an update is kept for a while and then waited for. Anything may happen
before the update and after the wait; between them nothing is done under the label of the pass. -/
structure WaitedPass where
  limit : Nat
  debounce : Nat
  before : List SessionEvent
  label : String
  uri : Uri
  source : String
  between : List SessionEvent
  after : List SessionEvent
  kept : between.all (!·.takes label) = true

namespace WaitedPass

variable (w : WaitedPass)

/-- The session in which the run begins. -/
def start : Session :=
  .start (.empty (some w.limit) w.debounce)

def events : List SessionEvent :=
  w.before ++ .update w.label w.uri w.source :: (w.between ++ .wait w.label :: w.after)

/-- The session in which the wait begins. -/
def waitStart : Session :=
  w.start.run (w.before ++ .update w.label w.uri w.source :: w.between)

/-- The pass of the update. -/
def pass : Pass :=
  ⟨w.uri, (w.start.run w.before).workspace.nextPass⟩

/-- When the wait for the pass ends in the run, and with which diagnostics. -/
def results : List (Nat × Option (List Diagnostic)) :=
  w.start.resultsOf w.pass w.events

/-- When the wait begins. -/
def began : Nat :=
  elapsed (w.before ++ w.between)

/-- The diagnostics of the text that the update is about; a text that is refused has none. -/
def found : List Diagnostic :=
  match parse (SessionEvent.limitAfter w.limit w.before) w.source with
  | .ok tree => tree.diagnostics
  | .error _ => []

/-- The document is neither updated nor closed from the update on until the window of the wait ends. -/
def Quiet : Prop :=
  w.between.all (!·.touches w.uri) = true ∧
    ∃ p, p <+: w.after ∧ p.all (!·.touches w.uri) = true ∧ w.debounce ≤ elapsed p

/-- The document is neither updated nor closed, and the window of the wait has not ended. -/
def Pending : Prop :=
  (w.between ++ w.after).all (!·.touches w.uri) = true ∧ elapsed w.after < w.debounce

/-- The run without what happens to other documents and other passes. -/
def withoutOthers : WaitedPass :=
  { w with
    before := w.before.filter (!·.others w.uri)
    between := w.between.filter (!·.others w.uri)
    after := w.after.filter (!·.others w.uri)
    kept := List.all_eq_true.2 fun e he =>
      List.all_eq_true.1 w.kept e (List.mem_filter.1 he).1 }

end WaitedPass

namespace Session

theorem limit_run {s : Session} {limit : Nat} (hl : s.workspace.limit? = some limit)
    (es : List SessionEvent) :
    (s.run es).workspace.limit? = some (SessionEvent.limitAfter limit es) := by
  induction es generalizing s limit with
  | nil => exact hl
  | cons e es ih =>
    have hstep : ∀ m, (s.apply e).1.workspace.limit? = some m →
        (s.step e).1.workspace.limit? = some m := fun m h => (sameDocuments_step e).limit?.trans h
    rw [run_cons]
    cases e with
    | setLimit m => exact ih (hstep m rfl)
    | analyze label uri source => exact ih (hstep limit (by rw [apply_analyze hl]; exact hl))
    | update label uri source => exact ih (hstep limit (by rw [apply_update hl]; exact hl))
    | wait label => exact ih (hstep limit (by rw [apply]; split <;> exact hl))
    | _ => exact ih (hstep limit hl)

end Session

theorem diagnostics_read (limit : Nat) (uri : Uri) (source : String) :
    (Document.read limit uri source).tree.diagnostics = match parse limit source with
      | .ok tree => tree.diagnostics
      | .error _ => [] := by
  unfold Document.read
  cases parse limit source with
  | ok tree => rfl
  | error r => rfl

namespace WaitedPass

open Session

variable (w : WaitedPass)

theorem waitStart_eq : w.waitStart
    = ((w.start.run w.before).step (.update w.label w.uri w.source)).1.run w.between := by
  rw [waitStart, run_append, run_cons]

theorem now_waitStart : w.waitStart.now = w.began := by
  have hzero : (SessionEvent.update w.label w.uri w.source).duration = 0 := rfl
  rw [waitStart, now_run, began, elapsed_append, elapsed_append, elapsed_cons, hzero, Nat.zero_add]
  exact Nat.zero_add _

/-- Before its update the pass gives no result. -/
theorem resultsOf_before : w.start.resultsOf w.pass w.before = [] := by
  rw [resultsOf, List.map_eq_nil_iff, List.filter_eq_nil_iff]
  intro f hf he
  have hlt := number_lt_of_mem_endedIn (valid_start w.limit w.debounce) hf
  rw [of_decide_eq_true he] at hlt
  exact Nat.lt_irrefl _ hlt

/-- What comes of the pass: it is over when the wait begins, if its document was touched before that,
and else the verdict on what happens from the wait on. -/
theorem results_eq : w.waitStart.held.get? w.label = some w.pass ∧
    w.results = if w.between.all (!·.touches w.uri) then
      verdict w.uri (w.began + w.debounce) w.found w.began (.wait w.label :: w.after)
    else [(w.began, none)] := by
  have hv₀ : w.start.Valid := valid_start w.limit w.debounce
  have hv := valid_run hv₀ w.before
  obtain ⟨hheld, hcur, hdoc, hupdate⟩ :=
    update_step hv (limit_run rfl w.before) w.label w.uri w.source
  obtain ⟨hh, hb, hc, hd⟩ := held_run (valid_step hv _) hheld w.kept
  rw [← waitStart_eq] at hh hc hd
  have hv₂ : w.waitStart.Valid := valid_run hv₀ _
  have hnow := now_waitStart w
  have hdebounce : w.waitStart.workspace.debounce = w.debounce := debounce_run w.start _
  -- Before the wait there is no result.
  have hresults : w.results = w.waitStart.resultsOf w.pass (.wait w.label :: w.after) := by
    rw [results, events, resultsOf_append, resultsOf_before, resultsOf_cons, waitStart_eq,
      List.nil_append, resultsOf_append]
    exact (congrArg (· ++ _) hupdate).trans (congrArg (· ++ _) hb)
  have hbegun : ⟨w.pass, w.began + w.debounce, w.label⟩
      ∈ w.waitStart.waiting ++ w.waitStart.begun (.wait w.label) := by
    rw [begun, hh, hnow, hdebounce]
    exact List.mem_append_right _ List.mem_cons_self
  have hn := hv₂.fresh w.pass (List.mem_append_left _ (Table.mem_values_of_get? hh))
  refine ⟨hh, ?_⟩
  rw [hresults]
  have hcurrent : w.waitStart.workspace.isCurrent w.pass = w.between.all (!·.touches w.uri) :=
    hc.trans (by rw [hcur, Bool.true_and])
  split
  · rename_i hquiet
    rw [hquiet] at hcurrent
    rw [resultsOf_step hv₂ hbegun hn hcurrent ((hd hquiet).trans hdoc) fun hmem hc hd =>
      resultsOf_of_waiting (valid_step hv₂ _) hmem hc hd w.after, hnow, diagnostics_read]
    rfl
  · rename_i hquiet
    rw [Bool.not_eq_true] at hquiet
    rw [hquiet] at hcurrent
    rw [resultsOf_of_not_isCurrent hv₂ hbegun hn hcurrent, hnow]
    rfl

/-! ## Quiet, pending, or touched -/

theorem elapsed_le_of_prefix {p es : List SessionEvent} (h : p <+: es) : elapsed p ≤ elapsed es := by
  obtain ⟨q, rfl⟩ := h
  rw [elapsed_append]
  exact Nat.le_add_right _ _

/-- Events that leave a document alone end before the first one that does not. -/
theorem prefix_of_touches {uri : Uri} {p front back : List SessionEvent} {e : SessionEvent}
    (hp : p <+: front ++ e :: back) (hq : p.all (!·.touches uri) = true)
    (he : e.touches uri = true) : p <+: front := by
  have hfront : front ++ [e] <+: front ++ e :: back := ⟨back, by simp⟩
  have hmem : e ∉ p := fun hm => by
    have := List.all_eq_true.1 hq e hm
    simp [he] at this
  rcases List.prefix_or_prefix_of_prefix hp hfront with h | h
  · rcases List.prefix_concat_iff.1 h with rfl | h
    · exact absurd (List.mem_append_right _ List.mem_cons_self) hmem
    · exact h
  · exact absurd (h.subset (List.mem_append_right _ List.mem_cons_self)) hmem

/-- The pass yields its findings if it is quiet, nothing yet if it is pending and not quiet, and
otherwise one cancellation. -/
theorem results_cases :
    (w.results = [(w.began + w.debounce, some w.found)] ∧ w.Quiet) ∨
    (w.results = [] ∧ w.Pending ∧ ¬ w.Quiet) ∨
    (∃ time, w.results = [(time, none)]) ∧ ¬ w.Quiet ∧ ¬ w.Pending := by
  have hwait : ∀ p, elapsed (.wait w.label :: p) = elapsed p := fun p => by
    rw [elapsed_cons]
    exact Nat.zero_add _
  rw [(results_eq w).2]
  split
  · rename_i hb
    rcases verdict_cases w.uri (w.began + w.debounce) w.found w.began (.wait w.label :: w.after) with
      ⟨hr, p, hp, hne, hq, hd⟩ | ⟨hr, hq, hd⟩ | ⟨p, e, q, hes, he, hd, hr⟩
    · refine .inl ⟨hr, hb, ?_⟩
      cases p with
      | nil => exact absurd rfl hne
      | cons a p =>
        obtain ⟨rfl, hafter⟩ := List.cons_prefix_cons.1 hp
        rw [List.all_cons, Bool.and_eq_true] at hq
        rw [hwait] at hd
        exact ⟨p, hafter, hq.2, by omega⟩
    · have hlt := hd (List.cons_ne_nil _ _)
      rw [hwait] at hlt
      rw [List.all_cons, Bool.and_eq_true] at hq
      refine .inr (.inl ⟨hr, ⟨?_, by omega⟩, ?_⟩)
      · rw [List.all_append, hb, hq.2]
        rfl
      · rintro ⟨-, p, hp, -, hle⟩
        have := elapsed_le_of_prefix hp
        omega
    · refine .inr (.inr ⟨⟨_, hr⟩, ?_⟩)
      cases p with
      | nil =>
        cases hes
        cases he
      | cons a p =>
        rw [List.cons_append] at hes
        obtain ⟨rfl, hafter⟩ := List.cons.inj hes
        have hlt := hd (List.cons_ne_nil _ _)
        rw [hwait] at hlt
        refine ⟨?_, ?_⟩
        · rintro ⟨-, p', hp, hq, hle⟩
          rw [hafter] at hp
          have := elapsed_le_of_prefix (prefix_of_touches hp hq he)
          omega
        · rintro ⟨hq, -⟩
          rw [List.all_append, hafter, List.all_append, List.all_cons, he] at hq
          simp at hq
  · rename_i hb
    refine .inr (.inr ⟨⟨_, rfl⟩, fun hq => hb hq.1, fun hp => hb ?_⟩)
    rw [Pending, List.all_append, Bool.and_eq_true] at hp
    exact hp.1.1

/-! ## Other documents -/

theorem of_others {e : SessionEvent} {uri : Uri} (h : e.others uri = true) :
    e.touches uri = false ∧ e.duration = 0 ∧
      ∀ limit es, SessionEvent.limitAfter limit (e :: es) = SessionEvent.limitAfter limit es := by
  cases e with
  | analyze _ u _ => exact ⟨decide_eq_false (of_decide_eq_true h), rfl, fun _ _ => rfl⟩
  | update _ u _ => exact ⟨decide_eq_false (of_decide_eq_true h), rfl, fun _ _ => rfl⟩
  | close u => exact ⟨decide_eq_false (of_decide_eq_true h), rfl, fun _ _ => rfl⟩
  | wait _ => exact ⟨rfl, rfl, fun _ _ => rfl⟩
  | drop _ => exact ⟨rfl, rfl, fun _ _ => rfl⟩
  | _ => cases h

/-- What happens to other documents and passes takes no time, does not touch the document and sets no
limit. -/
theorem filter_others (uri : Uri) (es : List SessionEvent) :
    (es.filter (!·.others uri)).all (!·.touches uri) = es.all (!·.touches uri) ∧
    elapsed (es.filter (!·.others uri)) = elapsed es ∧
    ∀ limit, SessionEvent.limitAfter limit (es.filter (!·.others uri))
      = SessionEvent.limitAfter limit es := by
  induction es with
  | nil => exact ⟨rfl, rfl, fun _ => rfl⟩
  | cons e es ih =>
    obtain ⟨hall, helapsed, hlimit⟩ := ih
    by_cases ho : e.others uri = true
    · obtain ⟨ht, hd, hl⟩ := of_others ho
      rw [List.filter_cons_of_neg (by simp [ho]), List.all_cons, elapsed_cons, ht, hd, hall, helapsed]
      exact ⟨rfl, (Nat.zero_add _).symm, fun limit => (hlimit limit).trans (hl limit es).symm⟩
    · rw [List.filter_cons_of_pos (by simp [ho]), List.all_cons, List.all_cons, elapsed_cons,
        elapsed_cons, hall, helapsed]
      refine ⟨rfl, rfl, fun limit => ?_⟩
      cases e with
      | setLimit m => exact hlimit m
      | _ => exact hlimit limit

theorem verdict_filter_others (uri : Uri) {due : Nat} (found : List Diagnostic) {now : Nat}
    (hd : now < due) (es : List SessionEvent) :
    verdict uri due found now (es.filter (!·.others uri)) = verdict uri due found now es := by
  induction es generalizing now with
  | nil => rfl
  | cons e es ih =>
    by_cases ho : e.others uri = true
    · obtain ⟨ht, hzero, -⟩ := of_others ho
      rw [List.filter_cons_of_neg (by simp [ho]), ih hd, verdict, ht, hzero, if_neg Bool.false_ne_true,
        if_neg (by omega)]
      rfl
    · rw [List.filter_cons_of_pos (by simp [ho]), verdict, verdict]
      split
      · rfl
      split
      · rfl
      · exact ih (by omega)

/-- What happens to other documents and passes does not matter. -/
theorem results_withoutOthers : w.withoutOthers.results = w.results := by
  obtain ⟨-, hbefore, hlimit⟩ := filter_others w.uri w.before
  obtain ⟨hquiet, hbetween, -⟩ := filter_others w.uri w.between
  have hbegan : w.withoutOthers.began = w.began := by
    rw [began, began, elapsed_append, elapsed_append]
    exact congrArg₂ (· + ·) hbefore hbetween
  have hfound : w.withoutOthers.found = w.found := by
    rw [found, found]
    exact congrArg (fun limit => match parse limit w.source with
      | .ok tree => tree.diagnostics
      | .error _ => []) (hlimit w.limit)
  have hverdict : verdict w.uri (w.began + w.debounce) w.found w.began
        (.wait w.label :: w.after.filter (!·.others w.uri))
      = verdict w.uri (w.began + w.debounce) w.found w.began (.wait w.label :: w.after) := by
    rw [verdict, verdict]
    split
    · rfl
    split
    · rfl
    · rename_i hd
      exact verdict_filter_others w.uri w.found (Nat.not_le.1 hd) w.after
  rw [(results_eq _).2, (results_eq w).2, hbegan, hfound, ← hverdict]
  exact congrArg (fun quiet => if quiet = true then verdict w.uri (w.began + w.debounce) w.found w.began
    (.wait w.label :: w.after.filter (!·.others w.uri)) else [(w.began, none)]) hquiet

end WaitedPass

/-! ## Callers -/

namespace Session

/-- What a caller is told of a pass that ended. -/
def told (f : Finished String) : Outcome :=
  ⟨f.tag, f.time, f.diagnostics?⟩

/-- A caller is told of every pass that ended, and of nothing else. -/
theorem outcomes_step {s : Session} (hv : s.Valid) (e : SessionEvent) :
    (s.step e).2.2.Perm ((s.ended e).map told) := by
  have hearly : (s.apply e).2.2 = [] := by
    obtain ⟨limit, hl⟩ := hv.limit
    cases e with
    | analyze label uri source => rw [apply_analyze hl]
    | update label uri source => rw [apply_update hl]
    | wait label =>
      rw [apply]
      split <;> rfl
    | _ => rfl
  have hstep : (s.step e).2.2 = ((s.apply e).2.2 ++ (s.ended e).map told).mergeSort outcomeLe := rfl
  rw [hstep, hearly, List.nil_append]
  exact List.mergeSort_perm _ _

end Session

end Recipe
