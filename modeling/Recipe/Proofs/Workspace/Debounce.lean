import Recipe.Proofs.Workspace.Run

/-!
# What comes of a pass

One pass is followed through the events of a session. While it is kept it gives no result and is
current until its document is touched (`held_run`). From the moment it is waited for, the events alone
decide what comes of it (`resultsOf_of_waiting`): `verdict` looks for the first event that touches the
document or with which the pass is due. After its result there is no other one.
-/

namespace Recipe

namespace Session

/-- When the wait for a pass ends with one of some events, and with which diagnostics. -/
def resultsOf (s : Session) (p : Pass) (es : List SessionEvent) :
    List (Nat × Option (List Diagnostic)) :=
  ((s.endedIn es).filter fun f => decide (f.pass = p)).map fun f => (f.time, f.diagnostics?)

theorem resultsOf_append (s : Session) (p : Pass) (es fs : List SessionEvent) :
    s.resultsOf p (es ++ fs) = s.resultsOf p es ++ (s.run es).resultsOf p fs := by
  rw [resultsOf, endedIn_append, List.filter_append, List.map_append]
  rfl

theorem resultsOf_cons (s : Session) (p : Pass) (e : SessionEvent) (es : List SessionEvent) :
    s.resultsOf p (e :: es) = s.resultsOf p [e] ++ (s.step e).1.resultsOf p es :=
  s.resultsOf_append p [e] es

/-- A pass that is neither kept nor waited for gives no result. -/
theorem resultsOf_eq_nil {s : Session} (hv : s.Valid) {p : Pass}
    (hn : p.number < s.workspace.nextPass) (hp : p ∉ s.passes) (es : List SessionEvent) :
    s.resultsOf p es = [] := by
  rw [resultsOf, List.map_eq_nil_iff, List.filter_eq_nil_iff]
  intro f hf he
  rw [decide_eq_true_eq] at he
  rw [← he] at hp hn
  have := le_number_of_mem_endedIn hv hf hp
  omega

theorem resultsOf_singleton_eq_nil {s : Session} (hv : s.Valid) {e : SessionEvent} {p : Pass}
    (h : ∀ w ∈ s.waiting ++ s.begun e, w.pass ≠ p) : s.resultsOf p [e] = [] := by
  rw [resultsOf, endedIn, endedIn, List.append_nil, ended_eq hv, List.map_eq_nil_iff,
    List.filter_eq_nil_iff]
  intro f hf he
  obtain ⟨w, hw, hfw⟩ := List.mem_filterMap.1 hf
  exact h w hw ((Workspace.pass_of_ended? hfw).symm.trans (of_decide_eq_true he))

/-! ## Waiting -/

/-- What comes of the wait for a pass that is current at time `now` and due later, found to have some
diagnostics: nothing yet, an end without diagnostics when its document is touched, or an end with them
when it is due. -/
def verdict (uri : Uri) (due : Nat) (found : List Diagnostic) :
    (now : Nat) → List SessionEvent → List (Nat × Option (List Diagnostic))
  | _, [] => []
  | now, e :: es =>
    if e.touches uri then [(now, none)]
    else if due ≤ now + e.duration then [(due, some found)]
    else verdict uri due found (now + e.duration) es

theorem duration_of_touches {e : SessionEvent} {uri : Uri} (h : e.touches uri = true) :
    e.duration = 0 := by
  cases e with
  | advance ms => cases h
  | _ => rfl

section Waiting

variable {s : Session} (hv : s.Valid) {e : SessionEvent} {w : Waiting String}
  (hw : w ∈ s.waiting ++ s.begun e) (hn : w.pass.number < s.workspace.nextPass)

include hv hw hn

/-- A wait that ends gives one result. -/
theorem resultsOf_of_ended {f : Finished String} (hf : s.ended? e w = some f)
    (es : List SessionEvent) : s.resultsOf w.pass (e :: es) = [(f.time, f.diagnostics?)] := by
  have hmem : f ∈ s.ended e := by
    rw [ended_eq hv]
    exact List.mem_filterMap.2 ⟨w, hw, hf⟩
  have hgone := (not_mem_passes_of_ended hv e hmem).2
  rw [Workspace.pass_of_ended? hf] at hgone
  rw [resultsOf_cons, resultsOf_eq_nil (valid_step hv e)
    (Nat.lt_of_lt_of_le hn (nextPass_le_step hv e)) hgone, List.append_nil, resultsOf, endedIn, endedIn,
    List.append_nil, ended_filter hv e hw, hf]
  rfl

theorem resultsOf_of_not_isCurrent (hc : s.workspace.isCurrent w.pass = false)
    (es : List SessionEvent) :
    s.resultsOf w.pass (e :: es) = [(s.now + e.duration, none)] := by
  refine resultsOf_of_ended hv hw hn (f := ⟨w.pass, s.now + e.duration, w.tag, none⟩) ?_ es
  rw [ended?, Workspace.ended?, isCurrent_apply hv hn, hc, Bool.false_and, if_pos rfl, now_apply]

/-- The results of a current wait over the events `e :: es` are its verdict over them, if those
after `e` are the verdict over `es`. -/
theorem resultsOf_step {d : Document} (hc : s.workspace.isCurrent w.pass = true)
    (hd : s.workspace.document? w.pass.uri = some d) {es : List SessionEvent}
    (hrest : w ∈ (s.step e).1.waiting → (s.step e).1.workspace.isCurrent w.pass = true →
      (s.step e).1.workspace.document? w.pass.uri = some d → (s.step e).1.resultsOf w.pass es
        = verdict w.pass.uri w.due d.tree.diagnostics (s.step e).1.now es) :
    s.resultsOf w.pass (e :: es)
      = verdict w.pass.uri w.due d.tree.diagnostics s.now (e :: es) := by
  have hcur := isCurrent_apply hv hn e
  rw [hc, Bool.true_and] at hcur
  have hnow : (s.step e).1.now = s.now + e.duration := now_apply s e
  rw [verdict]
  split
  · rename_i ht
    refine resultsOf_of_ended hv hw hn (f := ⟨w.pass, s.now, w.tag, none⟩) ?_ es
    rw [ended?, Workspace.ended?, hcur, ht, now_apply, duration_of_touches ht]
    rfl
  rename_i ht
  rw [Bool.not_eq_true] at ht
  rw [ht, Bool.not_false] at hcur
  split
  · rename_i hdue
    refine resultsOf_of_ended hv hw hn (f := ⟨w.pass, w.due, w.tag, some d.tree.diagnostics⟩) ?_ es
    rw [ended?, Workspace.ended?, hcur, now_apply, if_neg (by decide), if_pos hdue,
      document?_apply hv ht, hd]
    rfl
  · rename_i hdue
    have hnone : s.ended? e w = none :=
      Workspace.ended?_eq_none.2 ⟨hcur, by rw [now_apply]; omega⟩
    have hmem : w ∈ (s.step e).1.waiting := by
      rw [waiting_step hv, List.mem_filter, hnone]
      exact ⟨hw, rfl⟩
    rw [resultsOf_cons, hrest hmem (waits_step hv e hmem).2.1 ((document?_step hv e ht).trans hd), hnow,
      resultsOf, endedIn, endedIn, List.append_nil, ended_filter hv e hw, hnone]
    rfl

end Waiting

/-- The results of a current wait over the events `es` are its verdict over them. -/
theorem resultsOf_of_waiting {s : Session} (hv : s.Valid) {w : Waiting String} (hw : w ∈ s.waiting)
    (hc : s.workspace.isCurrent w.pass = true) {d : Document}
    (hd : s.workspace.document? w.pass.uri = some d) (es : List SessionEvent) :
    s.resultsOf w.pass es = verdict w.pass.uri w.due d.tree.diagnostics s.now es := by
  induction es generalizing s with
  | nil => rfl
  | cons e es ih =>
    have hn := hv.fresh w.pass (List.mem_append_right _ (List.mem_map_of_mem hw))
    exact resultsOf_step hv (List.mem_append_left _ hw) hn hc hd fun hmem hc hd =>
      ih (valid_step hv e) hmem hc hd

/-! ## Keeping -/

theorem not_mem_waiting_of_held {s : Session} (hv : s.Valid) {label : String} {p : Pass}
    (h : s.held.get? label = some p) : p ∉ s.waiting.map Waiting.pass := fun hw =>
  (List.nodup_append.1 hv.nodup).2.2 p (Table.mem_values_of_get? h) p hw rfl

/-- A pass that is kept stays kept, gives no result, and is current until its document is touched. -/
theorem held_run {s : Session} (hv : s.Valid) {label : String} {p : Pass}
    (h : s.held.get? label = some p) {es : List SessionEvent}
    (hk : es.all (!·.takes label) = true) :
    (s.run es).held.get? label = some p ∧ s.resultsOf p es = [] ∧
      (s.run es).workspace.isCurrent p
        = (s.workspace.isCurrent p && es.all (!·.touches p.uri)) ∧
      (es.all (!·.touches p.uri) = true →
        (s.run es).workspace.document? p.uri = s.workspace.document? p.uri) := by
  induction es generalizing s with
  | nil => exact ⟨h, rfl, (Bool.and_true _).symm, fun _ => rfl⟩
  | cons e es ih =>
    rw [List.all_cons, Bool.and_eq_true, Bool.not_eq_true'] at hk
    have hn := hv.fresh p (List.mem_append_left _ (Table.mem_values_of_get? h))
    have hheld : (s.apply e).1.held.get? label = some p := (held_apply hv hk.1).trans h
    have hout : ∀ w ∈ s.waiting ++ s.begun e, w.pass ≠ p := by
      intro w hw he
      refine not_mem_waiting_of_held (valid_apply hv e) hheld ?_
      rw [waiting_apply hv, ← he]
      exact List.mem_map_of_mem hw
    have hcur := isCurrent_step_of_not_due hv e fun w hw he => absurd he (hout w hw)
    rw [isCurrent_apply hv hn] at hcur
    obtain ⟨hh, hr, hc, hd⟩ := ih (valid_step hv e) hheld hk.2
    refine ⟨hh, ?_, ?_, fun ht => ?_⟩
    · rw [resultsOf_cons, resultsOf_singleton_eq_nil hv hout, hr]
      rfl
    · rw [run_cons, hc, hcur, List.all_cons, Bool.and_assoc]
    · rw [List.all_cons, Bool.and_eq_true, Bool.not_eq_true'] at ht
      exact (hd ht.2).trans (document?_step hv e ht.1)

/-! ## Reading a verdict -/

section Verdict

variable (uri : Uri) (due : Nat) (found : List Diagnostic)

/-- The verdict over `es` is the findings at the due time, if that time is reached before `uri` is
touched; nothing yet, if neither happens; or a cancellation when `uri` is touched. -/
theorem verdict_cases (now : Nat) (es : List SessionEvent) :
    (verdict uri due found now es = [(due, some found)] ∧
      ∃ p, p <+: es ∧ p ≠ [] ∧ p.all (!·.touches uri) = true ∧ due ≤ now + elapsed p) ∨
    (verdict uri due found now es = [] ∧ es.all (!·.touches uri) = true ∧
      (es ≠ [] → now + elapsed es < due)) ∨
    ∃ p e q, es = p ++ e :: q ∧ e.touches uri = true ∧ (p ≠ [] → now + elapsed p < due) ∧
      verdict uri due found now es = [(now + elapsed p, none)] := by
  induction es generalizing now with
  | nil => exact .inr (.inl ⟨rfl, rfl, fun h => absurd rfl h⟩)
  | cons e es ih =>
    by_cases ht : e.touches uri = true
    · refine .inr (.inr ⟨[], e, es, rfl, ht, fun h => absurd rfl h, ?_⟩)
      rw [verdict, if_pos ht]
      rfl
    rw [verdict, if_neg ht]
    rw [Bool.not_eq_true] at ht
    by_cases hdue : due ≤ now + e.duration
    · rw [if_pos hdue]
      refine .inl ⟨rfl, [e], ⟨es, rfl⟩, List.cons_ne_nil _ _, ?_, ?_⟩
      · simp [ht]
      · simpa [elapsed] using hdue
    rw [if_neg hdue]
    rcases ih (now + e.duration) with ⟨hr, p, hp, -, hq, hd⟩ | ⟨hr, hq, hd⟩ | ⟨p, f, q, rfl, hf, hd, hr⟩
    · refine .inl ⟨hr, e :: p, List.cons_prefix_cons.2 ⟨rfl, hp⟩, List.cons_ne_nil _ _, ?_, ?_⟩
      · rw [List.all_cons, hq, ht]
        rfl
      · rw [elapsed_cons]
        omega
    · refine .inr (.inl ⟨hr, ?_, fun _ => ?_⟩)
      · rw [List.all_cons, hq, ht]
        rfl
      · rw [elapsed_cons]
        cases es with
        | nil => simpa [elapsed] using hdue
        | cons f es =>
          have := hd (List.cons_ne_nil _ _)
          omega
    · refine .inr (.inr ⟨e :: p, f, q, rfl, hf, fun _ => ?_, ?_⟩)
      · rw [elapsed_cons]
        cases p with
        | nil => simpa [elapsed] using hdue
        | cons g p =>
          have := hd (List.cons_ne_nil _ _)
          omega
      · rw [hr, elapsed_cons, Nat.add_assoc]

end Verdict

/-! ## Updating -/

theorem number_lt_of_mem_endedIn {s : Session} (hv : s.Valid) {es : List SessionEvent}
    {f : Finished String} (hf : f ∈ s.endedIn es) :
    f.pass.number < (s.run es).workspace.nextPass := by
  induction es generalizing s with
  | nil => cases hf
  | cons e es ih =>
    rcases List.mem_append.1 hf with hf | hf
    · have hlt := (valid_apply hv e).fresh _ (not_mem_passes_of_ended hv e hf).1
      rw [← (sameDocuments_step e).nextPass] at hlt
      exact Nat.lt_of_lt_of_le hlt (nextPass_le_run (valid_step hv e) es)
    · exact ih (valid_step hv e) hf

/-- An update keeps its pass, which is current and has given no result. -/
theorem update_step {s : Session} (hv : s.Valid) {limit : Nat}
    (hl : s.workspace.limit? = some limit) (label : String) (uri : Uri) (source : String) :
    let t := (s.step (.update label uri source)).1
    let p : Pass := ⟨uri, s.workspace.nextPass⟩
    t.held.get? label = some p ∧ t.workspace.isCurrent p = true ∧
      t.workspace.document? uri = some (.read limit uri source) ∧
      s.resultsOf p [.update label uri source] = [] := by
  intro t p
  have hfresh : ∀ w ∈ s.waiting ++ s.begun (.update label uri source), w.pass ≠ p := by
    intro w hw he
    have hb : s.begun (.update label uri source) = [] := rfl
    rw [hb, List.append_nil] at hw
    have hlt := hv.fresh w.pass (List.mem_append_right _ (List.mem_map_of_mem hw))
    rw [he] at hlt
    exact Nat.lt_irrefl _ hlt
  refine ⟨?_, ?_, ?_, resultsOf_singleton_eq_nil hv hfresh⟩
  · have hh : t.held = (s.apply (.update label uri source)).1.held := rfl
    rw [hh, apply_update hl]
    exact (Table.get?_insert ..).trans (if_pos rfl)
  · rw [isCurrent_step_of_not_due hv _ fun w hw he => absurd he (hfresh w hw), apply_update hl]
    exact (Workspace.isCurrent_install ..).trans ((if_pos rfl).trans (decide_eq_true rfl))
  · rw [(sameDocuments_step _).document?, apply_update hl]
    exact (Workspace.document?_install ..).trans (if_pos rfl)

end Session

end Recipe
