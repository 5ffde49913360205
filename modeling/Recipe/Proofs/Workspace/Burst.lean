import Recipe.Proofs.Workspace.Debounce

/-!
# Bursts

The passes of one document get in each other's way. At any time one of them at most is current
(`current_le_one`). A pass that ends with diagnostics has been current since it was started
(`isCurrent_of_mem_endedIn`), so of the passes that are started one within a window of the other only
the last one can (`burst_le_one`).
-/

namespace Recipe

namespace Session

theorem length_le_one {α : Type} {l : List α} (hn : l.Nodup) (h : ∀ a ∈ l, ∀ b ∈ l, a = b) :
    l.length ≤ 1 := by
  match l with
  | [] => exact Nat.zero_le _
  | [_] => exact Nat.le_refl _
  | a :: b :: l =>
    refine absurd (h a List.mem_cons_self b (List.mem_cons_of_mem a List.mem_cons_self)) ?_
    rintro rfl
    exact (List.nodup_cons.1 hn).1 List.mem_cons_self

theorem eq_of_isCurrent {v : Workspace} {p q : Pass} (hp : v.isCurrent p = true)
    (hq : v.isCurrent q = true) (h : p.uri = q.uri) : p = q := by
  rw [Workspace.isCurrent_eq, beq_iff_eq] at hp hq
  rw [h, hq, Option.some.injEq] at hp
  cases p
  cases q
  simp_all

/-- Of the passes of a document that are kept or waited for, one at most is current. -/
theorem current_le_one {s : Session} (hv : s.Valid) (uri : Uri) :
    (s.passes.filter fun p => decide (p.uri = uri) && s.workspace.isCurrent p).length ≤ 1 := by
  refine length_le_one (hv.nodup.filter _) fun p hp q hq => ?_
  rw [List.mem_filter, Bool.and_eq_true, decide_eq_true_eq] at hp hq
  exact eq_of_isCurrent hp.2.2 hq.2.2 (hp.2.1.trans hq.2.1.symm)

theorem isCurrent_of_mem_ended {s : Session} (hv : s.Valid) {e : SessionEvent} {f : Finished String}
    (hf : f ∈ s.ended e) (hd : f.diagnostics?.isSome = true)
    (hn : f.pass.number < s.workspace.nextPass) :
    s.workspace.isCurrent f.pass = true ∧ e.touches f.pass.uri = false := by
  rw [ended_eq hv] at hf
  obtain ⟨w, -, hfw⟩ := List.mem_filterMap.1 hf
  have hc := (Workspace.isCurrent_of_ended? hfw hd).1
  rw [Workspace.pass_of_ended? hfw] at hn ⊢
  rwa [isCurrent_apply hv hn, Bool.and_eq_true, Bool.not_eq_true'] at hc

/-- A pass that ends with diagnostics has been current all the time, and its document was left
alone. -/
theorem isCurrent_of_mem_endedIn {s : Session} (hv : s.Valid) {e : SessionEvent}
    {es : List SessionEvent} {f : Finished String} (hf : f ∈ s.endedIn (e :: es))
    (hd : f.diagnostics?.isSome = true) (hn : f.pass.number < s.workspace.nextPass) :
    s.workspace.isCurrent f.pass = true ∧ e.touches f.pass.uri = false := by
  induction es generalizing s e with
  | nil =>
    rw [endedIn, endedIn, List.append_nil] at hf
    exact isCurrent_of_mem_ended hv hf hd hn
  | cons e' es ih =>
    rcases List.mem_append.1 hf with hf | hf
    · exact isCurrent_of_mem_ended hv hf hd hn
    · exact isCurrent_of_step hv e hn
        (ih (valid_step hv e) hf (Nat.lt_of_lt_of_le hn (nextPass_le_step hv e))).1

theorem due_of_mem_begun {s : Session} {e : SessionEvent} {w : Waiting String}
    (hw : w ∈ s.begun e) : w.due = s.now + s.workspace.debounce := by
  unfold begun at hw
  split at hw
  · rw [List.mem_singleton.1 hw]
  · obtain ⟨p, -, rfl⟩ := List.mem_map.1 hw
    rfl
  · cases hw

/-- A pass that is not due before some time gives no diagnostics before it. -/
theorem diagnostics?_eq_none {s : Session} (hv : s.Valid) {n time : Nat}
    (hw : ∀ w ∈ s.waiting, n ≤ w.pass.number → time ≤ w.due)
    (ht : time ≤ s.now + s.workspace.debounce) {es : List SessionEvent}
    (he : s.now + elapsed es < time) {f : Finished String} (hf : f ∈ s.endedIn es)
    (hn : n ≤ f.pass.number) : f.diagnostics?.isSome = false := by
  induction es generalizing s with
  | nil => cases hf
  | cons e es ih =>
    have hall : ∀ w ∈ s.waiting ++ s.begun e, n ≤ w.pass.number → time ≤ w.due := by
      intro w hmem hle
      rcases List.mem_append.1 hmem with h | h
      · exact hw w h hle
      · rw [due_of_mem_begun h]
        exact ht
    rw [elapsed_cons] at he
    rcases List.mem_append.1 hf with hf | hf
    · rw [ended_eq hv] at hf
      obtain ⟨w, hmem, hfw⟩ := List.mem_filterMap.1 hf
      rw [Workspace.pass_of_ended? hfw] at hn
      refine Bool.eq_false_iff.2 fun hd => ?_
      have hdue := (Workspace.isCurrent_of_ended? hfw hd).2
      have hle := hall w hmem hn
      rw [now_apply] at hdue
      omega
    · have hnow : (s.step e).1.now = s.now + e.duration := now_apply s e
      have hdebounce : (s.step e).1.workspace.debounce = s.workspace.debounce :=
        debounce_run s [e]
      refine ih (valid_step hv e) (fun w hmem => hall w (waits_step hv e hmem).1) ?_ ?_ hf
      · rw [hnow, hdebounce]
        omega
      · rw [hnow]
        omega

/-- A pass gives no diagnostics if its document is touched again within a window. -/
theorem isSome_eq_false_of_touches {s : Session} (hv : s.Valid) {e e' : SessionEvent}
    {q r : List SessionEvent} {f : Finished String} (hs : f.pass ∈ s.started e)
    (ht : e'.touches f.pass.uri = true) (hq : elapsed q < s.workspace.debounce)
    (hf : f ∈ s.endedIn (e :: (q ++ e' :: r))) : f.diagnostics?.isSome = false := by
  have hnumber := (number_started hs).1
  have hzero := duration_of_touches (touches_of_mem_started hs)
  have hnext : f.pass.number < (s.run (e :: q)).workspace.nextPass := by
    have hle := nextPass_le_run (valid_step hv e) q
    rw [(sameDocuments_step e).nextPass, nextPass_apply hv, (number_started hs).2] at hle
    rw [run_cons]
    omega
  rw [← List.cons_append, endedIn_append] at hf
  rcases List.mem_append.1 hf with hf | hf
  · refine diagnostics?_eq_none hv (fun w hw hle => ?_) (Nat.le_refl _) ?_ hf (Nat.le_of_eq hnumber.symm)
    · have := hv.fresh w.pass (List.mem_append_right _ (List.mem_map_of_mem hw))
      omega
    · rw [elapsed_cons, hzero]
      omega
  · refine Bool.eq_false_iff.2 fun hd => ?_
    rw [(isCurrent_of_mem_endedIn (valid_run hv _) hf hd hnext).2] at ht
    cases ht

/-- If an event of `es` touches `uri`, then `es` has a first event that does. -/
theorem exists_first_touches {es : List SessionEvent} {uri : Uri} {e : SessionEvent} (he : e ∈ es)
    (ht : e.touches uri = true) :
    ∃ p e' q, es = p ++ e' :: q ∧ e'.touches uri = true ∧ p.all (!·.touches uri) = true := by
  cases hfind : es.find? (·.touches uri) with
  | none => exact absurd ht (List.find?_eq_none.1 hfind e he)
  | some e' =>
    obtain ⟨ht', p, q, hes, hp⟩ := List.find?_eq_some_iff_append.1 hfind
    exact ⟨p, e', q, hes, ht', List.all_eq_true.2 hp⟩

/-- A burst of updates: events that touch the document follow one another within a window. -/
def IsBurst (uri : Uri) (window : Nat) (es : List SessionEvent) : Prop :=
  ∀ p e q e' r, es = p ++ e :: (q ++ e' :: r) → e.touches uri = true → e'.touches uri = true →
    q.all (!·.touches uri) = true → elapsed q < window

/-- Whether a pass is started by one of some events. -/
def starts (s : Session) (es : List SessionEvent) (p : Pass) : Bool :=
  decide (s.workspace.nextPass ≤ p.number) && decide (p.number < (s.run es).workspace.nextPass)

/-- A pass with the number of one that is started by some events, if it ends, is started by one of
them. -/
theorem exists_of_starts {s : Session} (hv : s.Valid) {burst rest : List SessionEvent}
    {f : Finished String} (hf : f ∈ s.endedIn (burst ++ rest))
    (hs : s.starts burst f.pass = true) :
    ∃ p e q, burst = p ++ e :: q ∧ f.pass ∈ (s.run p).started e := by
  rw [starts, Bool.and_eq_true, decide_eq_true_eq, decide_eq_true_eq] at hs
  rcases mem_passes_of_mem_endedIn hv hf with h | ⟨p, e, q, hes, h⟩
  · have := hv.fresh f.pass h
    omega
  have hnumber := (number_started h).1
  rcases List.append_eq_append_iff.1 hes with ⟨a, rfl, -⟩ | ⟨a, rfl, ha⟩
  · have := nextPass_le_run (valid_run hv burst) a
    rw [run_append] at hnumber
    omega
  cases a with
  | nil =>
    rw [List.append_nil] at hs
    omega
  | cons e' a =>
    obtain ⟨rfl, -⟩ := List.cons.inj ha
    exact ⟨p, e, a, rfl, h⟩

/-- Of the passes of a document that a burst starts, only the last one can end with diagnostics. -/
theorem number_le_of_isBurst {s : Session} (hv : s.Valid) {burst rest : List SessionEvent} {uri : Uri}
    (hb : IsBurst uri s.workspace.debounce burst) {f : Finished String} {last : Pass}
    (hf : f ∈ s.endedIn (burst ++ rest)) (hd : f.diagnostics?.isSome = true) (hfu : f.pass.uri = uri)
    (hfs : ∃ p e q, burst = p ++ e :: q ∧ f.pass ∈ (s.run p).started e) (hlu : last.uri = uri)
    (hls : ∃ p e q, burst = p ++ e :: q ∧ last ∈ (s.run p).started e) :
    last.number ≤ f.pass.number := by
  obtain ⟨p, e, q, hp, he⟩ := hfs
  obtain ⟨p', e', q', hp', he'⟩ := hls
  rw [(number_started he).1, (number_started he').1]
  rcases List.prefix_or_prefix_of_prefix ⟨_, hp'.symm⟩ ⟨_, hp.symm⟩ with ⟨m, rfl⟩ | ⟨m, rfl⟩
  · rw [run_append]
    exact nextPass_le_run (valid_run hv p') m
  cases m with
  | nil => exact Nat.le_of_eq (by rw [List.append_nil])
  | cons x m =>
    -- The document is touched again, so there is a first time.
    obtain ⟨rfl, rfl⟩ : x = e ∧ m ++ e' :: q' = q := by
      rw [hp, List.append_assoc] at hp'
      have h := List.append_cancel_left hp'
      rw [List.cons_append] at h
      exact ⟨(List.cons.inj h).1.symm, (List.cons.inj h).2.symm⟩
    obtain ⟨a, y, b, hsplit, hy, ha⟩ := exists_first_touches
      (List.mem_append_right m (List.mem_cons_self (l := q'))) (hlu ▸ touches_of_mem_started he')
    rw [hsplit] at hp
    have hwindow := hb p x a y b hp (hfu ▸ touches_of_mem_started he) hy ha
    rw [hp, List.append_assoc, List.cons_append, List.append_assoc, List.cons_append, endedIn_append,
      List.mem_append] at hf
    rcases hf with hf | hf
    · have := number_lt_of_mem_endedIn hv hf
      rw [(number_started he).1] at this
      omega
    · rw [← debounce_run s p] at hwindow
      rw [isSome_eq_false_of_touches (valid_run hv p) he (hfu ▸ hy) hwindow hf] at hd
      cases hd

/-- Of the passes of a document that a burst starts, one at most ends with diagnostics. -/
theorem burst_le_one {s : Session} (hv : s.Valid) (before : List SessionEvent)
    {burst : List SessionEvent} {uri : Uri} (hb : IsBurst uri s.workspace.debounce burst)
    (rest : List SessionEvent) :
    ((s.endedIn (before ++ (burst ++ rest))).filter fun f => f.diagnostics?.isSome &&
      decide (f.pass.uri = uri) && (s.run before).starts burst f.pass).length ≤ 1 := by
  have hv₁ := valid_run hv before
  rw [← debounce_run s before] at hb
  rw [← List.length_map Finished.pass]
  refine length_le_one ((nodup_endedIn hv _).sublist (List.filter_sublist.map _)) ?_
  have hmem : ∀ f ∈ s.endedIn (before ++ (burst ++ rest)),
      (s.run before).starts burst f.pass = true → f ∈ (s.run before).endedIn (burst ++ rest) := by
    intro f hf hs
    rw [endedIn_append, List.mem_append] at hf
    refine hf.resolve_left fun hf => ?_
    have := number_lt_of_mem_endedIn hv hf
    rw [starts, Bool.and_eq_true, decide_eq_true_eq] at hs
    omega
  intro p hp q hq
  obtain ⟨f, hf, rfl⟩ := List.mem_map.1 hp
  obtain ⟨g, hg, rfl⟩ := List.mem_map.1 hq
  rw [List.mem_filter, Bool.and_eq_true, Bool.and_eq_true, decide_eq_true_eq] at hf hg
  obtain ⟨hf, ⟨hfd, hfu⟩, hfs⟩ := hf
  obtain ⟨hg, ⟨hgd, hgu⟩, hgs⟩ := hg
  have hf := hmem f hf hfs
  have hg := hmem g hg hgs
  have hfs := exists_of_starts hv₁ hf hfs
  have hgs := exists_of_starts hv₁ hg hgs
  have hnumber : f.pass.number = g.pass.number :=
    Nat.le_antisymm (number_le_of_isBurst hv₁ hb hg hgd hgu hgs hfu hfs)
      (number_le_of_isBurst hv₁ hb hf hfd hfu hfs hgu hgs)
  cases hfp : f.pass
  cases hgp : g.pass
  simp_all

end Session

end Recipe
