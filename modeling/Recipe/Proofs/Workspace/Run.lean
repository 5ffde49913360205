import Recipe.Proofs.Workspace.Basic
import Recipe.Workspace.Session

/-!
# Runs of a session

What events do to the passes of a session. In a session that has a limit and in which every pass is
kept or waited for once (`Session.Valid`), an event leaves alone what it does not name: it makes a pass
no longer current only if it touches its document (`isCurrent_apply`), and what is waited for after it
is what was waited for before it, less what has ended (`waiting_step`). A pass that has ended does not
come back (`nodup_endedIn`).
-/

namespace Recipe

namespace SessionEvent

/-- Whether the event updates or closes the document of a uri. -/
def touches (uri : Uri) : SessionEvent → Bool
  | analyze _ u _ => decide (u = uri)
  | update _ u _ => decide (u = uri)
  | close u => decide (u = uri)
  | _ => false

/-- Whether the event does something to the pass that is kept under a label. -/
def takes (label : String) : SessionEvent → Bool
  | update l _ _ => decide (l = label)
  | wait l => decide (l = label)
  | drop l => decide (l = label)
  | _ => false

/-- How long the event takes. -/
def duration : SessionEvent → Nat
  | advance ms => ms
  | _ => 0

end SessionEvent

namespace Session

/-- The passes that are kept or waited for. -/
def passes (s : Session) : List Pass :=
  s.held.values ++ s.waiting.map Waiting.pass

/-- The passes whose wait ends with an event. -/
def ended (s : Session) (e : SessionEvent) : List (Finished String) :=
  let t := (s.apply e).1
  (t.workspace.settle t.now t.waiting).finished

/-- The session after some events. -/
def run (s : Session) (es : List SessionEvent) : Session :=
  es.foldl (fun s e => (s.step e).1) s

/-- The passes whose wait ends with one of some events. -/
def endedIn (s : Session) : List SessionEvent → List (Finished String)
  | [] => []
  | e :: es => s.ended e ++ (s.step e).1.endedIn es

@[simp] theorem run_cons (s : Session) (e : SessionEvent) (es : List SessionEvent) :
    s.run (e :: es) = (s.step e).1.run es := rfl

theorem run_append (s : Session) (es fs : List SessionEvent) :
    s.run (es ++ fs) = (s.run es).run fs :=
  List.foldl_append

theorem endedIn_append (s : Session) (es fs : List SessionEvent) :
    s.endedIn (es ++ fs) = s.endedIn es ++ (s.run es).endedIn fs := by
  induction es generalizing s with
  | nil => rfl
  | cons e es ih => rw [List.cons_append, endedIn, endedIn, ih, List.append_assoc, run_cons]

/-- The session has a limit for texts, its passes are different, and none has the number of the next
one. -/
structure Valid (s : Session) : Prop where
  limit : ∃ limit, s.workspace.limit? = some limit
  fresh : ∀ p ∈ s.passes, p.number < s.workspace.nextPass
  nodup : s.passes.Nodup

theorem valid_start (limit debounce : Nat) :
    (start (.empty (some limit) debounce)).Valid :=
  ⟨⟨limit, rfl⟩, fun _ hp => (List.not_mem_nil hp).elim, .nil⟩

/-! ## Events before waits end -/

section Apply

variable {s : Session} {limit : Nat}

theorem apply_analyze (h : s.workspace.limit? = some limit) (label : String) (uri : Uri)
    (source : String) : s.apply (.analyze label uri source)
      = ({ s with workspace := s.workspace.install limit uri source }.await label
          ⟨uri, s.workspace.nextPass⟩, .done, []) := by
  rw [apply, Workspace.update_eq h]

theorem apply_update (h : s.workspace.limit? = some limit) (label : String) (uri : Uri)
    (source : String) : s.apply (.update label uri source)
      = ({ s with
          workspace := s.workspace.install limit uri source
          held := s.held.insert label ⟨uri, s.workspace.nextPass⟩ }, .started uri, []) := by
  rw [apply, Workspace.update_eq h]

variable (s) in
theorem now_apply (e : SessionEvent) : (s.apply e).1.now = s.now + e.duration := by
  cases e with
  | analyze label uri source =>
    rw [apply]
    split <;> rfl
  | update label uri source =>
    rw [apply]
    split <;> rfl
  | wait label =>
    rw [apply]
    split <;> rfl
  | _ => rfl

variable (s) in
theorem debounce_apply (e : SessionEvent) :
    (s.apply e).1.workspace.debounce = s.workspace.debounce := by
  have hupdate : ∀ uri source w p, s.workspace.update uri source = .ok (w, p) →
      w.debounce = s.workspace.debounce := by
    intro uri source w p h
    unfold Workspace.update at h
    split at h
    · cases h
    · cases h
      rfl
  cases e with
  | analyze label uri source =>
    rw [apply]
    split
    · exact hupdate _ _ _ _ ‹_›
    · rfl
  | update label uri source =>
    rw [apply]
    split
    · exact hupdate _ _ _ _ ‹_›
    · rfl
  | wait label =>
    rw [apply]
    split <;> rfl
  | _ => rfl

/-- Only an event that touches its document makes a pass no longer current. -/
theorem isCurrent_apply (hv : s.Valid) {p : Pass} (hp : p.number < s.workspace.nextPass)
    (e : SessionEvent) : (s.apply e).1.workspace.isCurrent p
      = (s.workspace.isCurrent p && !e.touches p.uri) := by
  obtain ⟨limit, hl⟩ := hv.limit
  have hinstall : ∀ uri source, (s.workspace.install limit uri source).isCurrent p
      = (s.workspace.isCurrent p && !decide (uri = p.uri)) := by
    intro uri source
    rw [Workspace.isCurrent_install]
    split
    · rename_i h
      have hne : ¬ p.number = s.workspace.nextPass := Nat.ne_of_lt hp
      simp [h, hne]
    · rename_i h
      simp [Ne.symm h]
  cases e with
  | analyze label uri source =>
    rw [apply_analyze hl]
    exact hinstall uri source
  | update label uri source =>
    rw [apply_update hl]
    exact hinstall uri source
  | wait label =>
    rw [apply]
    split <;> exact (Bool.and_true _).symm
  | close uri =>
    rw [apply, Workspace.isCurrent_close]
    simp [SessionEvent.touches, eq_comm]
  | _ => exact (Bool.and_true _).symm

theorem document?_apply (hv : s.Valid) {e : SessionEvent} {uri : Uri} (h : e.touches uri = false) :
    (s.apply e).1.workspace.document? uri = s.workspace.document? uri := by
  obtain ⟨limit, hl⟩ := hv.limit
  cases e with
  | analyze label u source =>
    have hu : uri ≠ u := fun he => of_decide_eq_false h he.symm
    rw [apply_analyze hl]
    exact (Workspace.document?_install ..).trans (if_neg hu)
  | update label u source =>
    have hu : uri ≠ u := fun he => of_decide_eq_false h he.symm
    rw [apply_update hl]
    exact (Workspace.document?_install ..).trans (if_neg hu)
  | wait label =>
    rw [apply]
    split <;> rfl
  | close u =>
    have hu : uri ≠ u := fun he => of_decide_eq_false h he.symm
    exact (Workspace.document?_close ..).trans (if_neg hu)
  | _ => rfl

theorem held_apply (hv : s.Valid) {e : SessionEvent} {label : String} (h : e.takes label = false) :
    (s.apply e).1.held.get? label = s.held.get? label := by
  obtain ⟨limit, hl⟩ := hv.limit
  cases e with
  | analyze l uri source =>
    rw [apply_analyze hl]
    rfl
  | update l uri source =>
    rw [apply_update hl]
    exact (Table.get?_insert ..).trans (if_neg fun he => of_decide_eq_false h he.symm)
  | wait l =>
    rw [apply]
    split
    · exact (Table.get?_erase ..).trans (if_neg fun he => of_decide_eq_false h he.symm)
    · rfl
  | drop l => exact (Table.get?_erase ..).trans (if_neg fun he => of_decide_eq_false h he.symm)
  | _ => rfl

/-- The waits that begin with an event. -/
def begun (s : Session) : SessionEvent → List (Waiting String)
  | .analyze label uri _ =>
    [⟨⟨uri, s.workspace.nextPass⟩, s.now + s.workspace.debounce, label⟩]
  | .wait label =>
    (s.held.get? label).toList.map fun p => ⟨p, s.now + s.workspace.debounce, label⟩
  | _ => []

theorem waiting_apply (hv : s.Valid) (e : SessionEvent) :
    (s.apply e).1.waiting = s.waiting ++ s.begun e := by
  obtain ⟨limit, hl⟩ := hv.limit
  cases e with
  | analyze label uri source =>
    rw [apply_analyze hl]
    rfl
  | update label uri source =>
    rw [apply_update hl]
    exact (List.append_nil _).symm
  | wait label =>
    rw [apply, begun]
    split
    · rename_i h
      rw [h]
      rfl
    · rename_i h
      rw [h]
      exact (List.append_nil _).symm
  | _ => exact (List.append_nil _).symm

/-- The pass that an event starts. -/
def started (s : Session) : SessionEvent → List Pass
  | .analyze _ uri _ => [⟨uri, s.workspace.nextPass⟩]
  | .update _ uri _ => [⟨uri, s.workspace.nextPass⟩]
  | _ => []

theorem nextPass_apply (hv : s.Valid) (e : SessionEvent) :
    (s.apply e).1.workspace.nextPass = s.workspace.nextPass + (s.started e).length := by
  obtain ⟨limit, hl⟩ := hv.limit
  cases e with
  | analyze label uri source =>
    rw [apply_analyze hl]
    rfl
  | update label uri source =>
    rw [apply_update hl]
    rfl
  | wait label =>
    rw [apply]
    split <;> rfl
  | _ => rfl

/-- The passes after an event are the one it starts and some of those before it. -/
theorem passes_apply (hv : s.Valid) (e : SessionEvent) :
    ∃ kept : List Pass, kept ⊆ s.passes ∧ kept.Nodup ∧
      (s.apply e).1.passes.Perm (s.started e ++ kept) := by
  obtain ⟨limit, hl⟩ := hv.limit
  have herase : ∀ label, ((s.held.erase label).values ++ s.waiting.map Waiting.pass).Sublist s.passes :=
    fun label => (Table.values_erase_sublist s.held label).append_right _
  cases e with
  | analyze label uri source =>
    refine ⟨s.passes, List.Subset.refl _, hv.nodup, ?_⟩
    rw [apply_analyze hl]
    simp only [passes, await, started, List.map_append, ← List.append_assoc]
    exact List.perm_append_comm
  | update label uri source =>
    refine ⟨_, (herase label).subset, hv.nodup.sublist (herase label), ?_⟩
    rw [apply_update hl]
    simp only [passes, started, Table.values_insert, List.append_assoc]
    exact List.perm_middle
  | wait label =>
    rw [apply]
    split
    · rename_i p hp
      have hmem := Table.mem_values_of_get? hp
      have hn := List.nodup_append.1 hv.nodup
      have hpass : p ∉ (s.held.erase label).values ++ s.waiting.map Waiting.pass := by
        rw [List.mem_append, not_or]
        exact ⟨Table.not_mem_values_erase hn.1 hp, fun hw => hn.2.2 p hmem p hw rfl⟩
      refine ⟨p :: ((s.held.erase label).values ++ s.waiting.map Waiting.pass), ?_, ?_, ?_⟩
      · exact List.cons_subset.2 ⟨List.mem_append_left _ hmem, (herase label).subset⟩
      · exact List.nodup_cons.2 ⟨hpass, hv.nodup.sublist (herase label)⟩
      · simp only [passes, await, started, List.map_append, ← List.append_assoc]
        exact List.perm_append_comm
    · exact ⟨s.passes, List.Subset.refl _, hv.nodup, .refl _⟩
  | drop label => exact ⟨_, (herase label).subset, hv.nodup.sublist (herase label), .refl _⟩
  | _ => exact ⟨s.passes, List.Subset.refl _, hv.nodup, .refl _⟩

theorem number_started {e : SessionEvent} {p : Pass} (h : p ∈ s.started e) :
    p.number = s.workspace.nextPass ∧ (s.started e).length = 1 := by
  unfold started at h ⊢
  split at h <;> simp_all

theorem touches_of_mem_started {e : SessionEvent} {p : Pass} (h : p ∈ s.started e) :
    e.touches p.uri = true := by
  unfold started at h
  split at h
  · rw [List.mem_singleton.1 h]
    exact decide_eq_true rfl
  · rw [List.mem_singleton.1 h]
    exact decide_eq_true rfl
  · cases h

/-- A pass after an event was there before it, unless the event started it. -/
theorem mem_passes_apply (hv : s.Valid) {e : SessionEvent} {p : Pass}
    (h : p ∈ (s.apply e).1.passes) : p ∈ s.passes ∨ p ∈ s.started e := by
  obtain ⟨kept, hsub, -, hperm⟩ := passes_apply hv e
  rcases List.mem_append.1 (hperm.mem_iff.1 h) with h | h
  · exact .inr h
  · exact .inl (hsub h)

theorem valid_apply (hv : s.Valid) (e : SessionEvent) : (s.apply e).1.Valid := by
  obtain ⟨kept, hsub, hnodup, hperm⟩ := passes_apply hv e
  have hnext := nextPass_apply hv e
  refine ⟨?_, fun p hp => ?_, ?_⟩
  · obtain ⟨limit, hl⟩ := hv.limit
    cases e with
    | analyze label uri source =>
      rw [apply_analyze hl]
      exact ⟨limit, hl⟩
    | update label uri source =>
      rw [apply_update hl]
      exact ⟨limit, hl⟩
    | wait label =>
      rw [apply]
      split <;> exact ⟨limit, hl⟩
    | setLimit m => exact ⟨m, rfl⟩
    | _ => exact ⟨limit, hl⟩
  · rcases List.mem_append.1 (hperm.mem_iff.1 hp) with h | h
    · have := number_started h
      omega
    · have := hv.fresh p (hsub h)
      omega
  · rw [hperm.nodup_iff, List.nodup_append]
    refine ⟨?_, hnodup, fun p hp q hq he => ?_⟩
    · unfold started
      split <;> simp
    · have := (number_started hp).1
      have := hv.fresh q (hsub hq)
      rw [← he] at this
      omega

end Apply

/-! ## Whole events -/

section Step

variable {s : Session} (hv : s.Valid) (e : SessionEvent)

theorem nodup_waiting (hv : s.Valid) : (s.waiting.map Waiting.pass).Nodup :=
  hv.nodup.of_append_right

/-- How the wait for a pass ends with an event, if it does. -/
def ended? (s : Session) (e : SessionEvent) (w : Waiting String) : Option (Finished String) :=
  (s.apply e).1.workspace.ended? (s.apply e).1.now w

include hv

theorem ended_eq : s.ended e = (s.waiting ++ s.begun e).filterMap (s.ended? e) := by
  rw [← waiting_apply hv]
  exact (Workspace.settle_eq _ _ (nodup_waiting (valid_apply hv e))).1

theorem waiting_step :
    (s.step e).1.waiting = (s.waiting ++ s.begun e).filter (fun w => (s.ended? e w).isNone) := by
  rw [← waiting_apply hv]
  exact (Workspace.settle_eq _ _ (nodup_waiting (valid_apply hv e))).2.1

theorem isCurrent_step (p : Pass) : (s.step e).1.workspace.isCurrent p
    = ((s.apply e).1.workspace.isCurrent p && !(s.waiting ++ s.begun e).any fun w =>
        decide (w.pass = p) && decide (w.due ≤ s.now + e.duration)) := by
  rw [← waiting_apply hv, ← now_apply]
  exact (Workspace.settle_eq _ _ (nodup_waiting (valid_apply hv e))).2.2 p

theorem passes_step : (s.step e).1.passes.Sublist (s.apply e).1.passes := by
  have hw : (s.step e).1.waiting.Sublist (s.apply e).1.waiting := by
    rw [waiting_step hv, waiting_apply hv]
    exact List.filter_sublist
  exact (hw.map Waiting.pass).append_left _

omit hv in
theorem sameDocuments_step : (s.apply e).1.workspace.SameDocuments (s.step e).1.workspace :=
  Workspace.sameDocuments_settle ..

theorem valid_step : (s.step e).1.Valid := by
  have ha := valid_apply hv e
  have hd := sameDocuments_step (s := s) e
  refine ⟨?_, fun p hp => ?_, ha.nodup.sublist (passes_step hv e)⟩
  · obtain ⟨limit, hl⟩ := ha.limit
    exact ⟨limit, hd.limit?.trans hl⟩
  · exact Nat.lt_of_lt_of_eq (ha.fresh p ((passes_step hv e).subset hp)) hd.nextPass.symm

theorem nextPass_le_step : s.workspace.nextPass ≤ (s.step e).1.workspace.nextPass := by
  rw [(sameDocuments_step e).nextPass, nextPass_apply hv]
  exact Nat.le_add_right _ _

/-- A pass that is not due does not end. -/
theorem isCurrent_step_of_not_due {p : Pass}
    (hd : ∀ w ∈ s.waiting ++ s.begun e, w.pass = p → s.now + e.duration < w.due) :
    (s.step e).1.workspace.isCurrent p = (s.apply e).1.workspace.isCurrent p := by
  have hany : (s.waiting ++ s.begun e).any (fun w =>
      decide (w.pass = p) && decide (w.due ≤ s.now + e.duration)) = false := by
    rw [List.any_eq_false]
    intro w hw hdue
    rw [Bool.and_eq_true, decide_eq_true_eq, decide_eq_true_eq] at hdue
    have := hd w hw hdue.1
    omega
  rw [isCurrent_step hv, hany, Bool.not_false, Bool.and_true]

/-- A pass that is waited for after an event is current, and due later. -/
theorem waits_step {w : Waiting String} (hw : w ∈ (s.step e).1.waiting) :
    w ∈ s.waiting ++ s.begun e ∧ (s.step e).1.workspace.isCurrent w.pass = true ∧
      s.now + e.duration < w.due := by
  rw [waiting_step hv, List.mem_filter, Option.isNone_iff_eq_none, ended?,
    Workspace.ended?_eq_none, now_apply] at hw
  obtain ⟨hmem, hc, hd⟩ := hw
  refine ⟨hmem, ?_, hd⟩
  rw [isCurrent_step_of_not_due hv e fun x hx hp => ?_, hc]
  have hn := nodup_waiting (valid_apply hv e)
  rw [waiting_apply hv] at hn
  rwa [List.inj_on_of_nodup_map hn hx hmem hp]

/-- A pass does not become current again. -/
theorem isCurrent_of_step {p : Pass} (hp : p.number < s.workspace.nextPass)
    (h : (s.step e).1.workspace.isCurrent p = true) :
    s.workspace.isCurrent p = true ∧ e.touches p.uri = false := by
  rw [isCurrent_step hv, isCurrent_apply hv hp] at h
  simp_all

theorem document?_step {uri : Uri} (h : e.touches uri = false) :
    (s.step e).1.workspace.document? uri = s.workspace.document? uri :=
  ((sameDocuments_step e).document? uri).trans (document?_apply hv h)

/-- Of the waits that end with an event, those for the pass of `w` are the end of `w`, if it
ends. -/
theorem ended_filter {w : Waiting String} (hw : w ∈ s.waiting ++ s.begun e) :
    (s.ended e).filter (fun f => decide (f.pass = w.pass)) = (s.ended? e w).toList := by
  have hn := nodup_waiting (valid_apply hv e)
  rw [waiting_apply hv] at hn
  rw [ended_eq hv]
  exact Workspace.filter_filterMap_ended? _ _ hn hw

/-- A pass whose wait ends with an event is no longer there after it. -/
theorem not_mem_passes_of_ended {f : Finished String} (hf : f ∈ s.ended e) :
    f.pass ∈ (s.apply e).1.passes ∧ f.pass ∉ (s.step e).1.passes := by
  have ha := valid_apply hv e
  rw [ended_eq hv, ← waiting_apply hv] at hf
  obtain ⟨w, hw, hfw⟩ := List.mem_filterMap.1 hf
  rw [Workspace.pass_of_ended? hfw]
  have hmem : w.pass ∈ (s.apply e).1.waiting.map Waiting.pass := List.mem_map_of_mem hw
  refine ⟨List.mem_append_right _ hmem, fun hp => ?_⟩
  rcases List.mem_append.1 hp with hp | hp
  · exact (List.nodup_append.1 ha.nodup).2.2 w.pass hp w.pass hmem rfl
  · obtain ⟨x, hx, hxw⟩ := List.mem_map.1 hp
    rw [waiting_step hv, ← waiting_apply hv, List.mem_filter] at hx
    obtain rfl := List.inj_on_of_nodup_map (nodup_waiting ha) hx.1 hw hxw
    rw [hfw] at hx
    cases hx.2

end Step

/-! ## Runs -/

/-- How long some events take. -/
def elapsed : List SessionEvent → Nat
  | [] => 0
  | e :: es => e.duration + elapsed es

theorem elapsed_cons (e : SessionEvent) (es : List SessionEvent) :
    elapsed (e :: es) = e.duration + elapsed es := rfl

theorem elapsed_append (es fs : List SessionEvent) :
    elapsed (es ++ fs) = elapsed es + elapsed fs := by
  induction es with
  | nil => exact (Nat.zero_add _).symm
  | cons e es ih => rw [List.cons_append, elapsed_cons, ih, elapsed_cons, Nat.add_assoc]

section Run

variable {s : Session}

theorem valid_run (hv : s.Valid) (es : List SessionEvent) : (s.run es).Valid := by
  induction es generalizing s with
  | nil => exact hv
  | cons e es ih => exact ih (valid_step hv e)

theorem now_run (s : Session) (es : List SessionEvent) : (s.run es).now = s.now + elapsed es := by
  induction es generalizing s with
  | nil => rfl
  | cons e es ih =>
    have hstep : (s.step e).1.now = s.now + e.duration := now_apply s e
    rw [run_cons, ih, hstep, elapsed_cons, Nat.add_assoc]

theorem debounce_run (s : Session) (es : List SessionEvent) :
    (s.run es).workspace.debounce = s.workspace.debounce := by
  induction es generalizing s with
  | nil => rfl
  | cons e es ih => exact (ih _).trans ((sameDocuments_step e).debounce.trans (debounce_apply s e))

theorem nextPass_le_run (hv : s.Valid) (es : List SessionEvent) :
    s.workspace.nextPass ≤ (s.run es).workspace.nextPass := by
  induction es generalizing s with
  | nil => exact Nat.le_refl _
  | cons e es ih => exact Nat.le_trans (nextPass_le_step hv e) (ih (valid_step hv e))

/-- A pass that ends was there, or one of the events has started it. -/
theorem mem_passes_of_mem_endedIn (hv : s.Valid) {es : List SessionEvent} {f : Finished String}
    (hf : f ∈ s.endedIn es) :
    f.pass ∈ s.passes ∨ ∃ p e q, es = p ++ e :: q ∧ f.pass ∈ (s.run p).started e := by
  induction es generalizing s with
  | nil => cases hf
  | cons e es ih =>
    have hfirst : f.pass ∈ (s.apply e).1.passes →
        f.pass ∈ s.passes ∨ ∃ p e' q, e :: es = p ++ e' :: q ∧ f.pass ∈ (s.run p).started e' :=
      fun h => (mem_passes_apply hv h).imp_right fun h => ⟨[], e, es, rfl, h⟩
    rcases List.mem_append.1 hf with hf | hf
    · exact hfirst (not_mem_passes_of_ended hv e hf).1
    · rcases ih (valid_step hv e) hf with h | ⟨p, e', q, rfl, h⟩
      · exact hfirst ((passes_step hv e).subset h)
      · exact .inr ⟨e :: p, e', q, rfl, h⟩

theorem le_number_of_mem_endedIn (hv : s.Valid) {es : List SessionEvent} {f : Finished String}
    (hf : f ∈ s.endedIn es) (hp : f.pass ∉ s.passes) :
    s.workspace.nextPass ≤ f.pass.number := by
  rcases mem_passes_of_mem_endedIn hv hf with h | ⟨p, e, q, -, h⟩
  · exact absurd h hp
  · rw [(number_started h).1]
    exact nextPass_le_run hv p

/-- The wait for a pass ends once. -/
theorem nodup_endedIn (hv : s.Valid) (es : List SessionEvent) :
    ((s.endedIn es).map Finished.pass).Nodup := by
  induction es generalizing s with
  | nil => exact .nil
  | cons e es ih =>
    rw [endedIn, List.map_append, List.nodup_append]
    have hn := nodup_waiting (valid_apply hv e)
    refine ⟨?_, ih (valid_step hv e), fun p hp q hq he => ?_⟩
    · rw [waiting_apply hv] at hn
      rw [ended_eq hv]
      exact hn.sublist (Workspace.map_pass_filterMap ..)
    · obtain ⟨f, hf, rfl⟩ := List.mem_map.1 hp
      obtain ⟨g, hg, rfl⟩ := List.mem_map.1 hq
      obtain ⟨hin, hout⟩ := not_mem_passes_of_ended hv e hf
      have hlt := (valid_apply hv e).fresh _ hin
      rw [← (sameDocuments_step e).nextPass] at hlt
      rw [he] at hout hlt
      have := le_number_of_mem_endedIn (valid_step hv e) hg hout
      omega

end Run

end Session

end Recipe
