import Mathlib.Data.List.Basic
import Recipe.Proofs.Table
import Recipe.Workspace.Basic

/-!
# What changes a workspace

A workspace is looked at through three questions: which document a uri has, which pass is current,
and what the next pass is called. An update or a close changes the answers for its uri. Ending a pass
makes that pass no longer current and changes no other answer (`isCurrent_finish`), so passes that are
settled together end as if each were alone (`settle_eq`).
-/

namespace Recipe

namespace Workspace

variable {α : Type}

theorem isCurrent_eq (v : Workspace) (p : Pass) :
    v.isCurrent p = ((v.slots.get? p.uri).bind Slot.pending? == some p.number) := by
  unfold isCurrent
  cases v.slots.get? p.uri with
  | none => rfl
  | some slot => rfl

/-- Only a document that is there has a current pass. -/
theorem document?_of_isCurrent {v : Workspace} {p : Pass} (h : v.isCurrent p = true) :
    ∃ d, v.document? p.uri = some d := by
  rw [isCurrent_eq] at h
  unfold document?
  cases hs : v.slots.get? p.uri with
  | none =>
    rw [hs] at h
    cases h
  | some slot => exact ⟨slot.document, rfl⟩

/-! ## Updates -/

/-- The workspace after an update. -/
def install (v : Workspace) (limit : Nat) (uri : Uri) (source : String) : Workspace :=
  { v with
    slots := v.slots.insert uri ⟨.read limit uri source, some v.nextPass⟩
    nextPass := v.nextPass + 1 }

theorem update_eq {v : Workspace} {limit : Nat} (h : v.limit? = some limit) (uri : Uri)
    (source : String) :
    v.update uri source = .ok (v.install limit uri source, ⟨uri, v.nextPass⟩) := by
  unfold update
  split
  · rename_i hn
    cases hn.symm.trans h
  · rename_i hl
    cases hl.symm.trans h
    rfl

theorem isCurrent_install (v : Workspace) (limit : Nat) (uri : Uri) (source : String) (p : Pass) :
    (v.install limit uri source).isCurrent p
      = if p.uri = uri then decide (p.number = v.nextPass) else v.isCurrent p := by
  rw [isCurrent_eq, isCurrent_eq, install, Table.get?_insert]
  split
  · rw [Bool.eq_iff_iff, beq_iff_eq, decide_eq_true_eq, Option.bind_some, Option.some.injEq]
    exact eq_comm
  · rfl

theorem document?_install (v : Workspace) (limit : Nat) (uri : Uri) (source : String) (u : Uri) :
    (v.install limit uri source).document? u
      = if u = uri then some (.read limit uri source) else v.document? u := by
  rw [document?, document?, install, Table.get?_insert]
  split <;> rfl

theorem isCurrent_close (v : Workspace) (uri : Uri) (p : Pass) :
    (v.close uri).isCurrent p = (v.isCurrent p && decide (p.uri ≠ uri)) := by
  rw [isCurrent_eq, isCurrent_eq, close, Table.get?_erase]
  split
  · rename_i h
    simp [h]
  · rename_i h
    simp [h]

theorem document?_close (v : Workspace) (uri u : Uri) :
    (v.close uri).document? u = if u = uri then none else v.document? u := by
  rw [document?, document?, close, Table.get?_erase]
  split <;> rfl

/-! ## The end of a pass -/

/-- Nothing but passes has changed: the documents, the limit, the window and the next number are as
they were. -/
structure SameDocuments (v w : Workspace) : Prop where
  document? : ∀ uri, w.document? uri = v.document? uri
  limit? : w.limit? = v.limit?
  debounce : w.debounce = v.debounce
  nextPass : w.nextPass = v.nextPass

theorem SameDocuments.rfl {v : Workspace} : SameDocuments v v :=
  ⟨fun _ => Eq.refl _, Eq.refl _, Eq.refl _, Eq.refl _⟩

theorem SameDocuments.trans {u v w : Workspace} (h : SameDocuments u v) (h' : SameDocuments v w) :
    SameDocuments u w :=
  ⟨fun uri => (h'.document? uri).trans (h.document? uri), h'.limit?.trans h.limit?,
    h'.debounce.trans h.debounce, h'.nextPass.trans h.nextPass⟩

theorem sameDocuments_finish (v : Workspace) (p : Pass) : SameDocuments v (v.finish p).1 := by
  unfold finish
  split
  · rename_i slot hs
    split
    · refine ⟨fun uri => ?_, rfl, rfl, rfl⟩
      unfold document?
      rw [Table.get?_insert]
      split
      · rename_i h
        rw [h, hs]
        rfl
      · rfl
    · exact .rfl
  · exact .rfl

/-- A current pass gives the diagnostics of its document. -/
theorem finish_snd {v : Workspace} {p : Pass} (h : v.isCurrent p = true) :
    (v.finish p).2 = (v.document? p.uri).map (·.tree.diagnostics) := by
  rw [isCurrent_eq] at h
  unfold finish document?
  cases hs : v.slots.get? p.uri with
  | none => rfl
  | some slot =>
    rw [hs] at h
    have hp : slot.pending? = some p.number := eq_of_beq h
    simp [hp]

/-- A pass that has ended is no longer current; the others are what they were. -/
theorem isCurrent_finish (v : Workspace) (p q : Pass) :
    (v.finish p).1.isCurrent q = (v.isCurrent q && decide (q ≠ p)) := by
  have hself : v.isCurrent p = false → v.isCurrent q = (v.isCurrent q && decide (q ≠ p)) := by
    intro h
    by_cases hq : q = p
    · rw [hq, h]
      rfl
    · simp [hq]
  unfold finish
  split
  · rename_i slot hs
    split
    · rename_i hp
      simp only [isCurrent_eq, Table.get?_insert]
      split
      · rename_i hu
        rw [hu, hs]
        by_cases hq : q = p
        · simp [hq]
        · have hne : ¬ p.number = q.number := fun hn => hq (by
            cases p
            cases q
            simp_all)
          simp [hp, hne]
      · rename_i hu
        have hq : q ≠ p := fun hq => hu (by rw [hq])
        simp [hq]
    · rename_i hp
      refine hself ?_
      rw [isCurrent_eq, hs]
      simpa using hp
  · rename_i hs
    refine hself ?_
    rw [isCurrent_eq, hs]
    rfl

/-! ## Several passes -/

/-- How the wait for a pass ends at time `now`, if it does: at once for a pass that is no longer
current, and when due, with the diagnostics of its document, for one that is. -/
def ended? (v : Workspace) (now : Nat) (w : Waiting α) : Option (Finished α) :=
  if v.isCurrent w.pass = false then some ⟨w.pass, now, w.tag, none⟩
  else if w.due ≤ now then
    some ⟨w.pass, w.due, w.tag, (v.document? w.pass.uri).map (·.tree.diagnostics)⟩
  else none

theorem ended?_eq_none {v : Workspace} {now : Nat} {w : Waiting α} :
    v.ended? now w = none ↔ v.isCurrent w.pass = true ∧ now < w.due := by
  unfold ended?
  split
  · rename_i h
    simp [h]
  · rename_i h
    rw [Bool.not_eq_false] at h
    split
    · rename_i hd
      simp [Nat.not_lt.2 hd]
    · rename_i hd
      simp [h, Nat.not_le.1 hd]

theorem pass_of_ended? {v : Workspace} {now : Nat} {w : Waiting α} {f : Finished α}
    (h : v.ended? now w = some f) : f.pass = w.pass := by
  unfold ended? at h
  split at h
  · cases h
    rfl
  · split at h
    · cases h
      rfl
    · cases h

/-- Only a pass that is current and due ends with diagnostics. -/
theorem isCurrent_of_ended? {v : Workspace} {now : Nat} {w : Waiting α} {f : Finished α}
    (h : v.ended? now w = some f) (hd : f.diagnostics?.isSome = true) :
    v.isCurrent w.pass = true ∧ w.due ≤ now := by
  unfold ended? at h
  split at h
  · cases h
    cases hd
  · rename_i hc
    split at h
    · rename_i hdue
      exact ⟨Bool.not_eq_false _ ▸ hc, hdue⟩
    · cases h

theorem ended?_finish {v : Workspace} {now : Nat} {w : Waiting α} {p : Pass} (h : w.pass ≠ p) :
    (v.finish p).1.ended? now w = v.ended? now w := by
  rw [ended?, ended?, isCurrent_finish, (sameDocuments_finish v p).document?]
  simp [h]

theorem sameDocuments_settle (v : Workspace) (now : Nat) (ws : List (Waiting α)) :
    SameDocuments v (v.settle now ws).workspace := by
  induction ws generalizing v with
  | nil => exact .rfl
  | cons w ws ih =>
    rw [settle]
    split
    · exact ih v
    split
    · exact (sameDocuments_finish v w.pass).trans (ih _)
    · exact ih v

/-- Different passes end as if each were alone, and the others stay waited for. -/
theorem settle_eq (v : Workspace) (now : Nat) {ws : List (Waiting α)}
    (hn : (ws.map Waiting.pass).Nodup) :
    (v.settle now ws).finished = ws.filterMap (v.ended? now) ∧
    (v.settle now ws).waiting = ws.filter (fun w => (v.ended? now w).isNone) ∧
    ∀ p, (v.settle now ws).workspace.isCurrent p
      = (v.isCurrent p && !ws.any fun w => decide (w.pass = p) && decide (w.due ≤ now)) := by
  induction ws generalizing v with
  | nil => exact ⟨rfl, rfl, fun p => (Bool.and_true _).symm⟩
  | cons w ws ih =>
    rw [List.map_cons, List.nodup_cons] at hn
    by_cases hc : v.isCurrent w.pass = true
    · by_cases hd : w.due ≤ now
      · -- The pass ends, and the others do not notice.
        have hw : v.ended? now w = some ⟨w.pass, w.due, w.tag, (v.finish w.pass).2⟩ := by
          rw [ended?, finish_snd hc]
          simp [hc, hd]
        have htail : ∀ x ∈ ws, (v.finish w.pass).1.ended? now x = v.ended? now x := fun x hx =>
          ended?_finish fun he => hn.1 (he ▸ List.mem_map_of_mem hx)
        obtain ⟨hf, hwait, hcur⟩ := ih (v.finish w.pass).1 hn.2
        simp only [settle, hc, hd, Bool.not_true, Bool.false_eq_true, if_false, if_true]
        refine ⟨?_, ?_, fun p => ?_⟩
        · rw [List.filterMap_cons, hw, hf, List.filterMap_congr htail]
        · rw [List.filter_cons_of_neg (by simp [hw]), hwait]
          exact List.filter_congr fun x hx => by rw [htail x hx]
        · rw [hcur, isCurrent_finish, List.any_cons]
          by_cases hp : w.pass = p
          · simp [hp, hd]
          · simp [hp, Ne.symm hp]
      · have hw : v.ended? now w = none := by
          rw [ended?]
          simp [hc, hd]
        obtain ⟨hf, hwait, hcur⟩ := ih v hn.2
        simp only [settle, hc, hd, Bool.not_true, Bool.false_eq_true, if_false]
        refine ⟨?_, ?_, fun p => ?_⟩
        · rw [List.filterMap_cons, hw, hf]
        · rw [List.filter_cons_of_pos (by rw [hw]; rfl), hwait]
        · rw [hcur, List.any_cons]
          simp [hd]
    · rw [Bool.not_eq_true] at hc
      have hw : v.ended? now w = some ⟨w.pass, now, w.tag, none⟩ := by
        rw [ended?, if_pos hc]
      obtain ⟨hf, hwait, hcur⟩ := ih v hn.2
      simp only [settle, hc, Bool.not_false, if_true]
      refine ⟨?_, ?_, fun p => ?_⟩
      · rw [List.filterMap_cons, hw, hf]
      · rw [List.filter_cons_of_neg (by simp [hw]), hwait]
      · rw [hcur, List.any_cons]
        by_cases hp : w.pass = p
        · rw [hp] at hc
          simp [hc]
        · simp [hp]

theorem map_pass_filterMap (v : Workspace) (now : Nat) (ws : List (Waiting α)) :
    ((ws.filterMap (v.ended? now)).map Finished.pass).Sublist (ws.map Waiting.pass) := by
  induction ws with
  | nil => exact .slnil
  | cons w ws ih =>
    rw [List.filterMap_cons, List.map_cons]
    cases hw : v.ended? now w with
    | none => exact ih.cons _
    | some f =>
      rw [← pass_of_ended? hw]
      exact ih.cons_cons _

/-- Of different passes, each ends once. -/
theorem filter_filterMap_ended? (v : Workspace) (now : Nat) {ws : List (Waiting α)}
    (hn : (ws.map Waiting.pass).Nodup) {w : Waiting α} (hw : w ∈ ws) :
    (ws.filterMap (v.ended? now)).filter (fun f => decide (f.pass = w.pass))
      = (v.ended? now w).toList := by
  induction ws with
  | nil => cases hw
  | cons x ws ih =>
    rw [List.map_cons, List.nodup_cons] at hn
    have hhead : ∀ f, v.ended? now x = some f → f.pass = x.pass := fun f => pass_of_ended?
    rcases List.mem_cons.1 hw with rfl | hw
    · have htail : (ws.filterMap (v.ended? now)).filter (fun f => decide (f.pass = w.pass)) = [] := by
        refine List.filter_eq_nil_iff.2 fun f hf hp => hn.1 ?_
        rw [← of_decide_eq_true hp]
        exact (map_pass_filterMap v now ws).subset (List.mem_map_of_mem hf)
      rw [List.filterMap_cons]
      cases hx : v.ended? now w with
      | none => exact htail
      | some f =>
        have hf : decide (f.pass = w.pass) = true := decide_eq_true (hhead f hx)
        dsimp only
        rw [List.filter_cons, if_pos hf, htail]
        rfl
    · have hne : x.pass ≠ w.pass := fun he => hn.1 (he ▸ List.mem_map_of_mem hw)
      rw [← ih hn.2 hw, List.filterMap_cons]
      cases hx : v.ended? now x with
      | none => rfl
      | some f =>
        have hf : ¬ decide (f.pass = w.pass) = true := by
          rw [hhead f hx, decide_eq_true_eq]
          exact hne
        dsimp only
        rw [List.filter_cons, if_neg hf]

end Workspace

end Recipe
