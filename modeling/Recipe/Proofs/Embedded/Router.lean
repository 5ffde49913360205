import Recipe.Proofs.Embedded.Store

/-!
# Routers

A router serves the embedded documents to the servers of their languages. It never looks into the
store: it starts without documents and takes what each call tells (`Router.receive`). Main statement
(`Store.router_follows`): after every run a router has just the documents that the store answers
with, and every call tells what it changed, no more and no less (`Changes.Describes`).
-/

namespace Recipe

/-! ## What a router sees -/

/-- What a router keeps of a document. -/
structure View where
  language : Language
  text : String
  version : Nat
deriving DecidableEq, Repr

/-- The view of a document. -/
def EmbeddedDocument.view (d : EmbeddedDocument) : View :=
  ⟨d.language, d.text, d.version⟩

/-- The view of the document that a store answers with. -/
def Store.view? (s : Store) (u : Uri) : Option View :=
  (s.document? u).map (·.view)

/-- The uris that changes tell of. -/
def Changes.uris (c : Changes) : List Uri :=
  c.opened.map (·.uri) ++ (c.changed.map (·.uri) ++ c.closed)

/-- The documents that a router knows. -/
structure Router where
  views : Table Uri View

namespace Router

/-- The router without documents. -/
def empty : Router :=
  ⟨.empty⟩

/-- The view that a router has of a document. -/
def view? (r : Router) (u : Uri) : Option View :=
  r.views.get? u

/-- Takes changes: what was opened is new, what changed takes the place of what was there, and what
was closed is gone. -/
def receive (r : Router) (c : Changes) : Router :=
  let opened := Table.insertAll (·.uri) (·.view) c.opened r.views
  let changed := Table.insertAll (·.uri) (·.view) c.changed opened
  ⟨c.closed.foldl Table.erase changed⟩

/-- The router that took changes one after the other. -/
def after (cs : List Changes) : Router :=
  cs.foldl receive empty

section Receive

variable {r : Router} {c : Changes}

theorem view?_receive_of_closed {u : Uri} (h : u ∈ c.closed) : (r.receive c).view? u = none := by
  rw [view?, receive, Table.get?_foldl_erase, if_pos h]

theorem view?_receive_of_changed (hn : c.uris.Nodup) {d : EmbeddedDocument} (h : d ∈ c.changed) :
    (r.receive c).view? d.uri = some d.view := by
  obtain ⟨-, htail, -⟩ := List.nodup_append.1 hn
  obtain ⟨hchanged, -, hne⟩ := List.nodup_append.1 htail
  rw [view?, receive, Table.get?_foldl_erase,
    if_neg fun hc => hne _ (List.mem_map_of_mem h) _ hc rfl]
  exact Table.get?_insertAll_of_mem hchanged h

theorem view?_receive_of_opened (hn : c.uris.Nodup) {d : EmbeddedDocument} (h : d ∈ c.opened) :
    (r.receive c).view? d.uri = some d.view := by
  obtain ⟨hopened, -, hne⟩ := List.nodup_append.1 hn
  have hout : d.uri ∉ c.changed.map (·.uri) ++ c.closed := fun hc =>
    hne _ (List.mem_map_of_mem h) _ hc rfl
  rw [List.mem_append, not_or] at hout
  rw [view?, receive, Table.get?_foldl_erase, if_neg hout.2, Table.get?_insertAll_of_not_mem hout.1]
  exact Table.get?_insertAll_of_mem hopened h

theorem view?_receive_of_not_mem {u : Uri} (h : u ∉ c.uris) :
    (r.receive c).view? u = r.view? u := by
  rw [Changes.uris, List.mem_append, List.mem_append, not_or, not_or] at h
  rw [view?, receive, Table.get?_foldl_erase, if_neg h.2.2, Table.get?_insertAll_of_not_mem h.2.1,
    Table.get?_insertAll_of_not_mem h.1, view?]

end Receive

end Router

/-- What changes tell about a step from one store to another. -/
structure Changes.Describes (c : Changes) (s s' : Store) : Prop where
  opened : ∀ d ∈ c.opened, s.document? d.uri = .none ∧ d.version = 1
  changed : ∀ d ∈ c.changed,
    ∃ o, s.document? d.uri = some o ∧ o.text ≠ d.text ∧ d.version = o.version + 1
  closed : ∀ u ∈ c.closed, ∃ o, s.document? u = some o
  nodup : c.uris.Nodup
  isEmpty_iff : c.isEmpty = true ↔ ∀ u, s'.view? u = s.view? u

namespace Store

/-! ## What is told -/

section Changes

variable {host : Uri} {old new : List EmbeddedDocument}

theorem mem_opened {d : EmbeddedDocument} :
    d ∈ (changes old new).opened ↔ d ∈ new ∧ d.uri ∉ old.map (·.uri) := by
  rw [changes, List.mem_filter, Option.isNone_iff_eq_none, previous?_eq_none]

theorem mem_changed {e : EmbeddedDocument} : e ∈ (changes old new).changed ↔
    ∃ d ∈ new, ∃ o, previous? old d = some o ∧ o.text ≠ d.text ∧
      e = { d with version := o.version + 1 } := by
  rw [changes, List.mem_filterMap]
  refine exists_congr fun d => and_congr_right fun _ => ?_
  rw [Option.bind_eq_some_iff]
  refine exists_congr fun o => and_congr_right fun _ => ?_
  by_cases ht : o.text = d.text
  · simp [ht]
  · simp [ht, EmbeddedDocument.succeed, eq_comm]

theorem uri_of_changed {e : EmbeddedDocument} (h : e ∈ (changes old new).changed) :
    e.uri ∈ old.map (·.uri) ∧ e.uri ∈ new.map (·.uri) := by
  obtain ⟨d, hd, o, ho, -, rfl⟩ := mem_changed.1 h
  obtain ⟨hm, hu⟩ := previous?_eq_some ho
  exact ⟨List.mem_map.2 ⟨o, hm, hu⟩, List.mem_map.2 ⟨d, hd, rfl⟩⟩

theorem nodup_opened (hn : DocumentsOf host new) :
    ((changes old new).opened.map (·.uri)).Nodup :=
  hn.nodup.sublist (List.filter_sublist.map _)

theorem nodup_changed (hn : DocumentsOf host new) :
    ((changes old new).changed.map (·.uri)).Nodup := by
  have hp := hn.nodup
  rw [List.Nodup, List.pairwise_map] at hp ⊢
  refine hp.filterMap _ fun d d' hne e he e' he' => ?_
  have huri : ∀ d e : EmbeddedDocument, ((previous? old d).bind fun o =>
      if o.text = d.text then none else some (d.succeed (some o))) = some e → e.uri = d.uri := by
    intro d e he
    obtain ⟨o, ho, h⟩ := Option.bind_eq_some_iff.1 he
    split at h
    · cases h
    · rename_i ht
      simp only [EmbeddedDocument.succeed, ht, if_false, Option.some.injEq] at h
      rw [← h]
  rw [huri d e he, huri d' e' he']
  exact hne

/-- No uri occurs twice in what is told. -/
theorem nodup_changes (ho : DocumentsOf host old) (hn : DocumentsOf host new) :
    (changes old new).uris.Nodup := by
  have hclosed : (changes old new).closed.Nodup :=
    (List.mergeSort_perm _ _).nodup_iff.2 (ho.nodup.filter _)
  refine (nodup_opened hn).append ((nodup_changed hn).append hclosed ?_) ?_
  · intro u hu hc
    obtain ⟨e, he, rfl⟩ := List.mem_map.1 hu
    exact (mem_closed.1 hc).2 (uri_of_changed he).2
  · intro u hu hc
    obtain ⟨d, hd, rfl⟩ := List.mem_map.1 hu
    have hd' := (mem_opened.1 hd).2
    rcases List.mem_append.1 hc with hc | hc
    · obtain ⟨e, he, hu⟩ := List.mem_map.1 hc
      exact hd' (hu ▸ (uri_of_changed he).1)
    · exact hd' (mem_closed.1 hc).1

end Changes

/-! ## One step -/

section Step

variable {hosts : List Uri} {s : Store} {host : Uri} {new : List EmbeddedDocument}

theorem opened_subset_renew {old : List EmbeddedDocument} {d : EmbeddedDocument}
    (h : d ∈ (changes old new).opened) : d ∈ renew old new := by
  obtain ⟨hd, hu⟩ := mem_opened.1 h
  refine List.mem_map.2 ⟨d, hd, ?_⟩
  rw [previous?_eq_none.2 hu]
  rfl

theorem changed_subset_renew {old : List EmbeddedDocument} {e : EmbeddedDocument}
    (h : e ∈ (changes old new).changed) : e ∈ renew old new := by
  obtain ⟨d, hd, o, ho, ht, rfl⟩ := mem_changed.1 h
  refine List.mem_map.2 ⟨d, hd, ?_⟩
  rw [ho, EmbeddedDocument.succeed, if_neg ht]

theorem Consistent.document?_eq_some (hs : s.Consistent hosts) {o : EmbeddedDocument}
    (ho : o ∈ s.ofHost host) : s.document? o.uri = some o := by
  rw [hs.document?_iff, (hs.documentsOf host).host_eq o ho]
  exact ⟨rfl, ho⟩

theorem Consistent.document?_eq_none (hs : s.Consistent hosts) (ha : Apart hosts)
    (hh : host ∈ hosts) (hn : DocumentsOf host new) {d : EmbeddedDocument} (hd : d ∈ new)
    (hu : d.uri ∉ (s.ofHost host).map (·.uri)) : s.document? d.uri = none := by
  cases ho : s.document? d.uri with
  | none => rfl
  | some o =>
    -- Another host cannot have the uri, and this one does not.
    obtain ⟨hou, hom⟩ := (hs.document?_iff _ _).1 ho
    have hhost := hs.host_eq_of_uri ha hh hn hd hom hou
    exact absurd (List.mem_map.2 ⟨o, hhost ▸ hom, hou⟩) hu

/-- A document that succeeds one with its language and text looks to a router as the earlier one
did. -/
theorem view_succeed_of_text_eq {d o : EmbeddedDocument} (hl : o.language = d.language)
    (ht : o.text = d.text) : (d.succeed (some o)).view = o.view := by
  rw [EmbeddedDocument.succeed, if_pos ht]
  split
  · rfl
  · simp [EmbeddedDocument.view, hl, ht]

/-- A document that is not told of looks the same to a router. -/
theorem view?_replace_of_not_mem (hs : s.Consistent hosts) (hn : DocumentsOf host new) {u : Uri}
    (hu : u ∉ (changes (s.ofHost host) new).uris) :
    (s.replace host new).1.view? u = s.view? u := by
  have ho := hs.documentsOf host
  rw [Changes.uris, List.mem_append, List.mem_append, not_or, not_or] at hu
  by_cases hnew : u ∈ new.map (·.uri)
  · obtain ⟨d, hd, rfl⟩ := List.mem_map.1 hnew
    cases hp : previous? (s.ofHost host) d with
    | none =>
      exact absurd (List.mem_map_of_mem (mem_opened.2 ⟨hd, previous?_eq_none.1 hp⟩)) hu.1
    | some o =>
      by_cases ht : o.text = d.text
      · have heq := succeed_previous? ho hn hd
        have hstored := document?_replace_of_mem ho hn (List.mem_map.2 ⟨d, hd, rfl⟩)
        rw [show (d.succeed (previous? (s.ofHost host) d)).uri = d.uri from congrArg (·.uri) heq,
          hp] at hstored
        obtain ⟨hom, hou⟩ := previous?_eq_some hp
        have hl := (region_of_previous? ho hn hd hp).2.1
        rw [view?, view?, hstored, ← hou, hs.document?_eq_some hom, Option.map_some,
          Option.map_some, view_succeed_of_text_eq hl ht]
      · exact absurd (List.mem_map.2 ⟨_, mem_changed.2 ⟨d, hd, o, hp, ht, rfl⟩, rfl⟩) hu.2.1
  · have hold : u ∉ (s.ofHost host).map (·.uri) := fun hold =>
      hu.2.2 (mem_closed.2 ⟨hold, hnew⟩)
    rw [view?, view?, document?_replace_of_other ho hn hold hnew]

theorem view?_replace_of_opened (hs : s.Consistent hosts) (hn : DocumentsOf host new)
    {d : EmbeddedDocument} (hd : d ∈ (changes (s.ofHost host) new).opened) :
    (s.replace host new).1.view? d.uri = some d.view := by
  rw [view?, document?_replace_of_mem (hs.documentsOf host) hn (opened_subset_renew hd)]
  rfl

theorem view?_replace_of_changed (hs : s.Consistent hosts) (hn : DocumentsOf host new)
    {e : EmbeddedDocument} (he : e ∈ (changes (s.ofHost host) new).changed) :
    (s.replace host new).1.view? e.uri = some e.view := by
  rw [view?, document?_replace_of_mem (hs.documentsOf host) hn (changed_subset_renew he)]
  rfl

theorem view?_replace_of_closed {u : Uri} (hu : u ∈ (changes (s.ofHost host) new).closed) :
    (s.replace host new).1.view? u = none := by
  obtain ⟨hold, hnew⟩ := mem_closed.1 hu
  rw [view?, document?_replace_of_closed hold hnew]
  rfl

/-- A router that has what the store answers with still has it after one more step. -/
theorem view?_receive_changes (hs : s.Consistent hosts) (hn : DocumentsOf host new) {r : Router}
    (hr : ∀ u, r.view? u = s.view? u) (u : Uri) :
    (r.receive (changes (s.ofHost host) new)).view? u = (s.replace host new).1.view? u := by
  have hc := nodup_changes (hs.documentsOf host) hn
  by_cases hu : u ∈ (changes (s.ofHost host) new).uris
  · rcases List.mem_append.1 hu with hm | hm
    · obtain ⟨d, hd, rfl⟩ := List.mem_map.1 hm
      rw [Router.view?_receive_of_opened hc hd, view?_replace_of_opened hs hn hd]
    rcases List.mem_append.1 hm with hm | hm
    · obtain ⟨e, he, rfl⟩ := List.mem_map.1 hm
      rw [Router.view?_receive_of_changed hc he, view?_replace_of_changed hs hn he]
    · rw [Router.view?_receive_of_closed hm, view?_replace_of_closed hm]
  · rw [Router.view?_receive_of_not_mem hu, view?_replace_of_not_mem hs hn hu, hr u]

/-- The changes between the stored documents of a host and new ones describe what `replace` does to
the store. -/
theorem describes_changes (hs : s.Consistent hosts) (ha : Apart hosts) (hh : host ∈ hosts)
    (hn : DocumentsOf host new) (hv : ∀ d ∈ new, d.version = 1) :
    (changes (s.ofHost host) new).Describes s (s.replace host new).1 := by
  have hopened : ∀ d ∈ (changes (s.ofHost host) new).opened, s.document? d.uri = none := by
    intro d hd
    obtain ⟨hm, hu⟩ := mem_opened.1 hd
    exact hs.document?_eq_none ha hh hn hm hu
  have hchanged : ∀ e ∈ (changes (s.ofHost host) new).changed,
      ∃ o, s.document? e.uri = some o ∧ o.text ≠ e.text ∧ e.version = o.version + 1 := by
    intro e he
    obtain ⟨d, hd, o, hp, ht, rfl⟩ := mem_changed.1 he
    obtain ⟨hom, hou⟩ := previous?_eq_some hp
    exact ⟨o, hou ▸ hs.document?_eq_some hom, ht, rfl⟩
  have hclosed : ∀ u ∈ (changes (s.ofHost host) new).closed, ∃ o, s.document? u = some o := by
    intro u hu
    obtain ⟨o, hom, rfl⟩ := List.mem_map.1 (mem_closed.1 hu).1
    exact ⟨o, hs.document?_eq_some hom⟩
  refine ⟨fun d hd => ⟨hopened d hd, hv d (mem_opened.1 hd).1⟩, hchanged, hclosed,
    nodup_changes (hs.documentsOf host) hn, fun he u => ?_, fun hsame => ?_⟩
  · refine view?_replace_of_not_mem hs hn ?_
    simp only [Changes.isEmpty, Bool.and_eq_true, List.isEmpty_iff] at he
    simp [Changes.uris, he]
  · simp only [Changes.isEmpty, Bool.and_eq_true, List.isEmpty_iff, List.eq_nil_iff_forall_not_mem]
    refine ⟨⟨fun d hd => ?_, fun e he => ?_⟩, fun u hu => ?_⟩
    · have h := hsame d.uri
      rw [view?_replace_of_opened hs hn hd, view?, hopened d hd] at h
      cases h
    · obtain ⟨o, ho, ht, -⟩ := hchanged e he
      have h := hsame e.uri
      rw [view?_replace_of_changed hs hn he, view?, ho, Option.map_some, Option.some.injEq] at h
      exact ht (congrArg View.text h).symm
    · obtain ⟨o, ho⟩ := hclosed u hu
      have h := hsame u
      rw [view?_replace_of_closed hu, view?, ho] at h
      cases h

end Step

/-! ## Runs -/

/-- What a run from `s` tells, call by call. -/
def toldFrom (limit : Nat) (s : Store) : List Call → List Changes
  | [] => []
  | c :: calls => (s.apply limit c).2 :: toldFrom limit (s.apply limit c).1 calls

/-- What a run on the empty store tells, call by call. -/
def told (limit : Nat) (calls : List Call) : List Changes :=
  toldFrom limit .empty calls

theorem told_concat (limit : Nat) (calls : List Call) (c : Call) :
    told limit (calls ++ [c]) = told limit calls ++ [((run limit calls).apply limit c).2] := by
  have h : ∀ s : Store, toldFrom limit s (calls ++ [c]) = toldFrom limit s calls
      ++ [((calls.foldl (fun s c => (s.apply limit c).1) s).apply limit c).2] := by
    induction calls with
    | nil => exact fun _ => rfl
    | cons b calls ih => exact fun s => congrArg (_ :: ·) (ih _)
  exact h .empty

/-- A router that takes what each call tells has just the documents that the store answers with, and
each call tells what it changed. -/
theorem router_follows {limit : Nat} {calls : List Call} (ha : Apart (calls.map Call.host)) :
    (∀ u, (Router.after (told limit calls)).view? u = (run limit calls).view? u) ∧
    ∀ before c after, calls = before ++ c :: after →
      ((run limit before).apply limit c).2.Describes
        (run limit before) ((run limit before).apply limit c).1 := by
  have hmem : ∀ c ∈ calls, c.host ∈ calls.map Call.host := fun c hc => List.mem_map_of_mem hc
  refine ⟨fun u => ?_, fun before c after hsplit => ?_⟩
  · generalize calls.map Call.host = hosts at ha hmem
    induction calls using List.reverseRecOn generalizing u with
    | nil => rfl
    | append_singleton calls c ih =>
      have hcalls : ∀ c' ∈ calls, c'.host ∈ hosts := fun c' h => hmem c' (List.mem_append_left _ h)
      rw [told_concat, Router.after, List.foldl_append, run_concat, apply_eq_replace]
      exact view?_receive_changes (consistent_run ha hcalls) (c.documentsOf_documents limit)
        (fun u => ih u hcalls) u
  · subst hsplit
    rw [apply_eq_replace]
    exact describes_changes (consistent_run ha fun c' h => hmem c' (List.mem_append_left _ h)) ha
      (hmem c (by simp)) (c.documentsOf_documents limit) fun d hd => Call.version_documents hd

/-! ## Two revisions -/

/-- Two revisions of a recipe. -/
def revisions : List Uri :=
  [⟨"git:/a.bb?old"⟩, ⟨"git:/a.bb?new"⟩]

theorem apart_revisions : Apart revisions := by
  -- The uris of a host end with its query.
  have hq : ∀ h ∈ revisions,
      h.parts.query? = some (if h.text = "git:/a.bb?old" then "old" else "new") ∧
        h.parts.fragment? = none := by decide
  have hlast : ∀ h ∈ revisions, ∀ l i,
      (syntheticUri h l i).text.toList.getLast?
        = some (if h.text = "git:/a.bb?old" then 'd' else 'w') := by
    intro h hm l i
    obtain ⟨hquery, hfragment⟩ := hq h hm
    rw [uriLaws.text_name]
    simp only [UriParts.text, UriParts.synthetic, hquery, hfragment, UriParts.marked,
      String.toList_append, List.getLast?_append]
    split <;> rfl
  have hne : ∀ h ∈ revisions, ∀ h' ∈ revisions,
      some (if h.text = "git:/a.bb?old" then 'd' else 'w')
        = some (if h'.text = "git:/a.bb?old" then 'd' else 'w') → h = h' := by decide
  intro h hm h' hm' l l' i i' heq
  have hchar := congrArg (·.text.toList.getLast?) heq
  simp only [hlast h hm, hlast h' hm'] at hchar
  exact hne h hm h' hm' hchar

/-- The two revisions side by side; one of them is edited and the other closed. -/
def revisionCalls : List Call :=
  [.text ⟨"git:/a.bb?old"⟩ "do_a() \x7b\n  x\n\x7d\n", .text ⟨"git:/a.bb?new"⟩ "A = \"${@b}\"\n",
    .text ⟨"git:/a.bb?new"⟩ "A = \"${@c}\"\ndo_a() \x7b\n  y\n\x7d\n", .close ⟨"git:/a.bb?old"⟩]

theorem router_follows_revisions : Apart (revisionCalls.map Call.host) ∧
    (∀ u, (Router.after (told 64 revisionCalls)).view? u = (run 64 revisionCalls).view? u) ∧
    ∀ before c after, revisionCalls = before ++ c :: after →
      ((run 64 before).apply 64 c).2.Describes (run 64 before) ((run 64 before).apply 64 c).1 := by
  have ha := apart_revisions.mono (by decide : revisionCalls.map Call.host ⊆ revisions)
  exact ⟨ha, router_follows ha⟩

end Store

end Recipe
