import Mathlib.Data.List.Induction
import Mathlib.Data.List.Nodup
import Recipe.Embedded.Store
import Recipe.Proofs.Embedded.Region
import Recipe.Proofs.Table
import Recipe.Proofs.Uri.Laws

/-!
# Runs of the store

Every call of the store puts rendered documents in the place of those of one host
(`Store.apply_eq_replace`). `Store.replace` is known by what it does to the documents of each host
(`ofHost_replace`) and to the answer for each uri (`document?_replace_of_mem`,
`document?_replace_of_closed`, `document?_replace_of_other`). As long as no two hosts share a
synthetic uri, the two tables of the store agree after every run (`Store.consistent_run`). Of synthetic
uris only this is used: one host has different ones for different regions (`UriLaws.region_of_name`).
-/

namespace Recipe

/-! ## Documents of a host -/

/-- The documents of a host: each has the uri of its region, and no two have the same. -/
structure DocumentsOf (host : Uri) (ds : List EmbeddedDocument) : Prop where
  host_eq : ∀ d ∈ ds, d.host = host
  uri_eq : ∀ d ∈ ds, d.uri = syntheticUri host d.language d.index
  nodup : (ds.map (·.uri)).Nodup

theorem DocumentsOf.nil (host : Uri) : DocumentsOf host [] :=
  ⟨by simp, by simp, List.nodup_nil⟩

theorem DocumentsOf.eq_of_uri {host : Uri} {ds : List EmbeddedDocument} (h : DocumentsOf host ds)
    {d e : EmbeddedDocument} (hd : d ∈ ds) (he : e ∈ ds) (hu : d.uri = e.uri) : d = e :=
  List.inj_on_of_nodup_map h.nodup hd he hu

theorem documentsOf_regions (host : Uri) (t : Tree) :
    DocumentsOf host (t.regions.map (.ofRegion host t.source)) := by
  refine ⟨?_, ?_, ?_⟩
  · simp [EmbeddedDocument.ofRegion]
  · simp [EmbeddedDocument.ofRegion]
  · have hk := t.regions_nodup
    rw [List.Nodup, List.pairwise_map] at hk ⊢
    rw [List.pairwise_map]
    refine hk.imp fun hne hu => hne ?_
    obtain ⟨hl, hi⟩ := uriLaws.region_of_name hu
    exact Prod.ext hl hi

namespace EmbeddedDocument

/-- Only version and mapping of what is stored depend on the document of the same region before. -/
theorem succeed_eq {old? : Option EmbeddedDocument} {d : EmbeddedDocument}
    (h : ∀ o, old? = some o → o.uri = d.uri ∧ o.language = d.language ∧ o.host = d.host ∧
      o.index = d.index) :
    d.succeed old?
      = { d with version := (d.succeed old?).version, mapping := (d.succeed old?).mapping } := by
  cases old? with
  | none => rfl
  | some o =>
    obtain ⟨hu, hl, hh, hi⟩ := h o rfl
    unfold succeed
    dsimp only
    split
    · rename_i ht
      split
      · rename_i hr
        rw [← hu, ← hl, ← hh, ← hi, ← ht, ← hr]
      · rfl
    · rfl

end EmbeddedDocument

namespace Store

section Replace

variable {s : Store} {host : Uri} {old new : List EmbeddedDocument} {d : EmbeddedDocument}

theorem previous?_eq_some {o : EmbeddedDocument} (h : previous? old d = some o) :
    o ∈ old ∧ o.uri = d.uri :=
  ⟨List.mem_of_find?_eq_some h, by simpa using List.find?_some h⟩

theorem previous?_eq_none : previous? old d = none ↔ d.uri ∉ old.map (·.uri) := by
  simp [previous?]

/-- A document and the one before it belong to the same region. -/
theorem region_of_previous? (ho : DocumentsOf host old) (hn : DocumentsOf host new) (hd : d ∈ new)
    {o : EmbeddedDocument} (h : previous? old d = some o) :
    o.uri = d.uri ∧ o.language = d.language ∧ o.host = d.host ∧ o.index = d.index := by
  obtain ⟨hm, hu⟩ := previous?_eq_some h
  have hs := hu
  rw [ho.uri_eq o hm, hn.uri_eq d hd] at hs
  obtain ⟨hl, hi⟩ := uriLaws.region_of_name hs
  exact ⟨hu, hl, (ho.host_eq o hm).trans (hn.host_eq d hd).symm, hi⟩

/-- The documents stored when `new` takes the place of `old`. -/
def renew (old new : List EmbeddedDocument) : List EmbeddedDocument :=
  new.map fun d => d.succeed (previous? old d)

theorem succeed_previous? (ho : DocumentsOf host old) (hn : DocumentsOf host new) (hd : d ∈ new) :
    d.succeed (previous? old d) = { d with
      version := (d.succeed (previous? old d)).version
      mapping := (d.succeed (previous? old d)).mapping } :=
  EmbeddedDocument.succeed_eq fun _ h => region_of_previous? ho hn hd h

theorem map_uri_renew (ho : DocumentsOf host old) (hn : DocumentsOf host new) :
    (renew old new).map (·.uri) = new.map (·.uri) := by
  rw [renew, List.map_map, List.map_inj_left]
  intro d hd
  exact congrArg (·.uri) (succeed_previous? ho hn hd)

theorem documentsOf_renew (ho : DocumentsOf host old) (hn : DocumentsOf host new) :
    DocumentsOf host (renew old new) := by
  refine ⟨fun e he => ?_, fun e he => ?_, map_uri_renew ho hn ▸ hn.nodup⟩
  · obtain ⟨d, hd, rfl⟩ := List.mem_map.1 he
    rw [succeed_previous? ho hn hd]
    exact hn.host_eq d hd
  · obtain ⟨d, hd, rfl⟩ := List.mem_map.1 he
    rw [succeed_previous? ho hn hd]
    exact hn.uri_eq d hd

/-! ## Replacing -/

theorem ofHost_replace (s : Store) (host : Uri) (new : List EmbeddedDocument) (h : Uri) :
    (s.replace host new).1.ofHost h
      = if h = host then renew (s.ofHost host) new else s.ofHost h := by
  show (Table.get? (if (renew (s.ofHost host) new).isEmpty then s.hosts.erase host
    else (s.hosts.erase host).insert host (renew (s.ofHost host) new)) h).getD [] = _
  split
  · rename_i he
    rw [Table.get?_erase, List.isEmpty_iff.1 he]
    split
    · rfl
    · rfl
  · rw [Table.get?_insert, Table.get?_erase]
    split
    · rfl
    · rfl

theorem mem_closed {u : Uri} :
    u ∈ (changes old new).closed ↔ u ∈ old.map (·.uri) ∧ u ∉ new.map (·.uri) := by
  simp [changes, Uri.sort, List.mem_mergeSort]

theorem document?_replace (s : Store) (host : Uri) (new : List EmbeddedDocument) (u : Uri) :
    (s.replace host new).1.document? u = if u ∈ (changes (s.ofHost host) new).closed then none
      else (Table.insertAll (·.uri) (fun d => d) (renew (s.ofHost host) new) s.documents).get? u :=
  Table.get?_foldl_erase ..

/-- A document that was stored is found. -/
theorem document?_replace_of_mem (ho : DocumentsOf host (s.ofHost host))
    (hn : DocumentsOf host new) {e : EmbeddedDocument} (he : e ∈ renew (s.ofHost host) new) :
    (s.replace host new).1.document? e.uri = some e := by
  have hm : e.uri ∈ new.map (·.uri) := map_uri_renew ho hn ▸ List.mem_map_of_mem he
  rw [document?_replace, if_neg fun hc => (mem_closed.1 hc).2 hm]
  exact Table.get?_insertAll_of_mem (documentsOf_renew ho hn).nodup he

theorem document?_replace_of_closed {u : Uri} (hu : u ∈ (s.ofHost host).map (·.uri))
    (hn : u ∉ new.map (·.uri)) : (s.replace host new).1.document? u = none := by
  rw [document?_replace, if_pos (mem_closed.2 ⟨hu, hn⟩)]

/-- Uris of other documents keep their answer. -/
theorem document?_replace_of_other (ho : DocumentsOf host (s.ofHost host))
    (hn : DocumentsOf host new) {u : Uri} (hu : u ∉ (s.ofHost host).map (·.uri))
    (hu' : u ∉ new.map (·.uri)) : (s.replace host new).1.document? u = s.document? u := by
  rw [document?_replace, if_neg fun hc => hu (mem_closed.1 hc).1]
  exact Table.get?_insertAll_of_not_mem (map_uri_renew ho hn ▸ hu')

end Replace

/-! ## Calls -/

/-- A call that changes the documents of a host. -/
inductive Call where
  /-- Generates the documents of a host from its text. -/
  | text (host : Uri) (source : String)
  /-- Generates the documents of a host from its tree. -/
  | tree (host : Uri) (t : Tree)
  /-- Drops the documents of a host. -/
  | close (host : Uri)

/-- The host that a call is about. -/
def Call.host : Call → Uri
  | .text host _ | .tree host _ | .close host => host

/-- The documents that a call renders for its host. -/
def Call.documents (limit : Nat) : Call → List EmbeddedDocument
  | .text host source =>
    let t := (parse limit source).toOption.getD (.withoutRoot source)
    t.regions.map (.ofRegion host t.source)
  | .tree host t => t.regions.map (.ofRegion host t.source)
  | .close _ => []

theorem Call.documentsOf_documents (limit : Nat) (c : Call) :
    DocumentsOf c.host (c.documents limit) := by
  cases c with
  | text host source => exact documentsOf_regions host _
  | tree host t => exact documentsOf_regions host t
  | close host => exact .nil host

theorem Call.version_documents {limit : Nat} {c : Call} {d : EmbeddedDocument}
    (h : d ∈ c.documents limit) : d.version = 1 := by
  cases c with
  | text host source =>
    obtain ⟨r, -, rfl⟩ := List.mem_map.1 h
    rfl
  | tree host t =>
    obtain ⟨r, -, rfl⟩ := List.mem_map.1 h
    rfl
  | close host => cases h

/-- What a call does to the store, and what it tells; closing a host tells closed uris only. -/
def apply (limit : Nat) (s : Store) : Call → Store × Changes
  | .text host source => s.generateText limit host source
  | .tree host t => s.generate host t
  | .close host => ((s.close host).1, ⟨[], [], (s.close host).2⟩)

/-- Every call replaces the documents of its host. -/
theorem apply_eq_replace (limit : Nat) (s : Store) (c : Call) :
    s.apply limit c = s.replace c.host (c.documents limit) := by
  cases c with
  | text host source => rfl
  | tree host t => rfl
  | close host =>
    have hc : changes (s.ofHost host) [] = ⟨[], [], Uri.sort ((s.ofHost host).map (·.uri))⟩ := by
      simp [changes]
    simp only [apply, close, replace, Call.documents, Call.host, hc]
    rfl

/-- The store after calls on the empty one. -/
def run (limit : Nat) (calls : List Call) : Store :=
  calls.foldl (fun s c => (s.apply limit c).1) .empty

theorem run_concat (limit : Nat) (calls : List Call) (c : Call) :
    run limit (calls ++ [c]) = ((run limit calls).replace c.host (c.documents limit)).1 := by
  rw [run, List.foldl_append, ← apply_eq_replace]
  rfl

theorem documentsOf_run (limit : Nat) (calls : List Call) (h : Uri) :
    DocumentsOf h ((run limit calls).ofHost h) := by
  induction calls using List.reverseRecOn with
  | nil => exact .nil h
  | append_singleton calls c ih =>
    rw [run_concat, ofHost_replace]
    split
    · rename_i he
      subst he
      exact documentsOf_renew ih (c.documentsOf_documents limit)
    · exact ih

/-! ## Agreement of the two tables -/

/-- No two of some hosts have a synthetic uri in common. -/
def Apart (hosts : List Uri) : Prop :=
  ∀ h ∈ hosts, ∀ h' ∈ hosts, ∀ l l' i i', syntheticUri h l i = syntheticUri h' l' i' → h = h'

theorem Apart.mono {hosts hosts' : List Uri} (h : Apart hosts') (hs : hosts ⊆ hosts') : Apart hosts :=
  fun a ha b hb => h a (hs ha) b (hs hb)

/-- The tables of a store agree: a uri finds the document of some host that has this uri. -/
structure Consistent (hosts : List Uri) (s : Store) : Prop where
  documentsOf : ∀ h, DocumentsOf h (s.ofHost h)
  mem_hosts : ∀ h, s.ofHost h ≠ [] → h ∈ hosts
  document?_iff : ∀ u d, s.document? u = some d ↔ d.uri = u ∧ d ∈ s.ofHost d.host

namespace Consistent

variable {hosts : List Uri} {s : Store} {host : Uri} {new : List EmbeddedDocument}

/-- Documents with the same uri have the same host. -/
theorem host_eq_of_uri (hs : s.Consistent hosts) (ha : Apart hosts) (hh : host ∈ hosts)
    {ds : List EmbeddedDocument} (hds : DocumentsOf host ds) {d o : EmbeddedDocument} (hd : d ∈ ds)
    {h : Uri} (ho : o ∈ s.ofHost h) (hu : o.uri = d.uri) : h = host := by
  rw [(hs.documentsOf h).uri_eq o ho, hds.uri_eq d hd] at hu
  exact ha _ (hs.mem_hosts h (List.ne_nil_of_mem ho)) _ hh _ _ _ _ hu

/-- What a uri finds after a step is a document of its host. -/
theorem mem_of_document?_replace (hs : s.Consistent hosts) (hn : DocumentsOf host new) {u : Uri}
    {d : EmbeddedDocument} (hd : (s.replace host new).1.document? u = some d) :
    d.uri = u ∧ d ∈ (s.replace host new).1.ofHost d.host := by
  have ho := hs.documentsOf host
  have hr := documentsOf_renew ho hn
  by_cases hu : u ∈ new.map (·.uri)
  · rw [← map_uri_renew ho hn] at hu
    obtain ⟨e, he, rfl⟩ := List.mem_map.1 hu
    rw [document?_replace_of_mem ho hn he, Option.some.injEq] at hd
    subst hd
    rw [ofHost_replace, if_pos (hr.host_eq e he)]
    exact ⟨rfl, he⟩
  by_cases hu' : u ∈ (s.ofHost host).map (·.uri)
  · rw [document?_replace_of_closed hu' hu] at hd
    cases hd
  · rw [document?_replace_of_other ho hn hu' hu, hs.document?_iff] at hd
    rw [ofHost_replace, if_neg]
    · exact hd
    · rintro rfl
      exact hu' (List.mem_map.2 ⟨d, hd.2, hd.1⟩)

/-- A document of a host is found by its uri after a step. -/
theorem document?_replace_of_ofHost (hs : s.Consistent hosts) (ha : Apart hosts) (hh : host ∈ hosts)
    (hn : DocumentsOf host new) {d : EmbeddedDocument}
    (hd : d ∈ (s.replace host new).1.ofHost d.host) :
    (s.replace host new).1.document? d.uri = some d := by
  have ho := hs.documentsOf host
  rw [ofHost_replace] at hd
  split at hd
  · exact document?_replace_of_mem ho hn hd
  · rename_i hne
    -- A document of another host has a uri that no document of `host` has.
    have hother : ∀ ds, DocumentsOf host ds → d.uri ∉ ds.map (·.uri) := by
      intro ds hds hm
      obtain ⟨e, he, hu⟩ := List.mem_map.1 hm
      exact hne (hs.host_eq_of_uri ha hh hds he hd hu.symm)
    rw [document?_replace_of_other ho hn (hother _ ho) (hother _ hn), hs.document?_iff]
    exact ⟨rfl, hd⟩

theorem replace (hs : s.Consistent hosts) (ha : Apart hosts) (hh : host ∈ hosts)
    (hn : DocumentsOf host new) : (s.replace host new).1.Consistent hosts := by
  refine ⟨fun h => ?_, fun h hne => ?_, fun u d => ⟨mem_of_document?_replace hs hn, ?_⟩⟩
  · rw [ofHost_replace]
    split
    · rename_i he
      subst he
      exact documentsOf_renew (hs.documentsOf h) hn
    · exact hs.documentsOf h
  · rw [ofHost_replace] at hne
    split at hne
    · rename_i he
      exact he ▸ hh
    · exact hs.mem_hosts h hne
  · rintro ⟨rfl, hd⟩
    exact document?_replace_of_ofHost hs ha hh hn hd

end Consistent

/-- The tables agree after every run over hosts without synthetic uris in common. -/
theorem consistent_run {limit : Nat} {hosts : List Uri} (ha : Apart hosts) {calls : List Call}
    (hc : ∀ c ∈ calls, c.host ∈ hosts) : (run limit calls).Consistent hosts := by
  induction calls using List.reverseRecOn with
  | nil =>
    refine ⟨fun h => .nil h, fun h hne => absurd rfl hne, fun u d => ?_⟩
    refine ⟨fun h => ?_, fun h => ?_⟩
    · cases h
    · cases h.2
  | append_singleton calls c ih =>
    have hm : ∀ c' ∈ calls, c'.host ∈ hosts := fun c' h => hc c' (List.mem_append_left _ h)
    rw [run_concat]
    exact (ih hm).replace ha (hc c (by simp)) (c.documentsOf_documents limit)

end Store

end Recipe
