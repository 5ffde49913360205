import Recipe.Proofs.Embedded.Origin
import Recipe.Proofs.Embedded.Router

/-!
# What a store lists

All of a stored document but its version and its mapping is a matter of the last call on its host
(`Store.entries_run`): the past of the store can only be seen in those two. So the documents of a host
are listed as the last text of the host has its regions, and the table of all documents holds just what
is listed (`Store.lists_lastText`).
-/

namespace Recipe

/-! ## Entries -/

/-- What a host lists of a document: all but its version and its mapping. -/
structure Entry where
  uri : Uri
  language : Language
  host : Uri
  index : Nat
  text : String
  range : Range
deriving DecidableEq, Repr

/-- The entry of a document. -/
def EmbeddedDocument.entry (d : EmbeddedDocument) : Entry :=
  ⟨d.uri, d.language, d.host, d.index, d.text, d.range⟩

/-- The entry of a region of a host that has the text `source`. -/
def Region.entry (host : Uri) (source : String) (r : Region) : Entry :=
  ⟨syntheticUri host r.language r.index, r.language, host, r.index, (r.render source).text, r.range⟩

/-- The regions of a text; a text above the limit has none. -/
def Region.ofText (limit : Nat) (source : String) : List Region :=
  match parse limit source with
  | .ok t => t.regions
  | .error _ => []

namespace Store

variable {limit : Nat}

/-- The entries of the documents that a call renders. -/
def Call.entries (limit : Nat) (c : Call) : List Entry :=
  (c.documents limit).map (·.entry)

theorem Call.entries_text (limit : Nat) (host : Uri) (source : String) :
    (Call.text host source).entries limit = (Region.ofText limit source).map (Region.entry host source) := by
  unfold entries Region.ofText
  cases hp : parse limit source with
  | error e =>
    rw [documents, hp]
    simp [Except.toOption, regions_withoutRoot]
  | ok t =>
    rw [documents_text hp, List.map_map]
    rfl

/-- The entries of renewed documents are those of the new ones, whatever documents were stored
before. -/
theorem map_entry_renew {host : Uri} {old new : List EmbeddedDocument} (ho : DocumentsOf host old)
    (hn : DocumentsOf host new) : (renew old new).map (·.entry) = new.map (·.entry) := by
  rw [renew, List.map_map, List.map_inj_left]
  intro d hd
  exact congrArg (·.entry) (succeed_previous? ho hn hd)

/-- The last call on a host. -/
def lastCall? (calls : List Call) (host : Uri) : Option Call :=
  (calls.filter (·.host = host)).getLast?

theorem lastCall?_append (calls calls' : List Call) (host : Uri) :
    lastCall? (calls ++ calls') host = (lastCall? calls' host).or (lastCall? calls host) := by
  rw [lastCall?, List.filter_append, List.getLast?_append]
  rfl

theorem lastCall?_concat (calls : List Call) (c : Call) (host : Uri) :
    lastCall? (calls ++ [c]) host = if c.host = host then some c else lastCall? calls host := by
  rw [lastCall?_append, lastCall?, List.filter_singleton]
  split
  · rename_i h
    simp [h]
  · rename_i h
    simp [h]

/-- The entries of a host are those of the last call on it. -/
theorem entries_run (limit : Nat) (calls : List Call) (host : Uri) :
    ((run limit calls).ofHost host).map (·.entry)
      = ((lastCall? calls host).map (Call.entries limit)).getD [] := by
  induction calls using List.reverseRecOn with
  | nil => rfl
  | append_singleton calls c ih =>
    rw [run_concat, ofHost_replace, lastCall?_concat]
    by_cases h : c.host = host
    · subst h
      rw [if_pos rfl, if_pos rfl,
        map_entry_renew (documentsOf_run limit calls c.host) (c.documentsOf_documents limit)]
      rfl
    · rw [if_neg (Ne.symm h), if_neg h, ih]

/-! ## Languages -/

theorem mem_ofLanguage {s : Store} {host : Uri} {l : Language} {d : EmbeddedDocument} :
    d ∈ s.ofLanguage host l ↔ d ∈ s.ofHost host ∧ d.language = l := by
  rw [ofLanguage, List.mem_filter, beq_iff_eq]

theorem map_entry_ofLanguage (s : Store) (host : Uri) (l : Language) :
    (s.ofLanguage host l).map (·.entry)
      = ((s.ofHost host).map (·.entry)).filter (·.language == l) := by
  rw [ofLanguage, List.filter_map]
  rfl

theorem filter_entry (host : Uri) (source : String) (rs : List Region) (l : Language) :
    (rs.map (Region.entry host source)).filter (·.language == l)
      = (Region.ofLanguage rs l).map (Region.entry host source) := by
  rw [Region.ofLanguage, List.filter_map]
  rfl

/-- What a host whose last call was `last?` lists in a language. -/
def listed (limit : Nat) (host : Uri) (l : Language) (last? : Option Call) : List Entry :=
  match last? with
  | some (.text _ source) =>
    (Region.ofLanguage (Region.ofText limit source) l).map (Region.entry host source)
  | _ => []

/-- The regions of a language are listed with the numbers from zero on. -/
theorem index_listed (limit : Nat) (host : Uri) (l : Language) (last? : Option Call) :
    (listed limit host l last?).map (·.index) = List.range (listed limit host l last?).length := by
  unfold listed
  split
  · rw [List.map_map, List.length_map, Region.ofText]
    split
    · exact Tree.index_regions _ l
    · rfl
  · rfl

/-- A host lists what its last text says. -/
theorem map_entry_run {calls : List Call} (hc : ∀ c ∈ calls, c.onText = true) (host : Uri)
    (l : Language) : ((run limit calls).ofLanguage host l).map (·.entry)
      = listed limit host l (lastCall? calls host) := by
  rw [map_entry_ofLanguage, entries_run]
  cases hlast : lastCall? calls host with
  | none => rfl
  | some c =>
    obtain ⟨hm, hhost⟩ := List.mem_filter.1 (List.mem_of_getLast? hlast)
    cases c with
    | text host' source =>
      obtain rfl : host' = host := of_decide_eq_true hhost
      rw [Option.map_some, Option.getD_some, Call.entries_text, filter_entry]
      rfl
    | tree host' t => cases hc _ hm
    | close host' => rfl

/-! ## Tables -/

/-- The table of all documents is the disjoint union of what the hosts list. -/
structure IsUnion (s : Store) : Prop where
  document?_iff : ∀ u d, s.document? u = some d ↔ d ∈ s.ofLanguage d.host d.language ∧ d.uri = u
  /-- A document is listed under its own host and language only. -/
  own : ∀ host l, ∀ d ∈ s.ofLanguage host l, d.host = host ∧ d.language = l
  /-- A document is listed once. -/
  nodup : ∀ host l, ((s.ofLanguage host l).map (·.uri)).Nodup

theorem Consistent.isUnion {hosts : List Uri} {s : Store} (hs : s.Consistent hosts) : s.IsUnion := by
  refine ⟨fun u d => ?_, fun host l d hd => ?_, fun host l => ?_⟩
  · rw [hs.document?_iff, mem_ofLanguage, and_comm]
    simp
  · obtain ⟨hd, hl⟩ := mem_ofLanguage.1 hd
    exact ⟨(hs.documentsOf host).host_eq d hd, hl⟩
  · exact (hs.documentsOf host).nodup.sublist (List.filter_sublist.map _)

/-- A step for one host leaves the documents of all others. -/
theorem Consistent.document?_replace_iff {hosts : List Uri} {s : Store} (hs : s.Consistent hosts)
    (ha : Apart hosts) {host : Uri} (hh : host ∈ hosts) {new : List EmbeddedDocument}
    (hn : DocumentsOf host new) (u : Uri) {d : EmbeddedDocument} (hd : d.host ≠ host) :
    (s.replace host new).1.document? u = some d ↔ s.document? u = some d := by
  rw [(hs.replace ha hh hn).document?_iff, hs.document?_iff, ofHost_replace, if_neg hd]

/-- After calls over hosts without synthetic uris in common, the table of all documents is the disjoint
union of what the hosts list. A host lists the regions of its last text in their order, numbered from
zero in each language, and nothing if it was closed since or its text was refused. A call on one host
leaves all documents of the others as they are. -/
theorem lists_lastText {calls : List Call} (hc : ∀ c ∈ calls, c.onText = true)
    (ha : Apart (calls.map Call.host)) :
    (run limit calls).IsUnion ∧
    (∀ host l,
      ((run limit calls).ofLanguage host l).map (·.entry) = listed limit host l (lastCall? calls host) ∧
      ((run limit calls).ofLanguage host l).map (·.index)
        = List.range ((run limit calls).ofLanguage host l).length) ∧
    ∀ before c after, calls = before ++ c :: after → ∀ host, host ≠ c.host →
      ((run limit before).apply limit c).1.ofHost host = (run limit before).ofHost host ∧
      ∀ u d, d.host = host → (((run limit before).apply limit c).1.document? u = some d ↔
        (run limit before).document? u = some d) := by
  have hmem : ∀ c ∈ calls, c.host ∈ calls.map Call.host := fun c hc => List.mem_map_of_mem hc
  refine ⟨(consistent_run ha hmem).isUnion, fun host l => ⟨map_entry_run hc host l, ?_⟩, ?_⟩
  · have hindex := index_listed limit host l (lastCall? calls host)
    rw [← map_entry_run hc, List.map_map, List.length_map] at hindex
    exact hindex
  · rintro before c after rfl host hne
    have hs : (run limit before).Consistent ((before ++ c :: after).map Call.host) :=
      consistent_run ha fun c' h => hmem c' (List.mem_append_left _ h)
    have hn := c.documentsOf_documents limit
    rw [apply_eq_replace]
    refine ⟨by rw [ofHost_replace, if_neg hne], fun u d hd => ?_⟩
    exact hs.document?_replace_iff ha (hmem c (by simp)) hn u (hd ▸ hne)

theorem lists_lastText_revisions :
    (∀ c ∈ revisionCalls, c.onText = true) ∧ Apart (revisionCalls.map Call.host) ∧
    (run 64 revisionCalls).IsUnion ∧
    (∀ host l,
      ((run 64 revisionCalls).ofLanguage host l).map (·.entry)
        = listed 64 host l (lastCall? revisionCalls host) ∧
      ((run 64 revisionCalls).ofLanguage host l).map (·.index)
        = List.range ((run 64 revisionCalls).ofLanguage host l).length) ∧
    ∀ before c after, revisionCalls = before ++ c :: after → ∀ host, host ≠ c.host →
      ((run 64 before).apply 64 c).1.ofHost host = (run 64 before).ofHost host ∧
      ∀ u d, d.host = host → (((run 64 before).apply 64 c).1.document? u = some d ↔
        (run 64 before).document? u = some d) := by
  have hc : ∀ c ∈ revisionCalls, c.onText = true := by simp [revisionCalls, Call.onText]
  have ha := apart_revisions.mono (by decide : revisionCalls.map Call.host ⊆ revisions)
  exact ⟨hc, ha, lists_lastText hc ha⟩

end Store

end Recipe
