import Recipe.Proofs.Embedded.Rendering
import Recipe.Proofs.Embedded.Store

/-!
# Where stored mappings come from

A document that is rendered anew with the same text and range is not stored: the one from before
stays (`Store.exists_origin`). Its text and its range are those of the last rendering, and so is its
mapping on lines that are not blank; on a blank line it has what was stripped when the document was
stored (`Store.mapping_of_last_text`). Recipes that differ in the blanks of such lines only show that
this may be something else than what is stripped now (`Store.mapping_of_blank_lines`).
-/

namespace Recipe

namespace Store

/-! ## Origins -/

/-- A call renders the region of a document with the text and the range that the document has. -/
def Call.Keeps (limit : Nat) (c : Call) (d : EmbeddedDocument) : Prop :=
  ∃ n ∈ c.documents limit, n.uri = d.uri ∧ n.text = d.text ∧ n.range = d.range

/-- A document was stored by a call after others, in place of none or of one that differs from it in
text or range, and with all but its version as that call rendered it. -/
structure Origin (limit : Nat) (before : List Call) (c : Call) (d : EmbeddedDocument) : Prop where
  rendered : ∃ n ∈ c.documents limit, d = { n with version := d.version }
  differs : ∀ o ∈ (run limit before).ofHost c.host,
    o.uri = d.uri → ¬ (o.text = d.text ∧ o.range = d.range)

/-- A document of a host after a call is one that the call brought in, or one that was stored before
and that the call keeps. -/
theorem origin_of_mem_renew {limit : Nat} {calls : List Call} {c : Call} {d : EmbeddedDocument}
    (hd : d ∈ renew ((run limit calls).ofHost c.host) (c.documents limit)) :
    Origin limit calls c d ∨ d ∈ (run limit calls).ofHost c.host ∧ c.Keeps limit d := by
  obtain ⟨n, hn, rfl⟩ := List.mem_map.1 hd
  cases hp : previous? ((run limit calls).ofHost c.host) n with
  | none =>
    have hnew := previous?_eq_none.1 hp
    exact .inl ⟨⟨n, hn, rfl⟩, fun o ho hu => absurd (List.mem_map.2 ⟨o, ho, hu⟩) hnew⟩
  | some o =>
    obtain ⟨hom, hou⟩ := previous?_eq_some hp
    have hunique : ∀ o' ∈ (run limit calls).ofHost c.host, o'.uri = n.uri → o' = o :=
      fun o' ho' hu => (documentsOf_run limit calls c.host).eq_of_uri ho' hom (hu.trans hou.symm)
    rw [EmbeddedDocument.succeed]
    split
    · rename_i ht
      split
      · rename_i hr
        exact .inr ⟨hom, n, hn, hou.symm, ht.symm, hr.symm⟩
      · rename_i hr
        refine .inl ⟨⟨n, hn, rfl⟩, fun o' ho' hu hsame => hr ?_⟩
        rw [← hunique o' ho' hu]
        exact hsame.2
    · rename_i ht
      refine .inl ⟨⟨n, hn, rfl⟩, fun o' ho' hu hsame => ht ?_⟩
      rw [← hunique o' ho' hu]
      exact hsame.1

/-- Every stored document was stored by some call, and the calls on its host after it keep it. -/
theorem exists_origin {limit : Nat} {calls : List Call} {host : Uri} {d : EmbeddedDocument}
    (hd : d ∈ (run limit calls).ofHost host) :
    ∃ before c after, calls = before ++ c :: after ∧ c.host = host ∧ Origin limit before c d ∧
      ∀ c' ∈ after, c'.host = host → c'.Keeps limit d := by
  induction calls using List.reverseRecOn with
  | nil => cases hd
  | append_singleton calls c ih =>
    rw [run_concat, ofHost_replace] at hd
    have hextend : d ∈ (run limit calls).ofHost host → (c.host = host → c.Keeps limit d) →
        ∃ before c' after, calls ++ [c] = before ++ c' :: after ∧ c'.host = host ∧
          Origin limit before c' d ∧ ∀ c' ∈ after, c'.host = host → c'.Keeps limit d := by
      intro hold hkeeps
      obtain ⟨before, c', after, rfl, hhost, horigin, hafter⟩ := ih hold
      refine ⟨before, c', after ++ [c], by simp, hhost, horigin, fun b hb => ?_⟩
      rcases List.mem_append.1 hb with hb | hb
      · exact hafter b hb
      · rw [List.mem_singleton.1 hb]
        exact hkeeps
    split at hd
    · rename_i hhost
      subst hhost
      rcases origin_of_mem_renew hd with horigin | ⟨hold, hkeeps⟩
      · exact ⟨calls, c, [], rfl, rfl, horigin, fun _ h => nomatch h⟩
      · exact hextend hold fun _ => hkeeps
    · rename_i hhost
      exact hextend hd fun h => absurd h.symm hhost

/-! ## The last text of a host -/

/-- Whether a call generates documents from a text or drops them. -/
def Call.onText : Call → Bool
  | .tree _ _ => false
  | .text _ _ | .close _ => true

theorem regions_withoutRoot (source : String) : (Tree.withoutRoot source).regions = [] := by
  simp [Tree.regions, Tree.statements, Tree.withoutRoot, Candidate.dropNested, Candidate.number]

theorem documents_text {limit : Nat} {source : String} {t : Tree} (ht : parse limit source = .ok t)
    (host : Uri) : (Call.text host source).documents limit = t.regions.map (.ofRegion host source) := by
  have hs : t.source = source := by
    unfold parse at ht
    dsimp only at ht
    split at ht
    · cases ht
    · cases ht
      rfl
  rw [Call.documents, ht]
  simp only [Except.toOption, Option.getD_some, hs]

/-- A call on a text renders the regions of that text. -/
theorem Call.exists_region {limit : Nat} {c : Call} (hc : c.onText = true) {d : EmbeddedDocument}
    (hd : d ∈ c.documents limit) :
    ∃ source t r, c = .text c.host source ∧ parse limit source = .ok t ∧ r ∈ t.regions ∧
      d = .ofRegion c.host source r := by
  cases c with
  | text host source =>
    cases hp : parse limit source with
    | error e =>
      rw [documents, hp] at hd
      simp [Except.toOption, regions_withoutRoot] at hd
    | ok t =>
      rw [documents_text hp] at hd
      obtain ⟨r, hr, rfl⟩ := List.mem_map.1 hd
      exact ⟨source, t, r, rfl, hp, hr, rfl⟩
  | tree host t => cases hc
  | close host => cases hd

/-- Calls on other hosts leave the documents of a host. -/
theorem ofHost_run_append {limit : Nat} {host : Uri} {calls after : List Call}
    (h : ∀ c ∈ after, c.host ≠ host) :
    (run limit (calls ++ after)).ofHost host = (run limit calls).ofHost host := by
  induction after using List.reverseRecOn with
  | nil => rw [List.append_nil]
  | append_singleton after c ih =>
    rw [← List.append_assoc, run_concat, ofHost_replace, if_neg (h c (by simp)).symm]
    exact ih fun c' hc' => h c' (List.mem_append_left _ hc')

/-- The document of a region stands at its number among those of its language. -/
theorem getElem?_ofLanguage (calls : List Call) (host : Uri) {limit : Nat} {source : String}
    {t : Tree} (ht : parse limit source = .ok t) {r : Region} (hr : r ∈ t.regions) :
    ((run limit (calls ++ [.text host source])).ofLanguage host r.language)[r.index]?
      = some ((EmbeddedDocument.ofRegion host source r).succeed
          (previous? ((run limit calls).ofHost host) (.ofRegion host source r))) := by
  have hdocs := documents_text ht host
  have hn := (Call.text host source).documentsOf_documents limit
  have hl : ∀ r ∈ t.regions, ((EmbeddedDocument.ofRegion host source r).succeed
      (previous? ((run limit calls).ofHost host) (.ofRegion host source r))).language = r.language := by
    intro r hr
    rw [succeed_previous? (documentsOf_run limit calls host) hn (hdocs ▸ List.mem_map_of_mem hr)]
    rfl
  rw [ofLanguage, run_concat, ofHost_replace, Call.host, if_pos rfl, hdocs, renew, List.map_map,
    List.filter_map]
  have hfilter : t.regions.filter ((fun d : EmbeddedDocument => d.language == r.language) ∘
      ((fun d => d.succeed (previous? ((run limit calls).ofHost host) d)) ∘
        EmbeddedDocument.ofRegion host source)) = Region.ofLanguage t.regions r.language :=
    List.filter_congr fun s hs => by simp [hl s hs]
  rw [hfilter, List.getElem?_map, Tree.getElem?_regions hr]
  rfl

/-- A document has been stored since its host had the text `source`: it is the rendering of region
`r` of that text, took the place of none or of one that differs in text or range, and was kept by
all calls on the host since then. -/
def StoredSince (limit : Nat) (calls : List Call) (host : Uri) (source : String) (r : Region)
    (d : EmbeddedDocument) : Prop :=
  ∃ before after t, calls = before ++ .text host source :: after ∧
    parse limit source = .ok t ∧ r ∈ t.regions ∧
    d = { EmbeddedDocument.ofRegion host source r with version := d.version } ∧
    (∀ o ∈ (run limit before).ofHost host, o.uri = d.uri →
      ¬ (o.text = d.text ∧ o.range = d.range)) ∧
    ∀ c ∈ after, c.host = host → c.Keeps limit d

theorem exists_storedSince {limit : Nat} {calls : List Call} (hc : ∀ c ∈ calls, c.onText = true)
    {host : Uri} {d : EmbeddedDocument} (hd : d ∈ (run limit calls).ofHost host) :
    ∃ source r, StoredSince limit calls host source r d := by
  obtain ⟨before, c, after, rfl, rfl, ⟨⟨n, hn, hdn⟩, hdiffers⟩, hkeeps⟩ := exists_origin hd
  obtain ⟨source, t, r, hcall, ht, hr, rfl⟩ := Call.exists_region (hc c (by simp)) hn
  exact ⟨source, r, before, after, t, by rw [← hcall], ht, hr, hdn, hdiffers, hkeeps⟩

/-- Text and range of a stored document are those of the last text of its host, and so is its
mapping on lines that are not blank. As a whole its mapping is that of the text since which it has
been stored: it is up to date if and only if as much is stripped off the blank lines of both
texts. -/
theorem mapping_of_last_text {limit : Nat} {before after : List Call} {host : Uri}
    {source : String} {t : Tree} {r : Region} (hbefore : ∀ c ∈ before, c.onText = true)
    (hafter : ∀ c ∈ after, c.host ≠ host) (ht : parse limit source = .ok t) (hr : r ∈ t.regions) :
    ∃ d source' r',
      ((run limit (before ++ .text host source :: after)).ofLanguage host r.language)[r.index]?
        = some d ∧
      d.language = r.language ∧ d.index = r.index ∧ d.text = (r.render source).text ∧
      d.range = r.range ∧ d.mapping.start = (r.render source).mapping.start ∧
      (∀ i, Text.isBlankLine d.text.toList i = false →
        d.mapping.stripped[i]? = (r.render source).mapping.stripped[i]?) ∧
      StoredSince limit (before ++ [.text host source]) host source' r' d ∧
      (d.mapping = (r.render source).mapping ↔
        ∀ i, Text.isBlankLine d.text.toList i = true →
          (r'.render source').mapping.stripped[i]? = (r.render source).mapping.stripped[i]?) := by
  have hstored := getElem?_ofLanguage before host ht hr
  have hn := (Call.text host source).documentsOf_documents limit
  have heq := succeed_previous? (documentsOf_run limit before host) hn
    (documents_text ht host ▸ List.mem_map_of_mem hr)
  generalize (EmbeddedDocument.ofRegion host source r).succeed _ = d at hstored heq
  have htext : d.text = (r.render source).text := congrArg (·.text) heq
  have hrange : d.range = r.range := congrArg (·.range) heq
  have hmem := (List.mem_filter.1 (List.mem_of_getElem? hstored)).1
  have hcalls : ∀ c ∈ before ++ [.text host source], c.onText = true := by
    intro c hc
    rcases List.mem_append.1 hc with hc | hc
    · exact hbefore c hc
    · rw [List.mem_singleton.1 hc]
      rfl
  obtain ⟨source', r', hsince⟩ := exists_storedSince hcalls hmem
  have hsame : (run limit (before ++ .text host source :: after)).ofLanguage host r.language
      = (run limit (before ++ [.text host source])).ofLanguage host r.language := by
    rw [List.append_cons, ofLanguage, ofLanguage, ofHost_run_append hafter]
  have ⟨_, _, _, _, ht', hr', hd, _⟩ := hsince
  have htext' : d.text = (r'.render source').text := congrArg (·.text) hd
  have hmapping : d.mapping = (r'.render source').mapping := congrArg (·.mapping) hd
  have hrange' : d.range = r'.range := congrArg (·.range) hd
  obtain ⟨hstart, hlines⟩ := Region.mapping_agrees (placed_of_mem_regions ht' hr')
    (placed_of_mem_regions ht hr) (hrange'.symm.trans hrange) (htext'.symm.trans htext)
  rw [← hmapping, ← htext'] at hlines
  rw [← hmapping] at hstart
  refine ⟨d, source', r', by rw [hsame, hstored], congrArg (·.language) heq,
    congrArg (·.index) heq, htext, hrange, hstart, hlines, hsince, fun he i _ => ?_, fun hb => ?_⟩
  · rw [← hmapping, he]
  · have hstripped : d.mapping.stripped = (r.render source).mapping.stripped := by
      refine List.ext_getElem? fun i => ?_
      cases hi : Text.isBlankLine d.text.toList i with
      | true =>
        rw [hmapping]
        exact hb i hi
      | false => exact hlines i hi
    show Mapping.mk d.mapping.start d.mapping.stripped = (r.render source).mapping
    rw [hstart, hstripped]

/-! ## Blank lines -/

/-- A python task with a line of one blank after an empty line. -/
def emptyThenBlank : String :=
  "python f() \x7b\n  a\n\n \n  b\n\x7d\n"

/-- The same task with these two lines the other way round. -/
def blankThenEmpty : String :=
  "python f() \x7b\n  a\n \n\n  b\n\x7d\n"

/-- The only region of the task. -/
def taskRegion : Region :=
  ⟨.python, ⟨⟨15, 23⟩, ⟨1, 2⟩, ⟨4, 3⟩⟩, 0, true⟩

theorem mapping_of_last_text_blankThenEmpty :
    (∀ c ∈ [Call.text ⟨"file:///a.bb"⟩ emptyThenBlank], c.onText = true) ∧
    (∀ c ∈ [Call.close ⟨"file:///b.bb"⟩], c.host ≠ ⟨"file:///a.bb"⟩) ∧
    parse 64 blankThenEmpty = .ok ⟨blankThenEmpty, some (rootNode blankThenEmpty.toList)⟩ ∧
    taskRegion ∈ (Tree.mk blankThenEmpty (some (rootNode blankThenEmpty.toList))).regions ∧
    ∃ d source' r',
      ((run 64 ([.text ⟨"file:///a.bb"⟩ emptyThenBlank] ++ .text ⟨"file:///a.bb"⟩ blankThenEmpty ::
        [.close ⟨"file:///b.bb"⟩])).ofLanguage ⟨"file:///a.bb"⟩ .python)[0]? = some d ∧
      d.language = .python ∧ d.index = 0 ∧ d.text = (taskRegion.render blankThenEmpty).text ∧
      d.range = taskRegion.range ∧
      d.mapping.start = (taskRegion.render blankThenEmpty).mapping.start ∧
      (∀ i, Text.isBlankLine d.text.toList i = false →
        d.mapping.stripped[i]? = (taskRegion.render blankThenEmpty).mapping.stripped[i]?) ∧
      StoredSince 64 ([.text ⟨"file:///a.bb"⟩ emptyThenBlank] ++ [.text ⟨"file:///a.bb"⟩ blankThenEmpty])
        ⟨"file:///a.bb"⟩ source' r' d ∧
      (d.mapping = (taskRegion.render blankThenEmpty).mapping ↔
        ∀ i, Text.isBlankLine d.text.toList i = true →
          (r'.render source').mapping.stripped[i]?
            = (taskRegion.render blankThenEmpty).mapping.stripped[i]?) := by
  have hbefore : ∀ c ∈ [Call.text ⟨"file:///a.bb"⟩ emptyThenBlank], c.onText = true := by
    simp [Call.onText]
  have hafter : ∀ c ∈ [Call.close ⟨"file:///b.bb"⟩], c.host ≠ ⟨"file:///a.bb"⟩ := by
    simp [Call.host]
  have ht : parse 64 blankThenEmpty
      = .ok ⟨blankThenEmpty, some (rootNode blankThenEmpty.toList)⟩ := parse_eq_ok (by decide)
  have hr : taskRegion ∈ (Tree.mk blankThenEmpty (some (rootNode blankThenEmpty.toList))).regions := by
    decide +kernel
  exact ⟨hbefore, hafter, ht, hr, mapping_of_last_text hbefore hafter ht hr⟩

/-- The two tasks have the same rendering, so the mapping of the first stays when the second takes
its place, though it is out of date on both lines. -/
theorem mapping_of_blank_lines :
    ((run 64 [.text ⟨"file:///a.bb"⟩ emptyThenBlank, .text ⟨"file:///a.bb"⟩ blankThenEmpty]).ofLanguage
        ⟨"file:///a.bb"⟩ .python).map (fun d => (d.text, d.range, d.mapping.stripped))
      = [("a\n\n\nb", taskRegion.range, [2, 0, 1, 2])] ∧
    (taskRegion.render blankThenEmpty).text = "a\n\n\nb" ∧
    (taskRegion.render blankThenEmpty).mapping.stripped = [2, 1, 0, 2] := by
  decide +kernel

end Store

end Recipe
