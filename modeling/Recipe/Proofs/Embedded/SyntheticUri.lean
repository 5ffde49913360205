import Recipe.Embedded.SyntheticUri

/-!
# The synthetic uris of one host

The documents of a host have different uris (`syntheticUri_inj`): the authority tells the language,
and the number of the region stands at the end of the path, where resolving the path leaves it as it
is written.
-/

namespace Recipe

/-! ## Paths -/

/-- Text without separators at the end of a text belongs to its last part. -/
theorem Text.splitBy_append (sep : Char → Bool) (cs : List Char) :
    ∃ front last, ∀ ds : List Char, ds.all (!sep ·) = true →
      Text.splitBy sep (cs ++ ds) = front ++ [last ++ ds] := by
  induction cs with
  | nil =>
    refine ⟨[], [], fun ds hd => ?_⟩
    induction ds with
    | nil => rfl
    | cons d ds ih =>
      rw [List.all_cons, Bool.and_eq_true, Bool.not_eq_true'] at hd
      have hs := ih hd.2
      simp only [List.nil_append] at hs ⊢
      rw [splitBy, hd.1, if_neg Bool.false_ne_true, hs]
      rfl
  | cons c cs ih =>
    obtain ⟨front, last, h⟩ := ih
    by_cases hc : sep c = true
    · refine ⟨[] :: front, last, fun ds hd => ?_⟩
      rw [List.cons_append, splitBy, if_pos hc, h ds hd, List.cons_append]
    · cases front with
      | nil =>
        refine ⟨[], c :: last, fun ds hd => ?_⟩
        rw [List.cons_append, splitBy, if_neg hc, h ds hd]
        rfl
      | cons f front =>
        refine ⟨(c :: f) :: front, last, fun ds hd => ?_⟩
        rw [List.cons_append, splitBy, if_neg hc, h ds hd]
        rfl

namespace Percent

theorem encode_append (escaped : Char → Bool) (cs ds : List Char) :
    encode escaped (cs ++ ds) = encode escaped cs ++ encode escaped ds :=
  List.flatMap_append

/-- A text that needs no escapes is written as it is. -/
theorem encode_eq_self {escaped : Char → Bool} {cs : List Char}
    (h : cs.all (fun c => Text.isAscii c && !escaped c) = true) : encode escaped cs = cs := by
  induction cs with
  | nil => rfl
  | cons c cs ih =>
    rw [List.all_cons, Bool.and_eq_true] at h
    rw [encode, List.flatMap_cons, if_pos h.1]
    exact congrArg (c :: ·) (ih h.2)

end Percent

namespace UriPath

/-- A segment of dots ends with a dot, as it is or escaped. -/
theorem getLast?_of_dots? {cs : List Char} {n : Nat} (h : dots? cs = some n) {c : Char}
    (hc : cs.getLast? = some c) : c = '.' ∨ c = 'e' ∨ c = 'E' := by
  fun_induction dots? cs generalizing n with
  | case1 => cases hc
  | case2 cs ih =>
    obtain ⟨m, hm, -⟩ := Option.map_eq_some_iff.1 h
    cases hl : cs.getLast? with
    | none => simp_all [eq_comm]
    | some d => exact ih hm (by simpa [List.getLast?_cons, hl] using hc)
  | case3 cs ih =>
    obtain ⟨m, hm, -⟩ := Option.map_eq_some_iff.1 h
    cases hl : cs.getLast? with
    | none => simp_all [eq_comm]
    | some d => exact ih hm (by simpa [List.getLast?_cons, hl] using hc)
  | case4 cs ih =>
    obtain ⟨m, hm, -⟩ := Option.map_eq_some_iff.1 h
    cases hl : cs.getLast? with
    | none => simp_all [eq_comm]
    | some d => exact ih hm (by simpa [List.getLast?_cons, hl] using hc)
  | case5 => cases h

/-- The last segment of a path stays where it is, unless it is made of dots. -/
theorem resolve_append (segments done : List (List Char)) :
    ∃ front, ∀ last, dots? last = none → resolve false done (segments ++ [last]) = front ++ [last] := by
  induction segments generalizing done with
  | nil =>
    refine ⟨done.reverse, fun last hl => ?_⟩
    simp [resolve, isHere, isAbove, hl]
  | cons segment segments ih =>
    by_cases h₁ : isHere segment = true
    · obtain ⟨front, h⟩ := ih done
      refine ⟨front, fun last hl => ?_⟩
      rw [List.cons_append, resolve, if_pos h₁, ← h last hl]
      simp
    by_cases h₂ : isAbove segment = true
    · obtain ⟨front, h⟩ := ih (up done)
      refine ⟨front, fun last hl => ?_⟩
      rw [List.cons_append, resolve, if_neg h₁, if_pos h₂, ← h last hl]
      simp
    · obtain ⟨front, h⟩ := ih (segment :: done)
      refine ⟨front, fun last hl => ?_⟩
      rw [List.cons_append, resolve, if_neg h₁, if_neg h₂, ← h last hl]
      rfl

/-- Text at the end of a path stays as it is, if it needs no escapes and does not look like dots. -/
theorem normal_append (isSlash : Char → Bool) (cs : List Char) :
    ∃ front, ∀ ds : List Char, ds.all (!isSlash ·) = true →
      ds.all (fun c => Text.isAscii c && !Percent.inPath c) = true →
      (∀ cs, dots? (cs ++ ds) = none) → normal isSlash (cs ++ ds) = front ++ ds := by
  obtain ⟨front, last, hs⟩ := Text.splitBy_append isSlash cs
  obtain ⟨segments, hr⟩ := resolve_append (front.map (Percent.encode Percent.inPath)) []
  refine ⟨text segments ++ '/' :: Percent.encode Percent.inPath last, fun ds h₁ h₂ h₃ => ?_⟩
  rw [normal, UriPath.segments, hs ds h₁, List.map_append, List.map_singleton, Percent.encode_append,
    Percent.encode_eq_self h₂, hr _ (h₃ _), text, List.flatMap_append]
  simp [text]

end UriPath

/-! ## Uris -/

/-- What the path of the uri of a region ends with. -/
def regionSuffix (language : Language) (index : Nat) : List Char :=
  '.' :: (Nat.toDigits 10 index ++ '.' :: language.extension.toList)

theorem mem_digits_of_isDigit {c : Char} (h : c.isDigit = true) : c ∈ "0123456789".toList := by
  have hn : ∀ n < 58, 48 ≤ n → Char.ofNat n ∈ "0123456789".toList := by decide
  have hc : 48 ≤ c.toNat ∧ c.toNat ≤ 57 := by
    simpa [Char.isDigit, UInt32.le_iff_toNat_le] using h
  simpa using hn c.toNat (by omega) hc.1

theorem all_regionSuffix {p : Char → Bool} (h : "0123456789.shpy".toList.all p = true)
    (language : Language) (index : Nat) : (regionSuffix language index).all p = true := by
  rw [List.all_eq_true] at h ⊢
  intro c hc
  rw [regionSuffix, List.mem_cons, List.mem_append, List.mem_cons] at hc
  rcases hc with rfl | hc | rfl | hc
  · exact h _ (by decide)
  · have hd := mem_digits_of_isDigit (Nat.isDigit_of_mem_toDigits (by decide) (by decide) hc)
    exact h c (List.mem_append_left ".shpy".toList hd)
  · exact h _ (by decide)
  · have hl : ∀ l : Language, l.extension.toList ⊆ "0123456789.shpy".toList := by
      intro l
      cases l <;> decide
    exact h c (hl language hc)

/-- The suffix of a region keeps its segment from being made of dots. -/
theorem dots?_append_regionSuffix (cs : List Char) (language : Language) (index : Nat) :
    UriPath.dots? (cs ++ regionSuffix language index) = none := by
  have hl : ∃ c, language.extension.toList.getLast? = some c ∧ ¬ (c = '.' ∨ c = 'e' ∨ c = 'E') := by
    cases language
    · exact ⟨'h', by decide, by decide⟩
    · exact ⟨'y', by decide, by decide⟩
  obtain ⟨c, hc, hne⟩ := hl
  cases hd : UriPath.dots? (cs ++ regionSuffix language index) with
  | none => rfl
  | some n =>
    refine absurd (UriPath.getLast?_of_dots? hd (c := c) ?_) hne
    simp [regionSuffix, List.getLast?_append, List.getLast?_cons, hc]

theorem regionSuffix_inj {language : Language} {i j : Nat}
    (h : regionSuffix language i = regionSuffix language j) : i = j := by
  rw [regionSuffix, regionSuffix, List.cons.injEq] at h
  have hd := congrArg (Nat.ofDigitChars 10 · 0) (List.append_cancel_right h.2)
  simpa only [Nat.ofDigitChars_toDigits (b := 10) (by decide) (by decide)] using hd

/-- The path of the uri of a region ends with its suffix. -/
theorem UriParts.path_synthetic (host : UriParts) :
    ∃ front, ∀ language index,
      (host.synthetic language index).path.toList = front ++ regionSuffix language index := by
  obtain ⟨front, h⟩ := UriPath.normal_append SchemeKind.general.isSlash
    (host.schemeSegment ++ "/" ++ host.authority?.getD "" ++ host.rootedPath).toList
  refine ⟨front, fun language index => ?_⟩
  have hp : (host.syntheticPath language index).toList
      = (host.schemeSegment ++ "/" ++ host.authority?.getD "" ++ host.rootedPath).toList
        ++ regionSuffix language index := by
    simp [syntheticPath, regionSuffix]
  rw [synthetic, String.toList_ofList, hp]
  exact h _ (all_regionSuffix (by decide) ..) (all_regionSuffix (by decide) ..)
    (dots?_append_regionSuffix · language index)

/-- The regions of one host have different uris. -/
theorem syntheticUri_inj {host : Uri} {l m : Language} {i j : Nat}
    (h : syntheticUri host l i = syntheticUri host m j) : l = m ∧ i = j := by
  obtain ⟨front, hp⟩ := host.parts.path_synthetic
  have ht : ∀ l i, (syntheticUri host l i).text.toList = "bitbake-embedded://".toList
      ++ (l.label.toList ++ (front ++ regionSuffix l i)
        ++ ((UriParts.marked "?" host.parts.query?).toList
          ++ (UriParts.marked "#" host.parts.fragment?).toList)) := by
    intro l i
    simp only [syntheticUri, UriParts.text, String.toList_append, hp]
    simp [UriParts.synthetic, UriParts.marked, UriParts.guard, syntheticScheme]
  have hc := congrArg (·.text.toList) h
  simp only [ht, List.append_cancel_left_eq, List.append_cancel_right_eq] at hc
  have hl : l = m := by
    cases l <;> cases m
    case shell.shell | python.python => rfl
    all_goals simp [Language.label] at hc
  subst hl
  rw [List.append_cancel_left_eq, List.append_cancel_left_eq] at hc
  exact ⟨rfl, regionSuffix_inj hc⟩

end Recipe
