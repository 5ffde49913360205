import Recipe.Proofs.Uri.Laws

/-!
# The synthetic uris of different hosts

The path of a synthetic uri spells its host: scheme, authority and path stand one after the other,
and what each is can be read back. Two things cannot be told apart: a missing authority from an empty
one, and an empty path from a slash. If paths are written as they are, these are the only hosts that
share a uri (`syntheticUri_eq_iff`), and there are such hosts (`syntheticUri_shared`). The argument needs
no more of uris than `UriLaws` states (`UriLaws.name_eq_iff`).
-/

namespace Recipe

attribute [ext] UriParts Uri

namespace UriParts

/-- The parts with an empty authority in place of a missing one and a slash in place of an empty
path. An opaque uri stays as it is. -/
def filled (u : UriParts) : UriParts :=
  if u.isOpaque then u
  else { u with authority? := some (u.authority?.getD ""), path := u.rootedPath }

/-- The path of the uri of a region is written as it is: nothing in it is escaped or resolved. -/
def KeepsPath (host : UriParts) (language : Language) (index : Nat) : Prop :=
  (host.synthetic language index).path = "/" ++ host.syntheticPath language index

instance (host : UriParts) (language : Language) (index : Nat) :
    Decidable (host.KeepsPath language index) :=
  inferInstanceAs (Decidable (_ = _))

/-! ## Reading a path back -/

theorem toList_syntheticPath (host : UriParts) (language : Language) (index : Nat) :
    (host.syntheticPath language index).toList
      = host.schemeSegment.toList ++ ('/' :: ((host.authority?.getD "").toList
        ++ (host.rootedPath.toList ++ regionSuffix language index))) := by
  simp [syntheticPath, regionSuffix]

theorem head?_rootedPath (host : UriParts) : host.rootedPath.toList.head? = some '/' := by
  unfold rootedPath
  split
  · assumption
  · simp

theorem all_authority {u : UriParts} (hu : u.Delimited) :
    (u.authority?.getD "").toList.all (! ['/', '?', '#'].contains ·) = true := by
  cases ha : u.authority? with
  | none => rfl
  | some a => exact hu.authority a ha

/-- A character that schemes may have differs from one that they may not have. -/
theorem ne_of_isSchemeChar {c d : Char} (hc : isSchemeChar c = true) (hd : isSchemeChar d = false) :
    c ≠ d := by
  rintro rfl
  rw [hc] at hd
  cases hd

theorem all_schemeSegment {u : UriParts} (hu : u.Delimited) :
    u.schemeSegment.toList.all (! ['/', '?', '#'].contains ·) = true := by
  have hscheme : u.scheme.toList.all (! ['/', '?', '#'].contains ·) = true := by
    refine List.all_eq_true.2 fun c hc => ?_
    have hs := List.all_eq_true.1 hu.scheme c hc
    have h₁ := ne_of_isSchemeChar (d := '/') hs (by decide)
    have h₂ := ne_of_isSchemeChar (d := '?') hs (by decide)
    have h₃ := ne_of_isSchemeChar (d := '#') hs (by decide)
    simp [h₁, h₂, h₃]
  unfold schemeSegment
  split
  · rw [String.toList_append, List.all_append, hscheme]
    rfl
  · exact hscheme

/-- The first segment of a synthetic uri tells the scheme of its host and whether the host is
opaque, since no scheme has a colon in it. -/
theorem schemeSegment_inj {u v : UriParts} (hu : u.Delimited) (hv : v.Delimited)
    (h : u.schemeSegment = v.schemeSegment) : u.scheme = v.scheme ∧ u.isOpaque = v.isOpaque := by
  have hsegment : ∀ w : UriParts, w.schemeSegment.toList
      = w.scheme.toList ++ (if w.isOpaque then [':'] else []) := by
    intro w
    unfold schemeSegment
    split <;> simp_all
  have hhead : ∀ b : Bool, (if b then [':'] else ([] : List Char)).head?.any isSchemeChar = false := by
    decide
  have ht := congrArg String.toList h
  rw [hsegment, hsegment] at ht
  obtain ⟨hs, ho⟩ := Text.append_inj_of_head? hu.scheme (hhead _) hv.scheme (hhead _) ht
  refine ⟨String.toList_inj.1 hs, ?_⟩
  revert ho
  cases u.isOpaque <;> cases v.isOpaque <;> simp

/-- A path with the suffix of a region tells the path and the ordinal of the region: the digits of
the ordinal stand between the last two dots. -/
theorem append_regionSuffix_inj {cs ds : List Char} {language : Language} {i j : Nat}
    (h : cs ++ regionSuffix language i = ds ++ regionSuffix language j) : cs = ds ∧ i = j := by
  have hdigits : ∀ i, (Nat.toDigits 10 i).reverse.all Char.isDigit = true := fun i =>
    List.all_eq_true.2 fun c hc =>
      Nat.isDigit_of_mem_toDigits (by decide) (by decide) (List.mem_reverse.1 hc)
  have hsplit : ∀ (cs : List Char) (i : Nat), (cs ++ regionSuffix language i).reverse
      = ('.' :: language.extension.toList).reverse
        ++ ((Nat.toDigits 10 i).reverse ++ ('.' :: cs.reverse)) := by
    intro cs i
    simp [regionSuffix]
  have hr := congrArg List.reverse h
  rw [hsplit, hsplit, List.append_cancel_left_eq] at hr
  obtain ⟨hi, hc⟩ := Text.append_inj_of_head? (hdigits i) rfl (hdigits j) rfl hr
  have hs : regionSuffix language i = regionSuffix language j := by
    rw [regionSuffix, List.reverse_inj.1 hi, regionSuffix]
  exact ⟨List.reverse_inj.1 (List.cons.inj hc).2, regionSuffix_inj hs⟩

/-- The path of the uri of a region tells the number of the region and all of the host but query and
fragment, up to what is filled in. -/
theorem syntheticPath_inj {u v : UriParts} (hu : u.Delimited) (hv : v.Delimited)
    {language : Language} {i j : Nat}
    (h : u.syntheticPath language i = v.syntheticPath language j) :
    i = j ∧ u.schemeSegment = v.schemeSegment ∧ u.authority?.getD "" = v.authority?.getD "" ∧
      u.rootedPath = v.rootedPath := by
  have hslash : ∀ (w : UriParts) (ds : List Char),
      (w.rootedPath.toList ++ ds).head?.any (! ['/', '?', '#'].contains ·) = false := by
    intro w ds
    rw [List.head?_append, head?_rootedPath]
    rfl
  have ht := congrArg String.toList h
  rw [toList_syntheticPath, toList_syntheticPath] at ht
  obtain ⟨hs, ht⟩ := Text.append_inj_of_head? (all_schemeSegment hu) rfl (all_schemeSegment hv) rfl ht
  obtain ⟨ha, ht⟩ := Text.append_inj_of_head? (all_authority hu) (hslash u _) (all_authority hv)
    (hslash v _) (List.cons.inj ht).2
  obtain ⟨hp, hi⟩ := append_regionSuffix_inj ht
  exact ⟨hi, String.toList_inj.1 hs, String.toList_inj.1 ha, String.toList_inj.1 hp⟩

theorem all_syntheticPath {u : UriParts} (hu : u.Delimited) (language : Language) (index : Nat) :
    (u.syntheticPath language index).toList.all (! ['?', '#'].contains ·) = true := by
  have hweaken : ∀ cs : List Char, cs.all (! ['/', '?', '#'].contains ·) = true →
      cs.all (! ['?', '#'].contains ·) = true := by
    intro cs h
    refine List.all_eq_true.2 fun c hc => ?_
    have := List.all_eq_true.1 h c hc
    simp_all
  have hrooted : u.rootedPath.toList.all (! ['?', '#'].contains ·) = true := by
    unfold rootedPath
    split
    · exact hu.path
    · rw [String.toList_append, List.all_append, hu.path]
      rfl
  rw [toList_syntheticPath, List.all_append, List.all_cons, List.all_append, List.all_append,
    hweaken _ (all_schemeSegment hu), hweaken _ (all_authority hu), hrooted,
    all_regionSuffix (by decide)]
  rfl

/-- What stands after a path. -/
def tail (u : UriParts) : List Char :=
  (marked "?" u.query?).toList ++ (marked "#" u.fragment?).toList

theorem head?_tail (u : UriParts) : u.tail.head?.any (! ['?', '#'].contains ·) = false := by
  unfold tail
  cases u.query? <;> cases u.fragment? <;> simp [marked]

theorem tail_inj {u v : UriParts} (hu : u.Delimited) (hv : v.Delimited) (h : u.tail = v.tail) :
    u.query? = v.query? ∧ u.fragment? = v.fragment? := by
  have hfragment : ∀ f g : Option String,
      (marked "#" f).toList = (marked "#" g).toList → f = g := by
    intro f g
    cases f <;> cases g <;> simp [marked, String.toList_inj]
  have hhead : ∀ f : Option String,
      (marked "#" f).toList.head?.any (! ['#'].contains ·) = false := by
    intro f
    cases f <;> simp [marked]
  have hne : ∀ (f : Option String) (cs : List Char), (marked "#" f).toList ≠ '?' :: cs := by
    intro f cs
    cases f <;> simp [marked]
  have hquery : ∀ (q : String) (cs : List Char),
      (marked "?" (some q)).toList ++ cs = '?' :: (q.toList ++ cs) := by
    intro q cs
    simp [marked]
  unfold tail at h
  cases hq : u.query? with
  | none =>
    cases hq' : v.query? with
    | none =>
      rw [hq, hq'] at h
      exact ⟨rfl, hfragment _ _ h⟩
    | some q =>
      rw [hq, hq', hquery] at h
      exact absurd h (hne _ _)
  | some q =>
    cases hq' : v.query? with
    | none =>
      rw [hq, hq', hquery] at h
      exact absurd h.symm (hne _ _)
    | some q' =>
      rw [hq, hq', hquery, hquery] at h
      obtain ⟨h₁, h₂⟩ := Text.append_inj_of_head? (hu.query q hq) (hhead _) (hv.query q' hq')
        (hhead _) (List.cons.inj h).2
      exact ⟨congrArg some (String.toList_inj.1 h₁), hfragment _ _ h₂⟩

/-! ## What is filled in -/

/-- Two uris have equal filled parts exactly if they agree on the scheme segment, the authority or
the empty one, the rooted path, the query and the fragment. -/
theorem filled_eq_iff {u v : UriParts} (hu : u.Delimited) (hv : v.Delimited) :
    u.filled = v.filled ↔ u.schemeSegment = v.schemeSegment ∧
      u.authority?.getD "" = v.authority?.getD "" ∧ u.rootedPath = v.rootedPath ∧
      u.query? = v.query? ∧ u.fragment? = v.fragment? := by
  have hrooted : ∀ w : UriParts, w.isOpaque = true →
      w.authority? = none ∧ w.rootedPath = "/" ++ w.path := by
    intro w hw
    rw [isOpaque, Bool.and_eq_true, Option.isNone_iff_eq_none, bne_iff_ne] at hw
    exact ⟨hw.1, if_neg hw.2⟩
  constructor
  · intro h
    unfold filled at h
    split at h <;> split at h
    · subst h
      exact ⟨rfl, rfl, rfl, rfl, rfl⟩
    · rename_i ho _
      rw [h] at ho
      cases ho
    · rename_i ho
      rw [← h] at ho
      cases ho
    · rename_i ho ho'
      obtain ⟨hs, ha, hp, hq, hf⟩ := UriParts.mk.inj h
      refine ⟨?_, Option.some.inj ha, hp, hq, hf⟩
      rw [schemeSegment, schemeSegment, if_neg ho, if_neg ho', hs]
  · rintro ⟨hs, ha, hp, hq, hf⟩
    obtain ⟨hs, ho⟩ := schemeSegment_inj hu hv hs
    cases hv' : v.isOpaque with
    | false =>
      rw [filled, filled, ho, hv', hs, ha, hp, hq, hf]
      rfl
    | true =>
      obtain ⟨hau, hpu⟩ := hrooted u (ho.trans hv')
      obtain ⟨hav, hpv⟩ := hrooted v hv'
      rw [hpu, hpv] at hp
      have hpath : u.path = v.path := by
        simpa [← String.toList_inj] using hp
      rw [filled, filled, ho, hv', if_pos rfl, if_pos rfl]
      exact UriParts.ext hs (hau.trans hav.symm) hpath hq hf

theorem path_of_not_isOpaque {u : UriParts} (hu : u.Delimited) (ho : u.isOpaque = false) :
    u.path = "" ∨ u.rootedPath = u.path := by
  cases ha : u.authority? with
  | some a => exact (hu.rooted a ha).imp_right fun hp => if_pos hp
  | none =>
    rw [isOpaque, ha, Option.isNone_none, Bool.true_and, bne_eq_false_iff_eq] at ho
    exact .inr (if_pos ho)

/-- Uris with equal filled parts are equal if both or neither have an authority, and both or neither
have an empty path. -/
theorem eq_of_filled {u v : UriParts} (hu : u.Delimited) (hv : v.Delimited)
    (h : u.filled = v.filled) (ha : u.authority?.isSome = v.authority?.isSome)
    (hp : u.path = "" ↔ v.path = "") : u = v := by
  obtain ⟨hs, hget, hrooted, hq, hf⟩ := (filled_eq_iff hu hv).1 h
  obtain ⟨hs, ho⟩ := schemeSegment_inj hu hv hs
  cases hv' : v.isOpaque with
  | true =>
    rw [filled, filled, ho, hv'] at h
    exact h
  | false =>
    have hauthority : u.authority? = v.authority? := by
      cases hau : u.authority? <;> cases hav : v.authority? <;> simp_all
    have hpath : u.path = v.path := by
      rcases path_of_not_isOpaque hu (ho.trans hv') with hu | hu
      · rw [hu, hp.1 hu]
      rcases path_of_not_isOpaque hv hv' with hv | hv
      · rw [hv, hp.2 hv]
      · rw [← hu, hrooted, hv]
    exact UriParts.ext hs hauthority hpath hq hf

end UriParts

/-! ## Hosts that share a uri -/

theorem all_label (language : Language) :
    language.label.toList.all (! ['/'].contains ·) = true := by
  cases language <;> decide

theorem label_inj {l m : Language} (h : l.label.toList = m.label.toList) : l = m := by
  cases l <;> cases m <;> first | rfl | (revert h; decide)

namespace UriLaws

variable {name : Uri → Language → Nat → Uri} {parts : Uri → UriParts} {IsNormal : Uri → Prop}
  (laws : UriLaws name parts IsNormal)

include laws

theorem toList_name {host : Uri} {language : Language} {index : Nat}
    (hk : (parts host).KeepsPath language index) :
    (name host language index).text.toList = "bitbake-embedded://".toList
      ++ (language.label.toList ++ ('/' :: (((parts host).syntheticPath language index).toList
        ++ (parts host).tail))) := by
  rw [laws.text_name]
  simp only [UriParts.text, String.toList_append]
  rw [hk]
  simp [UriParts.synthetic, UriParts.marked, UriParts.guard, syntheticScheme, UriParts.tail]

variable {h₁ h₂ : Uri} (n₁ : IsNormal h₁) (n₂ : IsNormal h₂) {l₁ l₂ : Language} {i₁ i₂ : Nat}
  (k₁ : (parts h₁).KeepsPath l₁ i₁) (k₂ : (parts h₂).KeepsPath l₂ i₂)

include n₁ n₂ k₁ k₂

/-- Two regions of hosts whose paths are written as they are share a uri if and only if they have the
same language and number and their hosts have the same parts once these are filled in. -/
theorem name_eq_iff : name h₁ l₁ i₁ = name h₂ l₂ i₂ ↔
    (parts h₁).filled = (parts h₂).filled ∧ l₁ = l₂ ∧ i₁ = i₂ := by
  have d₁ := laws.delimited n₁
  have d₂ := laws.delimited n₂
  rw [UriParts.filled_eq_iff d₁ d₂]
  constructor
  · intro h
    have ht := congrArg (·.text.toList) h
    simp only [laws.toList_name k₁, laws.toList_name k₂, List.append_cancel_left_eq] at ht
    obtain ⟨hl, ht⟩ := Text.append_inj_of_head? (all_label l₁) rfl (all_label l₂) rfl ht
    obtain rfl := label_inj hl
    obtain ⟨hpath, htail⟩ := Text.append_inj_of_head? (UriParts.all_syntheticPath d₁ ..)
      (UriParts.head?_tail _) (UriParts.all_syntheticPath d₂ ..) (UriParts.head?_tail _)
      (List.cons.inj ht).2
    obtain ⟨hi, hs, ha, hp⟩ := UriParts.syntheticPath_inj d₁ d₂ (String.toList_inj.1 hpath)
    obtain ⟨hq, hf⟩ := UriParts.tail_inj d₁ d₂ htail
    exact ⟨⟨hs, ha, hp, hq, hf⟩, rfl, hi⟩
  · rintro ⟨⟨hs, ha, hp, hq, hf⟩, rfl, rfl⟩
    have hpath : (parts h₁).syntheticPath l₁ i₁ = (parts h₂).syntheticPath l₁ i₁ := by
      rw [UriParts.syntheticPath, UriParts.syntheticPath, hs, ha, hp]
    refine Uri.ext ?_
    rw [laws.text_name, laws.text_name, UriParts.synthetic, UriParts.synthetic, hpath, hq, hf]

/-- Hosts that share a uri are the same, if both or neither have an authority, and both or neither have
an empty path. -/
theorem host_eq_of_name_eq (h : name h₁ l₁ i₁ = name h₂ l₂ i₂)
    (ha : (parts h₁).authority?.isSome = (parts h₂).authority?.isSome)
    (hp : (parts h₁).path = "" ↔ (parts h₂).path = "") : h₁ = h₂ := by
  have hfilled := ((laws.name_eq_iff n₁ n₂ k₁ k₂).1 h).1
  have hparts := UriParts.eq_of_filled (laws.delimited n₁) (laws.delimited n₂) hfilled ha hp
  refine Uri.ext ?_
  rw [← laws.text_parts n₁, ← laws.text_parts n₂, hparts]

end UriLaws

/-- Two regions of hosts whose paths are written as they are share a uri if and only if they have the
same language and number and their hosts differ at most in what is filled in: an empty authority in
place of a missing one and a slash in place of an empty path. Hosts that lack the same differ in
their documents too. -/
theorem syntheticUri_eq_iff {h₁ h₂ : Uri} (n₁ : h₁.IsNormal) (n₂ : h₂.IsNormal)
    {l₁ l₂ : Language} {i₁ i₂ : Nat}
    (k₁ : h₁.parts.KeepsPath l₁ i₁) (k₂ : h₂.parts.KeepsPath l₂ i₂) :
    (syntheticUri h₁ l₁ i₁ = syntheticUri h₂ l₂ i₂ ↔
      h₁.parts.filled = h₂.parts.filled ∧ l₁ = l₂ ∧ i₁ = i₂) ∧
    (syntheticUri h₁ l₁ i₁ = syntheticUri h₂ l₂ i₂ →
      h₁.parts.authority?.isSome = h₂.parts.authority?.isSome →
      (h₁.parts.path = "" ↔ h₂.parts.path = "") → h₁ = h₂) :=
  ⟨uriLaws.name_eq_iff n₁ n₂ k₁ k₂, uriLaws.host_eq_of_name_eq n₁ n₂ k₁ k₂⟩

/-- An authority and a first segment of the same name are told apart. -/
theorem syntheticUri_ne_box :
    Uri.IsNormal ⟨"file://box/a.bb"⟩ ∧ Uri.IsNormal ⟨"file:///box/a.bb"⟩ ∧
      (Uri.parts ⟨"file://box/a.bb"⟩).KeepsPath .shell 0 ∧
      (Uri.parts ⟨"file:///box/a.bb"⟩).KeepsPath .shell 0 ∧
      syntheticUri ⟨"file://box/a.bb"⟩ .shell 0 ≠ syntheticUri ⟨"file:///box/a.bb"⟩ .shell 0 := by
  have n₁ : Uri.IsNormal ⟨"file://box/a.bb"⟩ :=
    Uri.isNormal_of_toOption (s := "file://box/a.bb") (by decide +kernel)
  have n₂ : Uri.IsNormal ⟨"file:///box/a.bb"⟩ :=
    Uri.isNormal_of_toOption (s := "file:///box/a.bb") (by decide +kernel)
  have k₁ : (Uri.parts ⟨"file://box/a.bb"⟩).KeepsPath .shell 0 := by decide +kernel
  have k₂ : (Uri.parts ⟨"file:///box/a.bb"⟩).KeepsPath .shell 0 := by decide +kernel
  have hne : (Uri.parts ⟨"file://box/a.bb"⟩).filled ≠ (Uri.parts ⟨"file:///box/a.bb"⟩).filled := by
    decide +kernel
  exact ⟨n₁, n₂, k₁, k₂, fun h => hne ((syntheticUri_eq_iff n₁ n₂ k₁ k₂).1.1 h).1⟩

/-- A missing authority and an empty one are not told apart, nor are an empty path and a slash. -/
theorem syntheticUri_shared :
    (Uri.IsNormal ⟨"x:/a"⟩ ∧ Uri.IsNormal ⟨"x:///a"⟩ ∧
      (Uri.parts ⟨"x:/a"⟩).KeepsPath .shell 0 ∧ (Uri.parts ⟨"x:///a"⟩).KeepsPath .shell 0 ∧
      syntheticUri ⟨"x:/a"⟩ .shell 0 = syntheticUri ⟨"x:///a"⟩ .shell 0) ∧
    (Uri.IsNormal ⟨"x://h"⟩ ∧ Uri.IsNormal ⟨"x://h/"⟩ ∧
      (Uri.parts ⟨"x://h"⟩).KeepsPath .shell 0 ∧ (Uri.parts ⟨"x://h/"⟩).KeepsPath .shell 0 ∧
      syntheticUri ⟨"x://h"⟩ .shell 0 = syntheticUri ⟨"x://h/"⟩ .shell 0) := by
  refine ⟨⟨?_, ?_, ?_⟩, ?_, ?_, ?_⟩
  · exact Uri.isNormal_of_toOption (s := "x:/a") (by decide +kernel)
  · exact Uri.isNormal_of_toOption (s := "x:///a") (by decide +kernel)
  · decide +kernel
  · exact Uri.isNormal_of_toOption (s := "x://h") (by decide +kernel)
  · exact Uri.isNormal_of_toOption (s := "x://h/") (by decide +kernel)
  · decide +kernel

end Recipe
