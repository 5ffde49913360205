import Mathlib
import Recipe.Proofs.Text.Width
import Recipe.Uri.Parse

/-!
# The parts of a uri

The parts of a uri are read off its text, and the text is what they are written as: nothing of a
text is lost when it is cut into parts (`UriParts.text_of_ofText?`), and no part has the mark that
ends it (`UriParts.delimited_of_ofText?`). The text of a uri that has been read begins with a scheme
in lower case, so it has parts, and they are its text (`Uri.IsNormal.text_parts`).
-/

namespace Recipe

namespace UriParts

/-- No part has the mark that ends it, and a path after an authority is a list of segments. -/
structure Delimited (u : UriParts) : Prop where
  scheme : u.scheme.toList.all isSchemeChar = true
  authority : ∀ a, u.authority? = some a → a.toList.all (! ['/', '?', '#'].contains ·) = true
  path : u.path.toList.all (! ['?', '#'].contains ·) = true
  query : ∀ q, u.query? = some q → q.toList.all (! ['#'].contains ·) = true
  rooted : ∀ a, u.authority? = some a → u.path = "" ∨ u.path.toList.head? = some '/'

/-! ## Cutting -/

theorem cutAt_append (marks cs : List Char) : (cutAt marks cs).1 ++ (cutAt marks cs).2 = cs :=
  List.takeWhile_append_dropWhile

theorem all_cutAt (marks cs : List Char) : (cutAt marks cs).1.all (!marks.contains ·) = true :=
  List.all_takeWhile

theorem head?_cutAt {marks cs : List Char} {c : Char} (h : (cutAt marks cs).2.head? = some c) :
    c ∈ marks := by
  have hd := List.head?_dropWhile_not (fun c => !marks.contains c) cs
  dsimp only [cutAt] at h
  rw [h] at hd
  simpa using hd

theorem cutAt_nil (cs : List Char) : cutAt [] cs = (cs, []) := by
  have h := cutAt_append [] cs
  cases hc : (cutAt [] cs).2 with
  | nil =>
    rw [hc, List.append_nil] at h
    exact Prod.ext h hc
  | cons c rest => exact absurd (head?_cutAt (c := c) (by rw [hc]; rfl)) List.not_mem_nil

/-- What a mark and its part are written as, if the part is there. -/
def markedList (mark : List Char) : Option (List Char) → List Char
  | some s => mark ++ s
  | none => []

theorem toList_marked (mark : String) (s : Option String) :
    (marked mark s).toList = markedList mark.toList (s.map String.toList) := by
  cases s <;> simp [marked, markedList]

theorem markedList_optionalPart (mark : Char) (stops cs : List Char) :
    markedList [mark] (optionalPart mark stops cs).1 ++ (optionalPart mark stops cs).2 = cs := by
  unfold optionalPart
  split
  · rfl
  · rename_i c cs
    split
    · rename_i hc
      subst hc
      simp [markedList, cutAt_append]
    · rfl

/-- What stands after a path is its query and its fragment, each with its mark in front. -/
theorem markedList_queryAndFragment {cs : List Char} (h : ∀ c, cs.head? = some c → c ∈ ['?', '#']) :
    markedList ['?'] (queryAndFragment cs).1 ++ markedList ['#'] (queryAndFragment cs).2 = cs := by
  have hquery := markedList_optionalPart '?' ['#'] cs
  have hfragment := markedList_optionalPart '#' [] (optionalPart '?' ['#'] cs).2
  -- What is left after the query is a fragment, and after that nothing.
  have hrest : ∀ c, (optionalPart '?' ['#'] cs).2.head? = some c → c = '#' := by
    intro c hc
    unfold optionalPart at hc
    split at hc
    · cases hc
    · rename_i d ds
      split at hc
      · simpa using head?_cutAt hc
      · rename_i hd
        have := h d rfl
        simp_all
  have hend : (optionalPart '#' [] (optionalPart '?' ['#'] cs).2).2 = [] := by
    cases hr : (optionalPart '?' ['#'] cs).2 with
    | nil => rfl
    | cons c rest =>
      have hc := hrest c (by rw [hr]; rfl)
      rw [optionalPart, if_pos hc, cutAt_nil]
  rw [hend, List.append_nil] at hfragment
  rw [queryAndFragment]
  dsimp only
  rw [hfragment, hquery]

/-- The query that is read off a text has no number sign, the mark of the fragment. -/
theorem all_query {cs q : List Char} (h : (queryAndFragment cs).1 = some q) :
    q.all (! ['#'].contains ·) = true := by
  unfold queryAndFragment optionalPart at h
  dsimp only at h
  split at h
  · cases h
  · split at h
    · obtain rfl := Option.some.inj h
      exact all_cutAt _ _
    · cases h

theorem markedList_authorityPart (cs : List Char) :
    markedList ['/', '/'] ((authorityPart cs).1.map String.toList) ++ (authorityPart cs).2 = cs := by
  unfold authorityPart
  split
  · simp [markedList, cutAt_append]
  · rfl

/-- An authority goes up to the path. -/
theorem cutAt_of_authorityPart {cs : List Char} {a : String} (h : (authorityPart cs).1 = some a) :
    ∃ rest, a.toList = (cutAt ['/', '?', '#'] rest).1 ∧
      (authorityPart cs).2 = (cutAt ['/', '?', '#'] rest).2 := by
  unfold authorityPart at h ⊢
  split
  · rename_i rest
    obtain rfl := Option.some.inj h
    exact ⟨rest, String.toList_ofList, rfl⟩
  · simp only at h
    cases h

/-- Taking the guard off a path without an authority and putting it back gives the path. -/
theorem guard_append_unguarded {cs : List Char} (h : ¬ ['/', '/'] <+: cs) :
    (guard none (String.ofList (unguarded cs))).toList ++ unguarded cs = cs := by
  unfold unguarded
  split
  · simp [guard]
  · have hp : List.isPrefixOf ['/', '/'] cs = false := by
      rw [← Bool.not_eq_true, List.isPrefixOf_iff_prefix]
      exact h
    simp [guard, hp]

/-! ## Reading and writing -/

/-- A text with a scheme is the scheme, a colon and what follows. -/
theorem eq_append_of_scheme? {cs rest : List Char} {scheme : String}
    (h : scheme? cs = some (scheme, rest)) :
    scheme = String.ofList ((cs.takeWhile isSchemeChar).map Char.toLower) ∧
      cs = cs.takeWhile isSchemeChar ++ ':' :: rest := by
  unfold scheme? at h
  split at h
  · rename_i c r hc hd
    split at h
    · obtain ⟨rfl, rfl⟩ := Prod.mk.inj (Option.some.inj h)
      exact ⟨rfl, by rw [← hd, List.takeWhile_append_dropWhile]⟩
    · cases h
  · cases h

/-- The path in a text, which goes from the authority up to the query or the fragment, is the path
that is read off it with its guard in front. -/
theorem guard_append_path (cs : List Char) :
    let authority := authorityPart cs
    let path := (cutAt ['?', '#'] authority.2).1
    let shown := if authority.1.isNone then unguarded path else path
    (guard authority.1 (String.ofList shown)).toList ++ shown = path := by
  dsimp only
  cases ha : (authorityPart cs).1 with
  | some a => simp [guard]
  | none =>
    have hcs := markedList_authorityPart cs
    rw [ha, Option.map_none, markedList, List.nil_append] at hcs
    refine guard_append_unguarded fun hp => ?_
    -- A text that begins with two slashes has an authority.
    rw [hcs] at hp
    obtain ⟨rest, hrest⟩ := hp.trans ⟨_, cutAt_append ['?', '#'] cs⟩
    rw [← hrest] at ha
    cases ha

/-- Parts that are read off `cs` have the text `cs`, if the scheme of `cs` is in lower case. -/
theorem text_of_ofText? {cs : List Char} {u : UriParts} (h : ofText? cs = some u)
    (hl : (cs.takeWhile isSchemeChar).map Char.toLower = cs.takeWhile isSchemeChar) :
    u.text.toList = cs := by
  obtain ⟨⟨scheme, rest⟩, hs, rfl⟩ := Option.map_eq_some_iff.1 h
  obtain ⟨rfl, hcs⟩ := eq_append_of_scheme? hs
  have hauthority := markedList_authorityPart rest
  have hcut := cutAt_append ['?', '#'] (authorityPart rest).2
  have hpath := guard_append_path rest
  have htail : markedList ['?'] (queryAndFragment (cutAt ['?', '#'] (authorityPart rest).2).2).1
      ++ markedList ['#'] (queryAndFragment (cutAt ['?', '#'] (authorityPart rest).2).2).2
      = (cutAt ['?', '#'] (authorityPart rest).2).2 :=
    markedList_queryAndFragment fun c => head?_cutAt
  have hid : String.toList ∘ String.ofList = id := funext fun _ => String.toList_ofList
  dsimp only at hpath
  simp only [text, String.toList_append, toList_marked, String.toList_ofList, Option.map_map, hid,
    Option.map_id_fun, id_eq, List.append_assoc, hl]
  rw [show "?".toList = ['?'] from rfl, show "#".toList = ['#'] from rfl,
    show "//".toList = ['/', '/'] from rfl, htail, ← List.append_assoc _ _ (cutAt _ _).2, hpath, hcut,
    hauthority]
  exact hcs.symm

theorem delimited_of_ofText? {cs : List Char} {u : UriParts} (h : ofText? cs = some u)
    (hl : (cs.takeWhile isSchemeChar).map Char.toLower = cs.takeWhile isSchemeChar) :
    u.Delimited := by
  obtain ⟨⟨scheme, rest⟩, hs, rfl⟩ := Option.map_eq_some_iff.1 h
  obtain ⟨rfl, hcs⟩ := eq_append_of_scheme? hs
  refine ⟨?_, ?_, ?_, ?_, ?_⟩
  · rw [String.toList_ofList, hl]
    exact List.all_takeWhile
  · intro a ha
    obtain ⟨front, ha, -⟩ := cutAt_of_authorityPart ha
    rw [ha]
    exact all_cutAt _ _
  · have hall := all_cutAt ['?', '#'] (authorityPart rest).2
    dsimp only
    rw [String.toList_ofList]
    split
    · unfold unguarded
      split
      · rename_i hp
        rw [hp] at hall
        simpa using hall
      · exact hall
    · exact hall
  · intro q hq
    obtain ⟨cs, hcs, rfl⟩ := Option.map_eq_some_iff.1 hq
    rw [String.toList_ofList]
    exact all_query hcs
  · intro a ha
    obtain ⟨front, -, hrest⟩ := cutAt_of_authorityPart ha
    dsimp only at ha ⊢
    rw [ha, Option.isNone_some, if_neg Bool.false_ne_true, hrest]
    cases hp : (cutAt ['?', '#'] (cutAt ['/', '?', '#'] front).2).1 with
    | nil => exact .inl rfl
    | cons c path =>
      have hall := all_cutAt ['?', '#'] (cutAt ['/', '?', '#'] front).2
      have hc := cutAt_append ['?', '#'] (cutAt ['/', '?', '#'] front).2
      rw [hp] at hall hc
      rw [List.all_cons, Bool.and_eq_true] at hall
      have hout : c ∉ ['?', '#'] := by simpa using hall.1
      have hin : c ∈ ['/', '?', '#'] := head?_cutAt (by rw [← hc]; rfl)
      obtain rfl : c = '/' := (List.mem_cons.1 hin).resolve_right hout
      exact .inr (by rw [String.toList_ofList]; rfl)

/-! ## Schemes -/

theorem isSchemeChar_toLower {c : Char} (h : isSchemeChar c = true) :
    isSchemeChar c.toLower = true := by
  cases hu : c.isUpper with
  | false => rwa [Char.toLower_eq_of_not_isUpper (Bool.eq_false_iff.1 hu)]
  | true =>
    rw [isSchemeChar, Char.isAlphanum, Char.isAlpha_toLower_eq_isAlpha, Char.isAlpha, hu]
    rfl

/-- A text that begins with a letter, goes on as a scheme does, and has it in lower case. -/
structure IsScheme (scheme : List Char) : Prop where
  head : scheme.head?.any Char.isAlpha = true
  all : scheme.all isSchemeChar = true
  lower : scheme.map Char.toLower = scheme

theorem isScheme_of_scheme? {cs rest : List Char} {scheme : String}
    (h : scheme? cs = some (scheme, rest)) : IsScheme scheme.toList := by
  obtain ⟨rfl, -⟩ := eq_append_of_scheme? h
  rw [String.toList_ofList]
  refine ⟨?_, ?_, ?_⟩
  · unfold scheme? at h
    split at h
    · rename_i c r hc hd
      split at h
      · rename_i ha
        cases cs with
        | nil => cases hc
        | cons d cs =>
          obtain rfl : d = c := Option.some.inj hc
          have hs : isSchemeChar d = true := by rw [isSchemeChar, Char.isAlphanum, ha]; rfl
          simp [hs, ha]
      · cases h
    · cases h
  · rw [List.all_map]
    exact List.all_eq_true.2 fun c hc =>
      isSchemeChar_toLower (List.all_eq_true.1 List.all_takeWhile c hc)
  · rw [List.map_map]
    exact List.map_congr_left fun c _ => c.toLower_toLower_eq_toLower

/-- A scheme and a colon at the front of a text are read as they are. -/
theorem scheme?_append {scheme : List Char} (h : IsScheme scheme) (rest : List Char) :
    scheme? (scheme ++ ':' :: rest) = some (String.ofList scheme, rest) ∧
      (scheme ++ ':' :: rest).takeWhile isSchemeChar = scheme := by
  have hall := List.all_eq_true.1 h.all
  have hcolon : isSchemeChar ':' = false := by decide
  have htake : (scheme ++ ':' :: rest).takeWhile isSchemeChar = scheme := by
    rw [List.takeWhile_append_of_pos hall]
    simp [hcolon]
  have hdrop : (scheme ++ ':' :: rest).dropWhile isSchemeChar = ':' :: rest := by
    rw [List.dropWhile_append_of_pos hall]
    simp [hcolon]
  refine ⟨?_, htake⟩
  unfold scheme?
  rw [hdrop, htake, h.lower]
  have hhead := h.head
  cases scheme with
  | nil => cases hhead
  | cons c scheme =>
    have hc : c.isAlpha = true := by simpa using hhead
    simp [hc]

end UriParts

/-! ## Uris that have been read -/

/-- If `x >>= f` gives a result, so does `x`, and so does `f` on the result of `x`. -/
theorem exists_of_bind {ε α β : Type} {x : Except ε α} {f : α → Except ε β} {b : β}
    (h : x >>= f = .ok b) : ∃ a, x = .ok a ∧ f a = .ok b := by
  cases x with
  | error e => cases h
  | ok a => exact ⟨a, rfl, h⟩

namespace UriText

theorem scheme_file {cs : List Char} {u : UriParts} (h : file cs = .ok u) : u.scheme = "file" := by
  unfold file at h
  dsimp only at h
  split at h
  · obtain ⟨host, -, h⟩ := exists_of_bind h
    cases h
    rfl
  · cases h
    rfl

theorem scheme_hosted {scheme : String} {cs : List Char} {u : UriParts}
    (h : hosted scheme cs = .ok u) : u.scheme = scheme := by
  obtain ⟨host, -, h⟩ := exists_of_bind h
  cases h
  rfl

theorem scheme_general {scheme : String} {cs : List Char} {u : UriParts}
    (h : general scheme cs = .ok u) : u.scheme = scheme := by
  unfold general at h
  split at h
  · obtain ⟨host, -, h⟩ := exists_of_bind h
    cases h
    rfl
  · cases h
    rfl
  · cases h
    rfl

end UriText

namespace Uri

/-- The uri is what some text is read as. -/
def IsNormal (u : Uri) : Prop :=
  ∃ s, Uri.parse s = .ok u

theorem isNormal_of_toOption {s : String} {u : Uri} (h : (Uri.parse s).toOption = some u) :
    u.IsNormal := by
  cases hs : Uri.parse s with
  | error e =>
    rw [hs] at h
    cases h
  | ok v =>
    rw [hs] at h
    obtain rfl := Option.some.inj h
    exact ⟨s, hs⟩

/-- A uri that has been read is written as parts with a scheme in lower case. -/
theorem IsNormal.exists_parts {u : Uri} (h : u.IsNormal) :
    ∃ p : UriParts, u.text = p.text ∧ UriParts.IsScheme p.scheme.toList := by
  obtain ⟨s, h⟩ := h
  unfold parse at h
  split at h
  · cases h
  · rename_i scheme cs hscheme
    have hvalid := UriParts.isScheme_of_scheme? hscheme
    dsimp only at h
    split at h
    · obtain ⟨p, hp, h⟩ := exists_of_bind h
      cases h
      exact ⟨p, rfl, by rw [UriText.scheme_file hp]; exact ⟨by decide, by decide, by decide⟩⟩
    · obtain ⟨p, hp, h⟩ := exists_of_bind h
      cases h
      exact ⟨p, rfl, by rwa [UriText.scheme_hosted hp]⟩
    · obtain ⟨p, hp, h⟩ := exists_of_bind h
      cases h
      exact ⟨p, rfl, by rwa [UriText.scheme_general hp]⟩

/-- The parts of a uri that has been read are its text, and none has the mark that ends it. -/
theorem IsNormal.text_parts {u : Uri} (h : u.IsNormal) :
    u.parts.text = u.text ∧ u.parts.Delimited := by
  obtain ⟨p, hp, hscheme⟩ := h.exists_parts
  obtain ⟨rest, htext⟩ : ∃ rest, u.text.toList = p.scheme.toList ++ ':' :: rest := by
    rw [hp, UriParts.text]
    simp
  obtain ⟨hread, htake⟩ := UriParts.scheme?_append hscheme rest
  rw [← htext] at hread htake
  obtain ⟨q, hq⟩ : ∃ q, UriParts.ofText? u.text.toList = some q := by
    rw [UriParts.ofText?, hread]
    exact ⟨_, rfl⟩
  have hparts : u.parts = q := by rw [parts, hq, Option.getD_some]
  have hlower : (u.text.toList.takeWhile UriParts.isSchemeChar).map Char.toLower
      = u.text.toList.takeWhile UriParts.isSchemeChar := by rw [htake, hscheme.lower]
  rw [hparts]
  exact ⟨String.toList_inj.1 (UriParts.text_of_ofText? hq hlower),
    UriParts.delimited_of_ofText? hq hlower⟩

end Uri

end Recipe
