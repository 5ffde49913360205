import Recipe.Proofs.Grammar.Reading
import Recipe.Proofs.Grammar.Statement
import Recipe.Proofs.Text.LineEnding

/-!
# Scanning with either line ending

Every scan commutes with `Text.crlf`: it tells the two characters of a line's end apart nowhere but
after a backslash, and it does not stop between them. After a backslash a carriage return joins lines
only before a line feed, so the text must have no carriage return of its own (`continues_crlf`).
-/

namespace Recipe.Grammar

open Text (crlf crlf_cons crlf_lineFeed crlf_of_not_mem)

/-! ## Scans -/

namespace Cut

/-- The two parts with carriage returns. -/
def crlf (c : Cut) : Cut :=
  ⟨Text.crlf c.front, Text.crlf c.rest⟩

@[simp] theorem front_crlf (c : Cut) : c.crlf.front = Text.crlf c.front := rfl

@[simp] theorem rest_crlf (c : Cut) : c.crlf.rest = Text.crlf c.rest := rfl

theorem crlf_push (cs : List Char) (c : Cut) : (c.push cs).crlf = c.crlf.push (Text.crlf cs) := by
  rw [crlf, push, push, Text.crlf_append]
  rfl

theorem span_crlf {p : Char → Bool} (h : p '\r' = p '\n') (cs : List Char) :
    span p (Text.crlf cs) = (span p cs).crlf := by
  rw [span, Text.takeWhile_crlf h, Text.dropWhile_crlf h]
  rfl

/-- A scan whose test does not look past a line feed cuts a text at the same place with CRLF endings
as with LF endings. -/
theorem scan_crlf {p : List Char → Bool} (hp : ∀ cs, '\r' ∉ cs → p (Text.crlf cs) = p cs)
    (hfeed : ∀ cs ds, p ('\n' :: cs) = p ('\n' :: ds)) {cs : List Char} (h : '\r' ∉ cs) :
    scan p (Text.crlf cs) = (scan p cs).crlf := by
  induction cs with
  | nil => rfl
  | cons c cs ih =>
    have hstart := hp _ h
    have hrest := ih fun hm => h (List.mem_cons_of_mem c hm)
    by_cases hc : c = '\n'
    · subst hc
      rw [crlf_lineFeed] at hstart ⊢
      rw [scan, hstart, scan, hfeed (Text.crlf cs) cs, scan]
      split
      · rw [hrest, crlf_push]
        rfl
      · rfl
    · rw [crlf_cons hc] at hstart ⊢
      rw [scan, hstart, scan]
      split
      · rw [hrest, crlf_push, crlf_cons hc]
        rfl
      · rw [crlf, crlf_cons hc]
        rfl

end Cut

theorem continues_of_ne {c : Char} (h : c ≠ '\\') (cs : List Char) : continues (c :: cs) = false := by
  unfold continues
  split
  · rename_i heq
    cases heq
    exact absurd rfl h
  · rfl

theorem continues_backslash_of_ne {c : Char} (hr : c ≠ '\r') (hn : c ≠ '\n') (cs : List Char) :
    continues ('\\' :: c :: cs) = false := by
  unfold continues
  split
  · rename_i heq
    cases heq
    split <;> simp_all
  · rfl

theorem continues_crlf {cs : List Char} (h : '\r' ∉ cs) : continues (crlf cs) = continues cs := by
  cases cs with
  | nil => rfl
  | cons c cs =>
    by_cases hc : c = '\\'
    · subst hc
      rw [crlf_cons (by decide)]
      cases cs with
      | nil => rfl
      | cons d cs =>
        by_cases hd : d = '\n'
        · subst hd
          rfl
        · have hr : d ≠ '\r' := by
            rintro rfl
            simp at h
          rw [crlf_cons hd, continues_backslash_of_ne hr hd, continues_backslash_of_ne hr hd]
    · rw [continues_of_ne hc]
      by_cases hn : c = '\n'
      · subst hn
        rfl
      · rw [crlf_cons hn, continues_of_ne hc]

theorem spacing_crlf {cs : List Char} (h : '\r' ∉ cs) : spacing (crlf cs) = (spacing cs).crlf := by
  refine Cut.scan_crlf (fun cs hcs => ?_) (fun _ _ => rfl) h
  rw [startsSpacing, startsSpacing, continues_crlf hcs, Text.any_head?_crlf (by decide)]

theorem word_crlf {cs : List Char} (h : '\r' ∉ cs) : word (crlf cs) = (word cs).crlf := by
  refine Cut.scan_crlf (fun cs hcs => ?_) (fun _ _ => rfl) h
  rw [startsWord, startsWord, continues_crlf hcs, Text.any_head?_crlf (by decide)]

theorem not_mem_rest_spacing {cs : List Char} (h : '\r' ∉ cs) : '\r' ∉ (spacing cs).rest :=
  fun hm => h (front_append_spacing cs ▸ List.mem_append_right _ hm)

/-! ## Keywords and operators -/

theorem isPrefixOf_crlf {w : List Char} (hw : '\r' ∉ w ∧ '\n' ∉ w) (cs : List Char) :
    w.isPrefixOf (crlf cs) = w.isPrefixOf cs := by
  induction w generalizing cs with
  | nil => rfl
  | cons c w ih =>
    simp only [List.mem_cons, not_or] at hw
    cases cs with
    | nil => rfl
    | cons d cs =>
      by_cases hd : d = '\n'
      · subst hd
        rw [crlf_lineFeed, List.isPrefixOf, List.isPrefixOf, beq_eq_false_iff_ne.2 (Ne.symm hw.1.1),
          beq_eq_false_iff_ne.2 (Ne.symm hw.2.1), Bool.false_and, Bool.false_and]
      · rw [crlf_cons hd, List.isPrefixOf, List.isPrefixOf, ih ⟨hw.1.2, hw.2.2⟩]

theorem literal?_crlf {s : String} (hs : '\r' ∉ s.toList ∧ '\n' ∉ s.toList) (cs : List Char) :
    literal? s (crlf cs) = (literal? s cs).map crlf := by
  rw [literal?, literal?, isPrefixOf_crlf hs]
  split
  · rename_i hp
    obtain ⟨rest, rfl⟩ := List.isPrefixOf_iff_prefix.1 hp
    rw [Text.crlf_append, crlf_of_not_mem hs.2, Option.map_some, List.drop_left, List.drop_left]
  · rfl

theorem keyword?_crlf {s : String} (hs : '\r' ∉ s.toList ∧ '\n' ∉ s.toList) (cs : List Char) :
    keyword? s (crlf cs) = (keyword? s cs).map crlf := by
  rw [keyword?, keyword?, literal?_crlf hs]
  cases literal? s cs with
  | none => rfl
  | some rest =>
    rw [Option.map_some, Option.filter_some, Option.filter_some, Text.any_head?_crlf (by decide)]
    split <;> rfl

theorem findSome?_map_of_forall {α β γ : Type} {l : List α} {f : α → Option β} {g : α → Option γ}
    {m : γ → β} (h : ∀ x ∈ l, f x = (g x).map m) : l.findSome? f = (l.findSome? g).map m := by
  induction l with
  | nil => rfl
  | cons x l ih =>
    rw [List.forall_mem_cons] at h
    rw [List.findSome?_cons, List.findSome?_cons, h.1, ih h.2]
    cases g x <;> rfl

theorem operator?_crlf (cs : List Char) : operator? (crlf cs) = (operator? cs).map Cut.crlf := by
  have hplain : ∀ op ∈ operators, '\r' ∉ op.toList ∧ '\n' ∉ op.toList := by decide
  refine findSome?_map_of_forall fun op hop => ?_
  rw [literal?_crlf (hplain op hop), Option.map_map, Option.map_map]
  congr 1
  funext rest
  simp [Cut.crlf, crlf_of_not_mem (hplain op hop).2]

theorem isSome_operator?_crlf (cs : List Char) : (operator? (crlf cs)).isSome = (operator? cs).isSome := by
  rw [operator?_crlf, Option.isSome_map]

/-! ## Brace groups and names -/

theorem closeBrace_crlf {stop : Char → Bool} (hs : stop '\r' = false ∧ stop '\n' = false)
    (depth : Nat) (cs : List Char) :
    closeBrace stop depth (crlf cs) = (closeBrace stop depth cs).map Cut.crlf := by
  induction cs generalizing depth with
  | nil => rfl
  | cons c cs ih =>
    by_cases hc : c = '\n'
    · subst hc
      simp [closeBrace, hs.1, hs.2, ih, Function.comp_def, Cut.crlf, Cut.push]
    · rw [crlf_cons hc, closeBrace, closeBrace]
      split
      · rfl
      split
      · rw [Option.map_some, Cut.crlf, crlf_cons hc]
        rfl
      · dsimp only
        rw [ih, Option.map_map, Option.map_map]
        congr 1
        funext r
        simp [Cut.crlf_push, crlf_cons hc]

theorem braceGroup_of_head?_ne {stop : Char → Bool} {cs : List Char} (h : cs.head? ≠ some '{') :
    braceGroup stop cs = none := by
  unfold braceGroup
  split
  · exact absurd rfl h
  · rfl

theorem braceGroup_crlf {stop : Char → Bool} (hs : stop '\r' = false ∧ stop '\n' = false)
    (cs : List Char) : braceGroup stop (crlf cs) = (braceGroup stop cs).map Cut.crlf := by
  by_cases h : cs.head? = some '{'
  · obtain ⟨rest, rfl⟩ := List.head?_eq_some_iff.1 h
    rw [crlf_cons (by decide), braceGroup, braceGroup, closeBrace_crlf hs, Option.map_map]
    cases hb : closeBrace stop 0 rest with
    | none => rfl
    | some r =>
      obtain ⟨tail, htail⟩ := List.head?_eq_some_iff.1 (front_append_closeBrace hb).2
      simp [Cut.crlf, htail, crlf_cons]
  · rw [braceGroup_of_head?_ne h, braceGroup_of_head?_ne (mt (Text.head?_crlf (by decide) cs).1 h)]
    rfl

theorem beginsOperator_crlf (c : Char) (rest : List Char) :
    beginsOperator c (crlf rest) = beginsOperator c rest := by
  have h := Text.head?_crlf (c := '=') (by decide) rest
  rw [beginsOperator, beginsOperator, Bool.eq_iff_iff]
  simp [h]

theorem baseName_of_braceGroup {rest : List Char} {g : Cut}
    (h : braceGroup (fun _ => false) rest = some g) :
    baseName ('$' :: rest) = (baseName g.rest).push ('$' :: '{' :: g.front ++ ['}']) := by
  rw [baseName, if_neg (by simp [beginsOperator]), if_neg (by decide), if_pos rfl]
  split
  · rename_i g' hg
    rw [h] at hg
    cases hg
    rfl
  · rename_i hg
    rw [h] at hg
    cases hg

theorem baseName_of_stops {c : Char} {rest : List Char} (hn : isNameChar c = false)
    (hb : c = '$' → braceGroup (fun _ => false) rest = none) : baseName (c :: rest) = ⟨[], c :: rest⟩ := by
  rw [baseName]
  split
  · rfl
  rw [if_neg (by simp [hn])]
  split
  · rename_i hc
    split
    · rename_i g hg
      rw [hb hc] at hg
      cases hg
    · rfl
  · rfl

theorem baseName_crlf (cs : List Char) : baseName (crlf cs) = (baseName cs).crlf := by
  fun_induction baseName cs with
  | case1 => rw [Text.crlf_nil, baseName]; rfl
  | case2 c rest h =>
    have hc : c ≠ '\n' := by
      rintro rfl
      cases h
    rw [crlf_cons hc, baseName, beginsOperator_crlf, if_pos h, Cut.crlf, crlf_cons hc]
    rfl
  | case3 c rest h hn ih =>
    have hc : c ≠ '\n' := by
      rintro rfl
      cases hn
    rw [crlf_cons hc, baseName, beginsOperator_crlf, if_neg h, if_pos hn, ih, Cut.crlf_push,
      crlf_cons hc]
    rfl
  | case4 rest g h _ _ _ ih =>
    have hg : braceGroup (fun _ => false) (crlf rest) = _ := braceGroup_crlf ⟨rfl, rfl⟩ rest
    rw [h, Option.map_some] at hg
    rw [crlf_cons (by decide), baseName_of_braceGroup hg, Cut.crlf_push]
    simp only [Cut.crlf, List.cons_append, crlf_cons (show '$' ≠ '\n' by decide),
      crlf_cons (show '{' ≠ '\n' by decide), Text.crlf_append] at ih ⊢
    rw [ih]
    rfl
  | case5 rest h _ _ =>
    have hg : braceGroup (fun _ => false) (crlf rest) = _ := braceGroup_crlf ⟨rfl, rfl⟩ rest
    rw [h, Option.map_none] at hg
    rw [crlf_cons (by decide), baseName_of_stops (by decide) fun _ => hg, Cut.crlf,
      crlf_cons (by decide)]
    rfl
  | case6 c rest h hn hd =>
    by_cases hc : c = '\n'
    · subst hc
      exact baseName_of_stops (by decide) fun he => absurd he (by decide)
    · rw [crlf_cons hc, baseName_of_stops (by simpa using hn) fun he => absurd he hd, Cut.crlf,
        crlf_cons hc]
      rfl

theorem startsOverride_crlf (cs : List Char) : startsOverride (crlf cs) = startsOverride cs := by
  have hne : ∀ {c : Char} (rest : List Char), c ≠ ':' → startsOverride (c :: rest) = false := by
    intro c rest hc
    unfold startsOverride
    split
    · rename_i heq
      cases heq
      exact absurd rfl hc
    · rfl
  cases cs with
  | nil => rfl
  | cons c cs =>
    by_cases hc : c = ':'
    · subst hc
      have hhead := Text.any_head?_crlf (p := startsName) (by decide) cs
      rw [crlf_cons (by decide)]
      cases cs with
      | nil => rfl
      | cons d cs =>
        obtain ⟨e, es, he⟩ := List.exists_cons_of_ne_nil
          (mt Text.crlf_eq_nil.1 (List.cons_ne_nil d cs))
        rw [he] at hhead ⊢
        exact hhead
    · rw [hne cs hc]
      by_cases hn : c = '\n'
      · subst hn
        rfl
      · rw [crlf_cons hn, hne _ hc]

theorem overrides_crlf (cs : List Char) :
    overrides (crlf cs) = ((overrides cs).1.map crlf, crlf (overrides cs).2) := by
  fun_induction overrides cs with
  | case1 => rw [Text.crlf_nil, overrides]; rfl
  | case2 c rest h _ others ih =>
    have hc : c ≠ '\n' := by
      rintro rfl
      cases h
    have hs := startsOverride_crlf (c :: rest)
    rw [h, crlf_cons hc] at hs
    rw [crlf_cons hc, overrides, if_pos hs, baseName_crlf]
    dsimp only [Cut.crlf]
    rw [ih, List.map_cons]
  | case3 c rest h =>
    have hs := startsOverride_crlf (c :: rest)
    rw [Bool.eq_false_iff.2 h] at hs
    obtain ⟨d, ds, hd⟩ := List.exists_cons_of_ne_nil (mt Text.crlf_eq_nil.1 (List.cons_ne_nil c rest))
    rw [hd] at hs ⊢
    rw [overrides, if_neg (by simp [hs]), List.map_nil]

theorem fullName_crlf (cs : List Char) : fullName (crlf cs) = (fullName cs).crlf := by
  rw [fullName, fullName, baseName_crlf]
  dsimp only [Cut.crlf]
  rw [overrides_crlf, Text.crlf_append, Text.crlf_flatMap, List.flatMap_map]
  rfl

end Recipe.Grammar
