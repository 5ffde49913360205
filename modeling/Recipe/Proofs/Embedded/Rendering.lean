import Recipe.Proofs.Embedded.Body

/-!
# What text and range tell of a mapping

A document remembers the text and the range of its region. Together they tell how much of each line
was stripped, except on blank lines (`Region.mapping_agrees`): the last line of a region that loses
its indentation is not blank, so its width in the host gives the indentation that every line which
is not blank has lost. A blank line may have less than that to lose, and its rendering is empty
either way.
-/

namespace Recipe

open Text (bytes isBlank)

namespace Rendering

/-! ## Cutting one line -/

/-- Each character of the indentation is a blank of one byte. -/
theorem drop_indentation {l : List Char} {n : Nat} (h : n ≤ indentation l) :
    bytes l = n + bytes (l.drop n) ∧ l.all isBlank = (l.drop n).all isBlank := by
  induction l generalizing n with
  | nil =>
    obtain rfl : n = 0 := Nat.le_zero.1 h
    simp
  | cons c l ih =>
    cases n with
    | zero => simp
    | succ n =>
      rw [indentation, List.takeWhile_cons] at h
      split at h
      · rename_i hc
        obtain ⟨hb, ha⟩ := ih (Nat.le_of_succ_le_succ h)
        have hone : c.utf8Size = 1 ∧ isBlank c = true := by
          simp only [Bool.or_eq_true, beq_iff_eq] at hc
          rcases hc with rfl | rfl <;> exact ⟨by decide, by decide⟩
        rw [List.drop_succ_cons, ← ha, Text.bytes_cons, hone.1, hb, List.all_cons, hone.2]
        exact ⟨by omega, Bool.true_and _⟩
      · exact absurd h (by simp)

theorem bytes_drop_cut (indent : Nat) (l : List Char) :
    bytes l = cut indent l + bytes (l.drop (cut indent l)) :=
  (drop_indentation (Nat.min_le_left _ _)).1

theorem all_isBlank_drop_cut (indent : Nat) (l : List Char) :
    (l.drop (cut indent l)).all isBlank = l.all isBlank :=
  (drop_indentation (Nat.min_le_left _ _)).2.symm

/-! ## Cutting the lines of a region -/

/-- What the lines of a region after its first lose. -/
def indent (dedent : Bool) (ls : List (List Char)) : Nat :=
  if dedent then commonIndentation ls else 0

/-- The lines of a region after its first as they are shown. -/
def shown (dedent : Bool) (ls : List (List Char)) : List (List Char) :=
  ls.map fun m => m.drop (cut (indent dedent ls) m)

theorem ofLines_cons (start : Position) (dedent : Bool) (l : List Char) (ls : List (List Char)) :
    ofLines start dedent (l :: ls)
      = ⟨String.ofList (List.intercalate ['\n'] (l :: shown dedent ls)),
          ⟨start, start.column :: ls.map (cut (indent dedent ls))⟩⟩ :=
  rfl

theorem commonIndentation_le {ls : List (List Char)} {l : List Char} (h : l ∈ ls)
    (hb : l.all isBlank = false) : commonIndentation ls ≤ indentation l := by
  have hm : indentation l ∈ (ls.filter fun l => !l.all isBlank).map indentation :=
    List.mem_map_of_mem (List.mem_filter.2 ⟨h, by rw [hb]; rfl⟩)
  unfold commonIndentation
  cases hmin : ((ls.filter fun l => !l.all isBlank).map indentation).min? with
  | none =>
    rw [List.min?_eq_none_iff] at hmin
    rw [hmin] at hm
    cases hm
  | some n => exact (List.min?_eq_some_iff.1 hmin).2 _ hm

/-- A line that is not blank loses all of the indentation. -/
theorem cut_indent {dedent : Bool} {ls : List (List Char)} {l : List Char} (h : l ∈ ls)
    (hb : dedent = true → l.all isBlank = false) :
    cut (indent dedent ls) l = indent dedent ls := by
  cases dedent with
  | false => exact Nat.min_zero _
  | true => exact Nat.min_eq_right (commonIndentation_le h (hb rfl))

/-- Lines that are shown alike lose the same indentation if their last ones have the same width in
the host and are not blank where they are dedented. -/
theorem indent_eq_of_shown_eq {a b : Bool} {ls ms : List (List Char)}
    (hs : shown a ls = shown b ms)
    (hw : ls.getLast?.map bytes = ms.getLast?.map bytes)
    (ha : a = true → ∀ l, ls.getLast? = some l → l.all isBlank = false)
    (hb : b = true → ∀ m, ms.getLast? = some m → m.all isBlank = false) (hne : ls ≠ []) :
    indent a ls = indent b ms := by
  have hlast : ls.getLast? = some (ls.getLast hne) := List.getLast?_eq_some_getLast hne
  generalize ls.getLast hne = l at hlast
  have hshown := congrArg List.getLast? hs
  rw [hlast, Option.map_some] at hw
  obtain ⟨m, hm, hw⟩ := Option.map_eq_some_iff.1 hw.symm
  rw [shown, shown, List.getLast?_map, List.getLast?_map, hlast, hm, Option.map_some,
    Option.map_some, Option.some.injEq] at hshown
  have hl := bytes_drop_cut (indent a ls) l
  have hm' := bytes_drop_cut (indent b ms) m
  have hcl := cut_indent (List.mem_of_getLast? hlast) fun h => ha h l hlast
  have hcm := cut_indent (List.mem_of_getLast? hm) fun h => hb h m hm
  rw [hshown] at hl
  omega

/-- If lines are shown alike and lose the same indentation, the same is cut off line `i` of both, unless
it is shown blank. -/
theorem getElem?_map_cut {a b : Bool} {ls ms : List (List Char)} (hs : shown a ls = shown b ms)
    (hi : ls ≠ [] → indent a ls = indent b ms) {i : Nat}
    (hb : (shown a ls)[i]?.any (·.all isBlank) = false) :
    (ls.map (cut (indent a ls)))[i]? = (ms.map (cut (indent b ms)))[i]? := by
  have hlen : ls.length = ms.length := by simpa [shown] using congrArg List.length hs
  by_cases hl : i < ls.length
  · have hm : i < ms.length := hlen ▸ hl
    have hline : (shown a ls)[i]? = some (ls[i].drop (cut (indent a ls) ls[i])) := by
      simp [shown, hl]
    have hline' : (shown b ms)[i]? = some (ms[i].drop (cut (indent b ms) ms[i])) := by
      simp [shown, hm]
    have hbl : ls[i].all isBlank = false := by
      rwa [hline, Option.any_some, all_isBlank_drop_cut] at hb
    have hbm : ms[i].all isBlank = false := by
      rwa [hs, hline', Option.any_some, all_isBlank_drop_cut] at hb
    rw [List.getElem?_map, List.getElem?_map, List.getElem?_eq_getElem hl,
      List.getElem?_eq_getElem hm, Option.map_some, Option.map_some,
      cut_indent (List.getElem_mem hl) fun _ => hbl,
      cut_indent (List.getElem_mem hm) fun _ => hbm, hi (List.ne_nil_of_length_pos (by omega))]
  · rw [List.getElem?_eq_none (by simpa using hl), List.getElem?_eq_none (by simpa [← hlen] using hl)]

/-- The lines of a rendered text are the first line of the region and the others as shown. -/
theorem lines_text {body l : List Char} {ls : List (List Char)} (h : Text.lines body = l :: ls)
    (start : Position) (dedent : Bool) :
    Text.lines (ofLines start dedent (l :: ls)).text.toList = l :: shown dedent ls := by
  rw [ofLines_cons, String.toList_ofList]
  refine Text.lines_intercalate fun m hm => ?_
  rcases List.mem_cons.1 hm with rfl | hm
  · exact Text.not_mem_of_mem_lines (h ▸ List.mem_cons_self)
  · obtain ⟨n, hn, rfl⟩ := List.mem_map.1 hm
    have hn' : '\n' ∉ n := Text.not_mem_of_mem_lines (h ▸ List.mem_cons_of_mem l hn)
    exact fun hd => hn' (List.mem_of_mem_drop hd)

end Rendering

/-- The last of several lines of a text that ends with no blank is not blank. -/
theorem Text.EndsSolid.last_line {body l : List Char} {ls : List (List Char)}
    (h : EndsSolid body) (hl : lines body = l :: ls) {m : List Char} (hm : ls.getLast? = some m) :
    m.all isBlank = false := by
  obtain ⟨c, hc, hb⟩ := h
  have hne : c ≠ '\n' := by
    rintro rfl
    exact absurd hb (by decide)
  obtain ⟨n, hn, hnc⟩ := getLast?_lines hc hne
  rw [hl, List.getLast?_cons, hm, Option.getD_some, Option.some.injEq] at hn
  subst hn
  rw [List.all_eq_false]
  exact ⟨c, List.mem_of_getLast? hnc, by simp [hb]⟩

/-- Equal ranges of bodies with as many lines have last lines of equal width. -/
theorem Range.Covers.bytes_last_line {r : Range} {source source' body body' : List Char}
    (h : r.Covers source body) (h' : r.Covers source' body') {l l' : List Char}
    {ls ls' : List (List Char)} (hl : Text.lines body = l :: ls) (hl' : Text.lines body' = l' :: ls')
    (hlen : ls.length = ls'.length) : ls.getLast?.map bytes = ls'.getLast?.map bytes := by
  obtain ⟨pre, post, -, rfl⟩ := h
  obtain ⟨pre', post', -, heq⟩ := h'
  have hstop := congrArg Range.stop heq
  rw [Cursor.rangeTo, Cursor.rangeTo, ← Cursor.advance_after, ← Cursor.advance_after,
    Cursor.position_advance _ hl, Cursor.position_advance _ hl'] at hstop
  cases hm : ls.getLast? with
  | none =>
    rw [List.getLast?_eq_none_iff] at hm
    have hnil : ls' = [] := List.eq_nil_of_length_eq_zero (by rw [← hlen, hm]; rfl)
    rw [hnil]
    rfl
  | some m =>
    cases hm' : ls'.getLast? with
    | none =>
      rw [List.getLast?_eq_none_iff] at hm'
      have hnil : ls = [] := List.eq_nil_of_length_eq_zero (by rw [hlen, hm']; rfl)
      rw [hnil] at hm
      cases hm
    | some m' =>
      rw [hm, hm'] at hstop
      exact congrArg some (congrArg Position.column hstop)

/-- Whether a text has a line of some number and that line is blank. -/
def Text.isBlankLine (cs : List Char) (i : Nat) : Bool :=
  (lines cs)[i]?.any (·.all isBlank)

/-- Text and range tell the mapping of a region, except on blank lines. -/
theorem Region.mapping_agrees {source source' : String} {r r' : Region} (h : r.Placed source)
    (h' : r'.Placed source') (hr : r.range = r'.range)
    (ht : (r.render source).text = (r'.render source').text) :
    (r.render source).mapping.start = (r'.render source').mapping.start ∧
      ∀ i, Text.isBlankLine (r.render source).text.toList i = false →
        (r.render source).mapping.stripped[i]? = (r'.render source').mapping.stripped[i]? := by
  obtain ⟨body, hc, hd⟩ := h
  obtain ⟨body', hc', hd'⟩ := h'
  obtain ⟨l, ls, hl⟩ := List.exists_cons_of_ne_nil (Text.lines_ne_nil body)
  obtain ⟨l', ls', hl'⟩ := List.exists_cons_of_ne_nil (Text.lines_ne_nil body')
  have hlines := congrArg (fun t => Text.lines t.toList) ht
  simp only [Text.isBlankLine, render_eq hc, render_eq hc', hl, hl', Rendering.lines_text hl,
    Rendering.lines_text hl', List.cons.injEq] at hlines ⊢
  have hlen : ls.length = ls'.length := by
    simpa [Rendering.shown] using congrArg List.length hlines.2
  have hw := hc.bytes_last_line (hr ▸ hc') hl hl' hlen
  have hindent := Rendering.indent_eq_of_shown_eq hlines.2 hw
    (fun h m hm => (hd h).last_line hl hm) (fun h m hm => (hd' h).last_line hl' hm)
  simp only [Rendering.ofLines_cons, hr, true_and]
  intro i hb
  cases i with
  | zero => rfl
  | succ i =>
    rw [List.getElem?_cons_succ] at hb
    rw [List.getElem?_cons_succ, List.getElem?_cons_succ]
    exact Rendering.getElem?_map_cut hlines.2 hindent hb

end Recipe
