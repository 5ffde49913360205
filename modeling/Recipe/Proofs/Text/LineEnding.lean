import Recipe.Proofs.Text.Blank
import Recipe.Proofs.Text.LineTable

/-!
# Line endings

`Text.crlf` ends the lines of a text with a carriage return and a line feed. Both characters are
blank, so a text is trimmed alike with either ending (`splitTrim_crlf`). The lines but the last get a
carriage return (`lines_crlf`), which moves no position (`Cursor.position_advance_crlf`).
-/

namespace Recipe

namespace Text

/-- The text with a carriage return before every line feed. -/
def crlf (cs : List Char) : List Char :=
  cs.flatMap fun c => if c = '\n' then ['\r', '\n'] else [c]

@[simp] theorem crlf_nil : crlf [] = [] := rfl

@[simp] theorem crlf_lineFeed (cs : List Char) : crlf ('\n' :: cs) = '\r' :: '\n' :: crlf cs := rfl

theorem crlf_cons {c : Char} (h : c ≠ '\n') (cs : List Char) : crlf (c :: cs) = c :: crlf cs := by
  rw [crlf, List.flatMap_cons, if_neg h, List.singleton_append, ← crlf]

@[simp] theorem crlf_append (cs ds : List Char) : crlf (cs ++ ds) = crlf cs ++ crlf ds :=
  List.flatMap_append

theorem crlf_flatMap {α : Type} (f : α → List Char) (xs : List α) :
    crlf (xs.flatMap f) = xs.flatMap fun x => crlf (f x) :=
  List.flatMap_assoc

theorem crlf_of_not_mem {cs : List Char} (h : '\n' ∉ cs) : crlf cs = cs := by
  induction cs with
  | nil => rfl
  | cons c cs ih =>
    rw [List.mem_cons, not_or] at h
    rw [crlf_cons (Ne.symm h.1), ih h.2]

@[simp] theorem crlf_eq_nil {cs : List Char} : crlf cs = [] ↔ cs = [] := by
  cases cs with
  | nil => simp
  | cons c cs =>
    by_cases hc : c = '\n'
    · simp [hc]
    · simp [crlf_cons hc]

@[simp] theorem isEmpty_crlf (cs : List Char) : (crlf cs).isEmpty = cs.isEmpty := by
  rw [Bool.eq_iff_iff, List.isEmpty_iff, List.isEmpty_iff, crlf_eq_nil]

theorem bytes_le_crlf (cs : List Char) : bytes cs ≤ bytes (crlf cs) := by
  induction cs with
  | nil => exact Nat.le_refl _
  | cons c cs ih =>
    by_cases hc : c = '\n'
    · subst hc
      simp only [crlf_lineFeed, bytes_cons]
      omega
    · simp only [crlf_cons hc, bytes_cons]
      omega

/-! ## The first characters -/

theorem any_head?_crlf {p : Char → Bool} (h : p '\r' = p '\n') (cs : List Char) :
    (crlf cs).head?.any p = cs.head?.any p := by
  cases cs with
  | nil => rfl
  | cons c cs =>
    by_cases hc : c = '\n'
    · subst hc
      exact h
    · rw [crlf_cons hc]
      rfl

/-- With CRLF endings a text begins with `c` exactly if it does so with LF endings, for a `c` that
is neither of the two characters. -/
theorem head?_crlf {c : Char} (h : c ≠ '\r' ∧ c ≠ '\n') (cs : List Char) :
    (crlf cs).head? = some c ↔ cs.head? = some c := by
  cases cs with
  | nil => rfl
  | cons d cs =>
    by_cases hd : d = '\n'
    · subst hd
      simp [Ne.symm h.1, Ne.symm h.2]
    · rw [crlf_cons hd]
      rfl

theorem head?_crlf_ne (cs : List Char) : (crlf cs).head? ≠ some '\n' := by
  cases cs with
  | nil => simp
  | cons c cs =>
    by_cases hc : c = '\n'
    · simp [hc]
    · simpa [crlf_cons hc] using hc

/-- Texts that are equal with CRLF endings are equal. -/
theorem crlf_injective {cs ds : List Char} (h : crlf cs = crlf ds) : cs = ds := by
  induction cs generalizing ds with
  | nil => exact (crlf_eq_nil.1 h.symm).symm
  | cons c cs ih =>
    cases ds with
    | nil => exact absurd (crlf_eq_nil.1 h) (List.cons_ne_nil _ _)
    | cons d ds =>
      -- A line feed stands in one of the two only if a line feed begins the rest of the other.
      by_cases hc : c = '\n' <;> by_cases hd : d = '\n'
      · subst hc hd
        simp only [crlf_lineFeed, List.cons.injEq, true_and] at h
        rw [ih h]
      · subst hc
        rw [crlf_lineFeed, crlf_cons hd, List.cons.injEq] at h
        exact absurd (by rw [← h.2]; rfl) (head?_crlf_ne ds)
      · subst hd
        rw [crlf_lineFeed, crlf_cons hc, List.cons.injEq] at h
        exact absurd (by rw [h.2]; rfl) (head?_crlf_ne cs)
      · rw [crlf_cons hc, crlf_cons hd, List.cons.injEq] at h
        rw [h.1, ih h.2]

theorem crlf_eq_iff {cs ds : List Char} (h : '\n' ∉ ds) : crlf cs = ds ↔ cs = ds := by
  constructor
  · intro hc
    exact crlf_injective (hc.trans (crlf_of_not_mem h).symm)
  · rintro rfl
    exact crlf_of_not_mem h

/-! ## Trimming -/

section

variable {p : Char → Bool} (h : p '\r' = p '\n')

include h

theorem takeWhile_crlf (cs : List Char) : (crlf cs).takeWhile p = crlf (cs.takeWhile p) := by
  induction cs with
  | nil => rfl
  | cons c cs ih =>
    by_cases hc : c = '\n'
    · subst hc
      cases hp : p '\n' with
      | false => simp [h, hp]
      | true => simp [h, hp, ih]
    · rw [crlf_cons hc]
      cases hp : p c with
      | false => simp [hp]
      | true => simp [hp, crlf_cons hc, ih]

theorem dropWhile_crlf (cs : List Char) : (crlf cs).dropWhile p = crlf (cs.dropWhile p) := by
  have hcrlf := (crlf cs).takeWhile_append_dropWhile (p := p)
  have hcs := congrArg crlf (cs.takeWhile_append_dropWhile (p := p))
  rw [takeWhile_crlf h] at hcrlf
  rw [crlf_append] at hcs
  exact List.append_cancel_left (hcrlf.trans hcs.symm)

end

theorem trimEnd_crlf (cs : List Char) : trimEnd (crlf cs) = crlf (trimEnd cs) := by
  induction cs with
  | nil => rfl
  | cons c cs ih =>
    -- What is left of the rest is empty with both endings or with none.
    have hunit : ∀ u : List Char, trimEnd (u ++ crlf cs)
        = if trimEnd cs = [] then trimEnd u else u ++ trimEnd (crlf cs) := by
      intro u
      split
      · rename_i hb
        exact trimEnd_append_blank u (trimEnd_eq_nil.1 (by rw [ih, hb]; rfl))
      · rename_i hb
        exact trimEnd_append u (by rw [ih]; exact fun he => hb (crlf_eq_nil.1 he))
    have hcs : trimEnd (c :: cs) = if trimEnd cs = [] then trimEnd [c] else c :: trimEnd cs := by
      split
      · rename_i hb
        exact trimEnd_append_blank [c] (trimEnd_eq_nil.1 hb)
      · rename_i hb
        exact trimEnd_append [c] hb
    by_cases hc : c = '\n'
    · subst hc
      rw [hcs, crlf_lineFeed]
      refine (hunit ['\r', '\n']).trans ?_
      split
      · rfl
      · rw [ih]
        rfl
    · rw [hcs, crlf_cons hc]
      refine (hunit [c]).trans ?_
      split
      · show (if isBlank c then [] else [c]) = crlf (if isBlank c then [] else [c])
        split
        · rfl
        · exact (crlf_cons hc []).symm
      · rw [ih, crlf_cons hc]
        rfl

theorem trailing_crlf (cs : List Char) : trailing (crlf cs) = crlf (trailing cs) := by
  have hcrlf := trimEnd_append_trailing (crlf cs)
  have hcs := congrArg crlf (trimEnd_append_trailing cs)
  rw [trimEnd_crlf] at hcrlf
  rw [crlf_append] at hcs
  exact List.append_cancel_left (hcrlf.trans hcs.symm)

/-- The parts of a trimmed text with carriage returns. -/
def Trimmed.crlf (t : Trimmed) : Trimmed :=
  ⟨Text.crlf t.before, Text.crlf t.core, Text.crlf t.after⟩

theorem splitTrim_crlf (cs : List Char) : splitTrim (crlf cs) = (splitTrim cs).crlf := by
  have hb : isBlank '\r' = isBlank '\n' := by decide
  rw [splitTrim, trimStart, takeWhile_crlf hb, dropWhile_crlf hb, trimEnd_crlf, trailing_crlf]
  rfl

theorem trimString_crlf {s t : String} (h : t.toList = crlf s.toList) :
    (trimString t).toList = crlf (trimString s).toList := by
  have hb : isBlank '\r' = isBlank '\n' := by decide
  rw [trimString, trimString, String.toList_ofList, String.toList_ofList, h, trim, trimStart,
    dropWhile_crlf hb, trimEnd_crlf]
  rfl

/-! ## Lines -/

/-- A carriage return at the end of every line but the last. -/
def returned : List (List Char) → List (List Char)
  | [] => []
  | [l] => [l]
  | l :: m :: ls => (l ++ ['\r']) :: returned (m :: ls)

theorem lines_crlf (cs : List Char) : lines (crlf cs) = returned (lines cs) := by
  induction cs with
  | nil => rfl
  | cons c cs ih =>
    obtain ⟨l, ls, hl⟩ := List.exists_cons_of_ne_nil (lines_ne_nil cs)
    rw [hl] at ih
    rw [lines_cons hl]
    by_cases hc : c = '\n'
    · subst hc
      rw [crlf_lineFeed, if_pos rfl, returned, ← ih]
      exact lines_append_lineFeed (l := ['\r']) (by decide) (crlf cs)
    · rw [if_neg hc, crlf_cons hc]
      cases ls with
      | nil =>
        rw [lines_cons ih, if_neg hc]
        rfl
      | cons m ls =>
        rw [lines_cons ih, if_neg hc]
        rfl

theorem subset_of_mem_lines {cs l : List Char} (h : l ∈ lines cs) : l ⊆ cs := by
  induction cs generalizing l with
  | nil =>
    rw [List.mem_singleton.1 h]
    exact List.Subset.refl _
  | cons c cs ih =>
    obtain ⟨m, ms, hm⟩ := List.exists_cons_of_ne_nil (lines_ne_nil cs)
    rw [lines_cons hm] at h
    rw [hm] at ih
    split at h
    · rcases List.mem_cons.1 h with rfl | h
      · exact List.nil_subset _
      · exact List.subset_cons_of_subset c (ih h)
    · rcases List.mem_cons.1 h with rfl | h
      · exact List.cons_subset_cons c (ih List.mem_cons_self)
      · exact List.subset_cons_of_subset c (ih (List.mem_cons_of_mem m h))

end Text

/-! ## Positions -/

/-- A cursor goes from one position to the same with either ending. -/
theorem Cursor.position_advance_crlf {a b : Cursor} (h : a.position = b.position) (cs : List Char) :
    (a.advance (Text.crlf cs)).position = (b.advance cs).position := by
  induction cs generalizing a b with
  | nil => exact h
  | cons c cs ih =>
    by_cases hc : c = '\n'
    · subst hc
      rw [Text.crlf_lineFeed, advance_cons, advance_cons, advance_cons]
      refine ih ?_
      simp [step, h]
    · rw [Text.crlf_cons hc, advance_cons, advance_cons]
      refine ih ?_
      simp [step, hc, h]

end Recipe
