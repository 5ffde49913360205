import Recipe.Text.Blank

/-!
# Trimming

Trimming takes blanks off the ends of a text and nothing else: what is taken off is blank
(`all_trailing`), and together with the core it is the text (`trimEnd_append_trailing`,
`splitTrim_append`). A text without a core is blank (`all_of_core_eq_nil`), and a core neither begins
nor ends with a blank (`head?_core`, `getLast?_core`).
-/

namespace Recipe.Text

/-! ## The end of a text -/

theorem trimEnd_append_trailing (cs : List Char) : trimEnd cs ++ trailing cs = cs := by
  induction cs with
  | nil => rfl
  | cons c cs ih =>
    rw [trailing, trimEnd]
    cases ht : trimEnd cs with
    | nil =>
      by_cases hc : isBlank c
      · simp [hc]
      · simp [hc]
    | cons d ds =>
      rw [trailing, ht] at ih
      simpa using ih

theorem trimEnd_eq_nil {cs : List Char} : trimEnd cs = [] ↔ cs.all isBlank = true := by
  induction cs with
  | nil => simp [trimEnd]
  | cons c cs ih =>
    rw [trimEnd]
    cases ht : trimEnd cs with
    | nil =>
      rw [List.all_cons, ih.1 ht]
      by_cases hc : isBlank c <;> simp [hc]
    | cons d ds =>
      have : cs.all isBlank ≠ true := fun h => by simp [ih.2 h] at ht
      simp [this]

/-- The last character of a trimmed text is not blank. -/
theorem getLast?_trimEnd {cs : List Char} {c : Char} (h : (trimEnd cs).getLast? = some c) :
    isBlank c = false := by
  induction cs with
  | nil => simp [trimEnd] at h
  | cons d cs ih =>
    rw [trimEnd] at h
    cases ht : trimEnd cs with
    | nil =>
      rw [ht] at h
      by_cases hd : isBlank d
      · simp [hd] at h
      · simp only [hd, Bool.false_eq_true, if_false, List.getLast?_singleton, Option.some.injEq] at h
        simpa [← h] using hd
    | cons e es =>
      rw [ht] at h ih
      exact ih (by simpa using h)

theorem all_trailing (cs : List Char) : (trailing cs).all isBlank = true := by
  induction cs with
  | nil => rfl
  | cons c cs ih =>
    rw [trailing, trimEnd]
    cases ht : trimEnd cs with
    | nil =>
      have hcs := trimEnd_eq_nil.1 ht
      by_cases hc : isBlank c
      · simpa [hc] using hcs
      · simpa [hc] using hcs
    | cons d ds =>
      rw [trailing, ht] at ih
      simpa using ih

theorem trimEnd_append (cs : List Char) {ds : List Char} (h : trimEnd ds ≠ []) :
    trimEnd (cs ++ ds) = cs ++ trimEnd ds := by
  induction cs with
  | nil => rfl
  | cons c cs ih =>
    obtain ⟨d, es, he⟩ := List.exists_cons_of_ne_nil (List.append_ne_nil_of_right_ne_nil cs h)
    rw [List.cons_append, trimEnd, ih, he]
    exact (congrArg (c :: ·) he).symm

/-- Blanks after a text are trimmed with those at its end. -/
theorem trimEnd_append_blank (cs : List Char) {ds : List Char} (h : ds.all isBlank = true) :
    trimEnd (cs ++ ds) = trimEnd cs := by
  induction cs with
  | nil => exact trimEnd_eq_nil.2 h
  | cons c cs ih => rw [List.cons_append, trimEnd, ih, trimEnd]

/-! ## Both ends -/

theorem splitTrim_append (cs : List Char) :
    (splitTrim cs).before ++ ((splitTrim cs).core ++ (splitTrim cs).after) = cs := by
  simp only [splitTrim, trimEnd_append_trailing]
  exact List.takeWhile_append_dropWhile

theorem all_before (cs : List Char) : (splitTrim cs).before.all isBlank = true :=
  List.all_takeWhile

theorem all_after (cs : List Char) : (splitTrim cs).after.all isBlank = true :=
  all_trailing _

/-- A text without a core is blank. -/
theorem all_of_core_eq_nil {cs : List Char} (h : (splitTrim cs).core = []) :
    cs.all isBlank = true := by
  rw [← splitTrim_append cs, h, List.nil_append, List.all_append, all_before, all_after]
  rfl

theorem core_eq_nil {cs : List Char} (h : cs.all isBlank = true) : (splitTrim cs).core = [] :=
  trimEnd_eq_nil.2 (List.all_eq_true.2 fun c hc =>
    List.all_eq_true.1 h c ((List.dropWhile_sublist isBlank).subset hc))

/-- Blanks after a text do not change its core, nor where the core begins. -/
theorem splitTrim_append_blank (cs : List Char) {ds : List Char} (h : ds.all isBlank = true) :
    (splitTrim (cs ++ ds)).core = (splitTrim cs).core ∧
      ((splitTrim cs).core ≠ [] → (splitTrim (cs ++ ds)).before = (splitTrim cs).before) := by
  induction cs with
  | nil => exact ⟨core_eq_nil h, fun hne => absurd rfl hne⟩
  | cons c cs ih =>
    unfold splitTrim trimStart at ih ⊢
    dsimp only at ih ⊢
    rw [List.cons_append]
    by_cases hc : isBlank c = true
    · rw [List.dropWhile_cons_of_pos hc, List.dropWhile_cons_of_pos hc, List.takeWhile_cons_of_pos hc,
        List.takeWhile_cons_of_pos hc]
      exact ⟨ih.1, fun hne => congrArg (c :: ·) (ih.2 hne)⟩
    · rw [List.dropWhile_cons_of_neg hc, List.dropWhile_cons_of_neg hc, List.takeWhile_cons_of_neg hc,
        List.takeWhile_cons_of_neg hc, ← List.cons_append]
      exact ⟨trimEnd_append_blank (c :: cs) h, fun _ => rfl⟩

/-- The last character of a core is not blank. -/
theorem getLast?_core {cs : List Char} {c : Char} (h : (splitTrim cs).core.getLast? = some c) :
    isBlank c = false :=
  getLast?_trimEnd h

/-- The first character of a core is not blank. -/
theorem head?_core {cs : List Char} {c : Char} (h : (splitTrim cs).core.head? = some c) :
    isBlank c = false := by
  have hsplit : (splitTrim cs).core ++ (splitTrim cs).after = cs.dropWhile isBlank :=
    trimEnd_append_trailing _
  have hhead : (cs.dropWhile isBlank).head? = some c := by
    rw [← hsplit, List.head?_append, h]
    rfl
  have := List.head?_dropWhile_not isBlank cs
  simpa [hhead] using this

/-- What is trimmed off a text that ends with a blank is not empty. -/
theorem after_ne_nil {cs : List Char} {c : Char} (hc : cs.getLast? = some c)
    (hb : isBlank c = true) (h : (splitTrim cs).core ≠ []) : (splitTrim cs).after ≠ [] := by
  intro ha
  have hsplit := splitTrim_append cs
  rw [ha, List.append_nil] at hsplit
  have hl := List.getLast?_eq_some_getLast h
  rw [← hsplit, List.getLast?_append, hl, Option.some_or, Option.some.injEq] at hc
  have := getLast?_core hl
  rw [hc, hb] at this
  cases this

end Recipe.Text
