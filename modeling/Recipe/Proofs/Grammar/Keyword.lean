import Mathlib.Data.List.TakeWhile
import Recipe.Proofs.Grammar.Reading
import Recipe.Proofs.Grammar.Task

/-!
# Keywords of statements

Whether a text begins with a keyword is decided by the name characters that it begins with
(`keyword?_eq`). A logical line whose leading word is no keyword is an assignment or an error
(`read_of_not_mem`). With a keyword it is an assignment only if the keyword is one of the table of
directives and an operator follows it (`read_of_operator`, `kind?_read_ne`).
-/

namespace Recipe.Grammar

open Text (isBlank)

theorem isBlank_of_isAlphanum {c : Char} (h : c.isAlphanum = true) : isBlank c = false := by
  have hrange : (65 ≤ c.toNat ∧ c.toNat ≤ 90) ∨ (97 ≤ c.toNat ∧ c.toNat ≤ 122) ∨
      (48 ≤ c.toNat ∧ c.toNat ≤ 57) := by
    have hcodes : (decide (c.val ≥ 'A'.val ∧ c.val ≤ 'Z'.val)
        || decide (c.val ≥ 'a'.val) && decide (c.val ≤ 'z'.val)
        || decide (c.val ≥ '0'.val) && decide (c.val ≤ '9'.val)) = true := h
    simpa [UInt32.le_iff_toNat_le, or_assoc] using hcodes
  simp [isBlank, Text.blankRanges]
  omega

theorem isBlank_of_startsName {c : Char} (h : startsName c = true) : isBlank c = false := by
  simp only [startsName, isNameChar, Bool.or_eq_true, List.contains_iff_mem, beq_iff_eq] at h
  rcases h with (h | h) | rfl
  · exact isBlank_of_isAlphanum h
  · have hmarks : ['_', '-', '.', '+', '/', '~'].all (fun d => !isBlank d) = true := by decide
    simpa using List.all_eq_true.1 hmarks c h
  · decide

/-- The name characters at the beginning of a text. -/
def leadingWord (cs : List Char) : List Char :=
  cs.takeWhile isNameChar

/-- The text after its leading word. -/
def afterWord (cs : List Char) : List Char :=
  cs.dropWhile isNameChar

/-- The keywords that begin statements. -/
def statementWords : List String :=
  "export" :: Directive.exportFunctions.word :: Directive.table.map (·.word)

theorem all_statementWords : ∀ w ∈ statementWords, w.toList.all isNameChar = true := by
  decide

theorem leadingWord_append (cs : List Char) {rest : List Char}
    (hr : rest.head?.any isNameChar = false) : leadingWord (cs ++ rest) = leadingWord cs := by
  unfold leadingWord
  induction cs with
  | nil =>
    cases rest with
    | nil => rfl
    | cons c rest => exact List.takeWhile_cons_of_neg (by simpa using hr)
  | cons c cs ih => rw [List.cons_append, List.takeWhile_cons, List.takeWhile_cons, ih]

theorem afterWord_append {w rest : List Char} (hw : w.all isNameChar = true)
    (hr : rest.head?.any isNameChar = false) : afterWord (w ++ rest) = rest := by
  rw [afterWord, List.dropWhile_append_of_pos (List.all_eq_true.1 hw)]
  cases rest with
  | nil => rfl
  | cons c rest => exact List.dropWhile_cons_of_neg (by simpa using hr)

theorem leadingWord_of_all {w : List Char} (hw : w.all isNameChar = true) : leadingWord w = w :=
  List.takeWhile_eq_self_iff.2 (List.all_eq_true.1 hw)

theorem head?_afterWord (cs : List Char) : (afterWord cs).head?.any isNameChar = false := by
  rw [afterWord]
  induction cs with
  | nil => rfl
  | cons c cs ih =>
    by_cases hc : isNameChar c = true
    · rwa [List.dropWhile_cons_of_pos hc]
    · rw [List.dropWhile_cons_of_neg hc]
      simpa using hc

/-- `keyword? s` succeeds exactly if `s` is the leading word of `cs`, and leaves what stands after
that word. -/
theorem keyword?_eq {s : String} (hs : s.toList.all isNameChar = true) (cs : List Char) :
    keyword? s cs = if leadingWord cs = s.toList then some (afterWord cs) else none := by
  split
  · rename_i hword
    have hcs : s.toList ++ afterWord cs = cs := by
      rw [← hword]
      exact List.takeWhile_append_dropWhile
    have hdrop : (s.toList ++ afterWord cs).drop s.toList.length = afterWord cs := List.drop_left
    rw [hcs] at hdrop
    rw [keyword?, literal?, if_pos (List.isPrefixOf_iff_prefix.2 ⟨_, hcs⟩), hdrop,
      Option.filter_some, head?_afterWord]
    rfl
  · rename_i hword
    refine Option.eq_none_iff_forall_ne_some.2 fun rest h => hword ?_
    have hend := (Option.filter_eq_some_iff.1 h).2
    rw [Bool.not_eq_true'] at hend
    rw [eq_append_of_keyword? h, leadingWord_append _ hend, leadingWord_of_all hs]

theorem keyword?_of_ne {s : String} (hs : s ∈ statementWords) {cs : List Char}
    (h : leadingWord cs ≠ s.toList) : keyword? s cs = none := by
  rw [keyword?_eq (all_statementWords s hs), if_neg h]

theorem keyword?_of_eq {s : String} (hs : s ∈ statementWords) {cs : List Char}
    (h : leadingWord cs = s.toList) : keyword? s cs = some (afterWord cs) := by
  rw [keyword?_eq (all_statementWords s hs), if_pos h]

theorem word_mem_statementWords {d : Directive} (h : d ∈ Directive.table) : d.word ∈ statementWords :=
  List.mem_cons_of_mem _ (List.mem_cons_of_mem _ (List.mem_map_of_mem h))

theorem Directive.word_injective :
    ∀ d ∈ table, ∀ e ∈ table, d.word = e.word → d = e := by
  decide

theorem Directive.find?_of_mem {d : Directive} (hd : d ∈ table) {cs : List Char}
    (h : leadingWord cs = d.word.toList) : find? cs = some (d, afterWord cs) := by
  obtain ⟨front, back, htable, hfirst⟩ := List.eq_append_cons_of_mem hd
  refine List.findSome?_eq_some_iff.2 ⟨front, d, back, htable, ?_, fun e he => ?_⟩
  · rw [keyword?_of_eq (word_mem_statementWords hd) h, Option.map_some]
  · have hmem : e ∈ table := htable ▸ List.mem_append_left _ he
    have hne : leadingWord cs ≠ e.word.toList := by
      intro heq
      have hwords : e.word = d.word := String.toList_injective (heq.symm.trans h)
      exact hfirst (word_injective e hmem d hd hwords ▸ he)
    rw [keyword?_of_ne (word_mem_statementWords hmem) hne, Option.map_none]

namespace Statement

/-- A logical line whose leading word is none of the keywords is read by `readAssignment`. -/
theorem read_of_not_mem {cs : List Char} (h : ∀ w ∈ statementWords, leadingWord cs ≠ w.toList) :
    read cs = readAssignment cs := by
  have hnone : ∀ w ∈ statementWords, keyword? w cs = none := fun w hw => keyword?_of_ne hw (h w hw)
  have hfind : Directive.find? cs = none := by
    refine List.findSome?_eq_none_iff.2 fun d hd => ?_
    rw [hnone d.word (word_mem_statementWords hd), Option.map_none]
  rw [read, hnone _ List.mem_cons_self, hnone _ (List.mem_cons_of_mem _ List.mem_cons_self), hfind]

theorem keyword?_of_mem_table {d : Directive} (hd : d ∈ Directive.table) {cs : List Char}
    (h : leadingWord cs = d.word.toList) :
    keyword? "export" cs = none ∧ keyword? Directive.exportFunctions.word cs = none := by
  have hne : ∀ d ∈ Directive.table, d.word.toList ≠ "export".toList ∧
      d.word.toList ≠ Directive.exportFunctions.word.toList := by decide
  obtain ⟨hexport, hfunctions⟩ := hne d hd
  exact ⟨keyword?_of_ne List.mem_cons_self (h ▸ hexport),
    keyword?_of_ne (List.mem_cons_of_mem _ List.mem_cons_self) (h ▸ hfunctions)⟩

/-- The word of a directive before an operator is the name of a variable. -/
theorem read_of_operator {d : Directive} (hd : d ∈ Directive.table) {cs : List Char}
    (h : leadingWord cs = d.word.toList) (ho : (operator? (spacing (afterWord cs)).rest).isSome) :
    read cs = readAssignment cs := by
  obtain ⟨hexport, hfunctions⟩ := keyword?_of_mem_table hd h
  rw [read, hexport, hfunctions, Directive.find?_of_mem hd h]
  exact if_pos ho

theorem kind?_readExport_ne (cs rest : List Char) :
    Piece.kind? (readExport cs rest).piece ≠ some .variableAssignment := by
  intro h
  exact absurd (h ▸ kind?_readExport cs rest) (by decide)

theorem kind?_directive_ne {d : Directive} (hd : d ∈ Directive.exportFunctions :: Directive.table)
    (cs rest : List Char) : Piece.kind? (d.read cs rest).piece ≠ some .variableAssignment := by
  have hkinds : ∀ d ∈ Directive.exportFunctions :: Directive.table,
      some Kind.variableAssignment ∉ [some .error, some d.kind] := by decide
  intro h
  exact hkinds d hd (h ▸ kind?_directive d cs rest)

/-- A keyword makes no assignment, unless it is the word of a directive before an operator. -/
theorem kind?_read_ne {w : String} (hw : w ∈ statementWords) {cs : List Char}
    (h : leadingWord cs = w.toList)
    (ho : w ∈ Directive.table.map (·.word) → operator? (spacing (afterWord cs)).rest = none) :
    Piece.kind? (read cs).piece ≠ some .variableAssignment := by
  rcases List.mem_cons.1 hw with rfl | hw
  · rw [read, keyword?_of_eq hw h]
    exact kind?_readExport_ne _ _
  rcases List.mem_cons.1 hw with rfl | hw
  · have hexport : keyword? "export" cs = none :=
      keyword?_of_ne List.mem_cons_self (h ▸ by decide)
    rw [read, hexport, keyword?_of_eq (List.mem_cons_of_mem _ hw) h]
    exact kind?_directive_ne List.mem_cons_self _ _
  · obtain ⟨d, hd, rfl⟩ := List.mem_map.1 hw
    obtain ⟨hexport, hfunctions⟩ := keyword?_of_mem_table hd h
    rw [read, hexport, hfunctions, Directive.find?_of_mem hd h]
    dsimp only
    rw [ho hw, if_neg (by simp)]
    exact kind?_directive_ne (List.mem_cons_of_mem _ hd) _ _

end Statement

end Recipe.Grammar
