import Recipe.Proofs.Text.LineSpan

/-!
# Columns in UTF-16 units

A place on a line is counted in bytes or in UTF-16 units of what stands before it. Between characters the
two counts stand for each other (`LineTable.unitsBefore_append`, `LineTable.columnOfUnits_append`). A byte
column inside a character counts as the end of the character (`LineTable.exists_cut`), and so does a
column between the two units of one (`LineTable.columnOfUnits_split`); there are no other columns up to
the end of a line (`Text.isUnitBoundary_or_splitsPair`).
-/

namespace Recipe

open Text (bytes isBoundary)

/-! ## UTF-16 units -/

namespace Text

/-- The number of UTF-16 units of a text. -/
def units : List Char → Nat
  | [] => 0
  | c :: cs => units16 c + units cs

theorem units_append (cs ds : List Char) : units (cs ++ ds) = units cs + units ds := by
  induction cs with
  | nil => simp [units]
  | cons c cs ih => simp only [List.cons_append, units, ih, Nat.add_assoc]

theorem units16_pos (c : Char) : 0 < units16 c := by
  unfold units16
  split <;> omega

theorem units16_eq_two {c : Char} (h : 0x10000 ≤ c.toNat) : units16 c = 2 :=
  if_neg (Nat.not_lt.2 h)

theorem units16_le_utf8Size (c : Char) : units16 c ≤ c.utf8Size := by
  unfold units16
  split
  · exact c.utf8Size_pos
  · rename_i h
    -- One byte is not enough above the basic plane.
    have hone : c.utf8Size ≠ 1 := by
      intro hc
      rw [Char.utf8Size_eq_one_iff, UInt32.le_iff_toNat_le] at hc
      exact h (Nat.lt_of_le_of_lt hc (by decide))
    have := c.utf8Size_pos
    omega

theorem units_le_bytes (cs : List Char) : units cs ≤ bytes cs := by
  induction cs with
  | nil => exact Nat.le_refl 0
  | cons c cs ih => exact Nat.add_le_add (units16_le_utf8Size c) ih

/-- So many UTF-16 units end between two characters of a text, or at one of its ends. -/
def IsUnitBoundary (cs : List Char) (u : Nat) : Prop :=
  ∃ pre post, cs = pre ++ post ∧ units pre = u

/-- So many UTF-16 units end between the two units of a character above the basic plane. -/
def SplitsPair (cs : List Char) (u : Nat) : Prop :=
  ∃ pre c post, cs = pre ++ c :: post ∧ 0x10000 ≤ c.toNat ∧ units pre + 1 = u

/-- Units that do not go past a text end at a character or inside one. -/
theorem isUnitBoundary_or_splitsPair {cs : List Char} {u : Nat} (h : u ≤ units cs) :
    IsUnitBoundary cs u ∨ SplitsPair cs u := by
  induction cs generalizing u with
  | nil => exact .inl ⟨[], [], rfl, (Nat.le_zero.1 h).symm⟩
  | cons c cs ih =>
    rw [units] at h
    by_cases hzero : u = 0
    · exact .inl ⟨[], c :: cs, rfl, hzero.symm⟩
    by_cases hlt : u < units16 c
    · -- A character with a unit inside it has two of them.
      unfold units16 at hlt
      split at hlt
      · omega
      · exact .inr ⟨[], c, cs, rfl, by omega, by simp only [units]; omega⟩
    · rcases ih (u := u - units16 c) (by omega) with ⟨pre, post, rfl, hu⟩ | ⟨pre, d, post, rfl, hd, hu⟩
      · exact .inl ⟨c :: pre, post, rfl, by simp only [units]; omega⟩
      · exact .inr ⟨c :: pre, d, post, rfl, hd, by simp only [units]; omega⟩

end Text

/-! ## The two counts of a line -/

namespace LineTable

theorem unitsBefore_append (pre post : List Char) :
    unitsBefore (pre ++ post) (bytes pre) = Text.units pre := by
  induction pre with
  | nil => cases post <;> rfl
  | cons c pre ih =>
    have := c.utf8Size_pos
    rw [List.cons_append, unitsBefore, if_neg (by rw [Text.bytes_cons]; omega), Text.bytes_cons,
      Nat.add_sub_cancel_left, ih, Text.units]

theorem columnOfUnits_append (pre post : List Char) :
    columnOfUnits (pre ++ post) (Text.units pre) = bytes pre := by
  induction pre with
  | nil => cases post <;> rfl
  | cons c pre ih =>
    have := Text.units16_pos c
    rw [List.cons_append, columnOfUnits, if_neg (by rw [Text.units]; omega), Text.units,
      Nat.add_sub_cancel_left, ih, Text.bytes_cons]

theorem unitsBefore_bytes (l : List Char) : unitsBefore l (bytes l) = Text.units l := by
  have hall := unitsBefore_append l []
  rwa [List.append_nil] at hall

/-- Later byte columns have no fewer units before them. -/
theorem unitsBefore_le (l : List Char) {c d : Nat} (h : c ≤ d) : unitsBefore l c ≤ unitsBefore l d := by
  induction l generalizing c d with
  | nil => exact h
  | cons a l ih =>
    rw [unitsBefore, unitsBefore]
    split
    · exact Nat.zero_le _
    · rw [if_neg (by omega)]
      exact Nat.add_le_add_left (ih (by omega)) _

/-- The units before a byte column are those of the shortest beginning of the line that reaches it. -/
theorem exists_cut {l : List Char} {c : Nat} (h : c ≤ bytes l) :
    ∃ pre post, l = pre ++ post ∧ unitsBefore l c = Text.units pre ∧ c ≤ bytes pre ∧
      ∀ {u v : List Char}, l = u ++ v → c ≤ bytes u → bytes pre ≤ bytes u := by
  induction l generalizing c with
  | nil =>
    obtain rfl : c = 0 := Nat.le_zero.1 h
    exact ⟨[], [], rfl, rfl, Nat.le_refl 0, fun _ _ => Nat.zero_le _⟩
  | cons a l ih =>
    rw [unitsBefore]
    split
    · rename_i hzero
      exact ⟨[], a :: l, rfl, rfl, Nat.le_of_eq hzero, fun _ _ => Nat.zero_le _⟩
    · rename_i hpos
      rw [Text.bytes_cons] at h
      obtain ⟨pre, post, rfl, hunits, hle, hleast⟩ := ih (c := c - a.utf8Size) (by omega)
      refine ⟨a :: pre, post, rfl, ?_, ?_, fun {u v} huv hu => ?_⟩
      · rw [hunits, Text.units]
      · rw [Text.bytes_cons]
        omega
      · cases u with
        | nil =>
          rw [Text.bytes_nil] at hu
          omega
        | cons b u =>
          rw [List.cons_append, List.cons.injEq] at huv
          obtain ⟨rfl, huv⟩ := huv
          rw [Text.bytes_cons] at hu ⊢
          have := hleast huv (by omega)
          rw [Text.bytes_cons]
          omega

/-- A column between the two units of a character counts as the end of the character. -/
theorem columnOfUnits_split {a : Char} (ha : 0x10000 ≤ a.toNat) (pre post : List Char) :
    columnOfUnits (pre ++ a :: post) (Text.units pre + 1) = bytes (pre ++ [a]) := by
  induction pre with
  | nil =>
    have hstop : columnOfUnits post 0 = 0 := by cases post <;> rfl
    rw [List.nil_append, Text.units, columnOfUnits, if_neg (by omega), Text.units16_eq_two ha,
      show 0 + 1 - 2 = 0 from rfl, hstop]
    rfl
  | cons c pre ih =>
    rw [List.cons_append, columnOfUnits, if_neg (by omega), Text.units,
      show Text.units16 c + Text.units pre + 1 - Text.units16 c = Text.units pre + 1 by omega, ih]
    rfl

/-- A column past the units of a line counts as its end. -/
theorem columnOfUnits_of_le {l : List Char} {u : Nat} (h : Text.units l ≤ u) :
    columnOfUnits l u = bytes l := by
  induction l generalizing u with
  | nil => rfl
  | cons c l ih =>
    rw [Text.units] at h
    have := Text.units16_pos c
    rw [columnOfUnits, if_neg (by omega), ih (by omega), Text.bytes_cons]

end LineTable

/-! ## Lines of a text -/

/-- How the byte columns and the UTF-16 columns of a line belong together. -/
structure LineTable.ColumnsCorrespond (t : LineTable) (n : Nat) (l : List Char) : Prop where
  utf16Column_le : ∀ {c d : Nat}, c ≤ d → t.utf16Column ⟨n, c⟩ ≤ t.utf16Column ⟨n, d⟩
  /-- A byte column of the line comes back as the first boundary that is not before it. -/
  first_boundary : ∀ {c b : Nat}, c ≤ bytes l → t.columnFromUtf16 n (t.utf16Column ⟨n, c⟩) = b →
    isBoundary l b = true ∧ c ≤ b ∧ ∀ {d : Nat}, isBoundary l d = true → c ≤ d → b ≤ d
  boundary_back : ∀ {c : Nat}, isBoundary l c = true →
    t.columnFromUtf16 n (t.utf16Column ⟨n, c⟩) = c
  /-- Every UTF-16 column is of one of the three kinds that follow. -/
  unit_cases : ∀ u, Text.IsUnitBoundary l u ∨ Text.SplitsPair l u ∨ Text.units l < u
  unit_back : ∀ {u : Nat}, Text.IsUnitBoundary l u →
    t.utf16Column ⟨n, t.columnFromUtf16 n u⟩ = u
  pair_back : ∀ {u : Nat}, Text.SplitsPair l u →
    t.utf16Column ⟨n, t.columnFromUtf16 n u⟩ = u + 1
  past_back : ∀ {u : Nat}, Text.units l < u →
    t.utf16Column ⟨n, t.columnFromUtf16 n u⟩ = Text.units l

namespace LineTable

section Line

variable {t : LineTable} {n : Nat} {l : List Char}

theorem utf16Column_of_line (hl : t.lines[n]? = some l) (c : Nat) :
    t.utf16Column ⟨n, c⟩ = unitsBefore l c := by
  simp only [utf16Column, hl]

theorem columnFromUtf16_of_line (hl : t.lines[n]? = some l) (u : Nat) :
    t.columnFromUtf16 n u = columnOfUnits l u := by
  simp only [columnFromUtf16, hl]

theorem columnsCorrespond_of_line (hl : t.lines[n]? = some l) : t.ColumnsCorrespond n l where
  utf16Column_le {c d} h := by
    rw [utf16Column_of_line hl, utf16Column_of_line hl]
    exact unitsBefore_le l h
  first_boundary {c b} h hb := by
    obtain ⟨pre, post, rfl, hunits, hle, hleast⟩ := exists_cut h
    rw [utf16Column_of_line hl, columnFromUtf16_of_line hl, hunits, columnOfUnits_append] at hb
    subst hb
    refine ⟨Text.isBoundary_append pre post, hle, fun {d} hd hc => ?_⟩
    obtain ⟨u, v, huv, rfl⟩ := Text.isBoundary_iff.1 hd
    exact hleast huv hc
  boundary_back {c} h := by
    obtain ⟨pre, post, rfl, rfl⟩ := Text.isBoundary_iff.1 h
    rw [utf16Column_of_line hl, columnFromUtf16_of_line hl, unitsBefore_append, columnOfUnits_append]
  unit_cases u := by
    rcases Nat.lt_or_ge (Text.units l) u with hlt | hle
    · exact .inr (.inr hlt)
    · exact (Text.isUnitBoundary_or_splitsPair hle).imp_right .inl
  unit_back {u} h := by
    obtain ⟨pre, post, rfl, rfl⟩ := h
    rw [columnFromUtf16_of_line hl, utf16Column_of_line hl, columnOfUnits_append, unitsBefore_append]
  pair_back {u} h := by
    obtain ⟨pre, a, post, rfl, ha, rfl⟩ := h
    rw [columnFromUtf16_of_line hl, utf16Column_of_line hl, columnOfUnits_split ha, List.append_cons,
      unitsBefore_append, Text.units_append, Text.units, Text.units, Text.units16_eq_two ha]
  past_back {u} h := by
    rw [columnFromUtf16_of_line hl, utf16Column_of_line hl, columnOfUnits_of_le (Nat.le_of_lt h),
      unitsBefore_bytes]

end Line

/-- On every line of a text the byte columns and the UTF-16 columns correspond. -/
theorem columns_correspond (source : List Char) (n : Nat) (hn : n < (ofText source).lineCount) :
    ∃ s l, (ofText source).lineSpan n = some s ∧ Text.slice source s.start s.stop = some l ∧
      (ofText source).ColumnsCorrespond n l := by
  obtain ⟨l, hl⟩ := exists_line hn
  exact ⟨_, l, lineSpan_of_line hl, slice_lineSpan hl, columnsCorrespond_of_line hl⟩

/-- The second of two lines, with a character of each width. -/
theorem columns_correspond_wide :
    1 < (ofText "a\nbé　𝄞c".toList).lineCount ∧
      ∃ s l, (ofText "a\nbé　𝄞c".toList).lineSpan 1 = some s ∧
        Text.slice "a\nbé　𝄞c".toList s.start s.stop = some l ∧
        (ofText "a\nbé　𝄞c".toList).ColumnsCorrespond 1 l :=
  ⟨by decide, columns_correspond _ 1 (by decide)⟩

end LineTable

end Recipe
