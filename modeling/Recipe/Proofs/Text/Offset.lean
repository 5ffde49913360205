import Recipe.Proofs.Text.LineTable

/-!
# Offsets and positions

A byte offset of a text and its position tell the same place: the position of an offset is a column
of an existing line, as many bytes after its beginning (`LineTable.exists_of_position`), and a column
of a line has the offset and the position that one expects (`LineTable.offset_lineStart`,
`LineTable.position_lineStart`). Later offsets have later positions (`LineTable.position_lt`). The
lines of two texts joined are the lines of the first, the lines of the other, and where they meet one
line of both (`Text.lines_append`). Cursors only move forwards (`Cursor.position_le_advance`).
-/

namespace Recipe

open Text (bytes)

/-! ## The order of positions -/

namespace Position

theorem le_refl (p : Position) : p ≤ p :=
  .inr ⟨rfl, Nat.le_refl _⟩

theorem le_trans {p q r : Position} (hpq : p ≤ q) (hqr : q ≤ r) : p ≤ r := by
  rcases hpq with hpq | ⟨hpq, hcol⟩
  · rcases hqr with hqr | ⟨hqr, -⟩
    · exact .inl (Nat.lt_trans hpq hqr)
    · exact .inl (hqr ▸ hpq)
  · rcases hqr with hqr | ⟨hqr, hcol'⟩
    · exact .inl (hpq ▸ hqr)
    · exact .inr ⟨hpq.trans hqr, Nat.le_trans hcol hcol'⟩

/-- On one line positions are in the order of their columns. -/
theorem le_of_column_le {n c d : Nat} (h : c ≤ d) : Position.mk n c ≤ ⟨n, d⟩ :=
  .inr ⟨rfl, h⟩

theorem le_iff {p q : Position} : p ≤ q ↔ p.line < q.line ∨ p.line = q.line ∧ p.column ≤ q.column :=
  .rfl

theorem lt_iff {p q : Position} : p < q ↔ p.line < q.line ∨ p.line = q.line ∧ p.column < q.column :=
  .rfl

theorem le_of_lt {p q : Position} (h : p < q) : p ≤ q :=
  h.imp_right (And.imp_right Nat.le_of_lt)

theorem lt_of_lt_of_le {p q r : Position} (hpq : p < q) (hqr : q ≤ r) : p < r := by
  rw [lt_iff] at hpq ⊢
  rw [le_iff] at hqr
  omega

theorem not_le_of_lt {p q : Position} (h : p < q) : ¬ q ≤ p := by
  rw [lt_iff] at h
  rw [le_iff]
  omega

end Position

namespace Cursor

theorem position_le_step (here : Cursor) (c : Char) : here.position ≤ (here.step c).position := by
  unfold step
  split
  · exact .inl (Nat.lt_succ_self _)
  · exact .inr ⟨rfl, Nat.le_add_right _ _⟩

theorem position_le_advance (here : Cursor) (cs : List Char) :
    here.position ≤ (here.advance cs).position := by
  induction cs generalizing here with
  | nil => exact Position.le_refl _
  | cons c cs ih => exact Position.le_trans (position_le_step here c) (ih (here.step c))

/-- A cursor stays on its line until a line feed comes. -/
theorem position_advance_of_not_mem (here : Cursor) {cs : List Char} (h : '\n' ∉ cs) :
    (here.advance cs).position = ⟨here.position.line, here.position.column + bytes cs⟩ :=
  here.position_advance (Text.lines_of_not_mem h)

/-- After a line feed a cursor stands at the beginning of a line, one further for each line feed. -/
theorem position_advance_of_getLast? (here : Cursor) {cs : List Char}
    (h : cs.getLast? = some '\n') :
    (here.advance cs).position = ⟨here.position.line + cs.count '\n', 0⟩ := by
  induction cs generalizing here with
  | nil => cases h
  | cons c cs ih =>
    cases hl : cs.getLast? with
    | none =>
      rw [List.getLast?_eq_none_iff] at hl
      subst hl
      obtain rfl : c = '\n' := by simpa using h
      rfl
    | some d =>
      have hd : cs.getLast? = some '\n' := by simpa [List.getLast?_cons, hl] using h
      rw [advance_cons, ih _ hd, step, List.count_cons]
      split
      · rename_i hc
        subst hc
        simp
        omega
      · rename_i hc
        simp [hc]

end Cursor

/-! ## Lines of joined texts -/

namespace Text

/-- The last line of a text and the first line of what follows it are one line. -/
theorem lines_append {p q u v : List Char} {front back : List (List Char)}
    (hp : lines p = front ++ [u]) (hq : lines q = v :: back) :
    lines (p ++ q) = front ++ (u ++ v) :: back := by
  induction p generalizing front u with
  | nil =>
    obtain ⟨rfl, rfl⟩ : front = [] ∧ u = [] := by
      cases front with
      | nil => exact ⟨rfl, by simpa [lines] using hp.symm⟩
      | cons => simp [lines] at hp
    exact hq
  | cons c p ih =>
    rw [lines] at hp
    rw [List.cons_append, lines]
    split
    · rename_i hc
      rw [if_pos hc] at hp
      cases front with
      | nil => exact absurd (List.cons.inj hp).2 (lines_ne_nil p)
      | cons f front =>
        rw [List.cons_append, List.cons.injEq] at hp
        rw [← hp.1, ih hp.2, List.cons_append]
    · rename_i hc
      rw [if_neg hc] at hp
      obtain ⟨m, ms, hm⟩ := List.exists_cons_of_ne_nil (lines_ne_nil p)
      rw [hm, List.modifyHead_cons] at hp
      cases front with
      | nil =>
        obtain ⟨rfl, rfl⟩ := List.cons.inj hp
        have hm' : lines p = [] ++ [m] := hm
        rw [ih hm']
        rfl
      | cons f front =>
        obtain ⟨rfl, rfl⟩ := List.cons.inj hp
        have hm' : lines p = (m :: front) ++ [u] := hm
        rw [ih hm']
        rfl

/-- A text that is empty or ends with a line feed has an empty last line. -/
theorem lines_of_endsLine {cs : List Char} (h : cs = [] ∨ cs.getLast? = some '\n') :
    ∃ front, lines cs = front ++ [[]] := by
  rcases h with rfl | h
  · exact ⟨[], rfl⟩
  · obtain ⟨ds, rfl⟩ := List.getLast?_eq_some_iff.1 h
    have hl : lines ds = (lines ds).dropLast ++ [(lines ds).getLast (lines_ne_nil ds)] :=
      (List.dropLast_concat_getLast _).symm
    have hf : lines ['\n'] = [] :: [[]] := rfl
    refine ⟨lines ds, ?_⟩
    rw [lines_append hl hf, List.append_nil, List.append_cons, ← hl]

theorem length_lines (cs : List Char) : (lines cs).length = cs.count '\n' + 1 := by
  induction cs with
  | nil => rfl
  | cons c cs ih =>
    rw [lines, List.count_cons]
    split
    · rename_i hc
      simp [ih, hc]
    · rename_i hc
      simp [ih, hc]

/-- A line stands in its text after the lines before it. -/
theorem exists_of_getElem?_lines {cs l : List Char} {k : Nat} (h : (lines cs)[k]? = some l) :
    ∃ a b, cs = a ++ (l ++ b) ∧ a.count '\n' = k ∧ (a = [] ∨ a.getLast? = some '\n') ∧
      bytes a = LineTable.bytesOfFirst k (lines cs) := by
  induction cs generalizing k l with
  | nil =>
    cases k with
    | zero => exact ⟨[], [], by simpa [lines] using h, rfl, .inl rfl, rfl⟩
    | succ k => simp [lines] at h
  | cons c cs ih =>
    obtain ⟨m, ms, hm⟩ := List.exists_cons_of_ne_nil (lines_ne_nil cs)
    have hlines := lines_cons (c := c) hm
    rw [hlines] at h ⊢
    rw [hm] at ih
    split at h
    · rename_i hc
      subst hc
      cases k with
      | zero =>
        obtain rfl : [] = l := by simpa using h
        exact ⟨[], '\n' :: cs, rfl, rfl, .inl rfl, rfl⟩
      | succ k =>
        obtain ⟨a, b, rfl, hk, hlast, hb⟩ := ih (by simpa using h)
        refine ⟨'\n' :: a, b, rfl, by simp [hk], .inr ?_, ?_⟩
        · rcases hlast with rfl | hlast
          · rfl
          · simp [List.getLast?_cons, hlast]
        · rw [if_pos rfl, LineTable.bytesOfFirst, bytes_cons, bytes_nil, hb, Nat.zero_add]
          rfl
    · rename_i hc
      rw [if_neg hc]
      cases k with
      | zero =>
        obtain rfl : c :: m = l := by simpa using h
        obtain ⟨a, b, hcs, hk, hlast, hb⟩ := ih (k := 0) (l := m) rfl
        obtain rfl : a = [] := bytes_eq_zero.1 hb
        exact ⟨[], b, by rw [hcs]; rfl, rfl, .inl rfl, rfl⟩
      | succ k =>
        obtain ⟨a, b, rfl, hk, hlast, hb⟩ := ih (k := k + 1) (by simpa using h)
        refine ⟨c :: a, b, rfl, by simp [hk, hc], .inr ?_, ?_⟩
        · rcases hlast with rfl | hlast
          · simp at hk
          · simp [List.getLast?_cons, hlast]
        · rw [LineTable.bytesOfFirst] at hb ⊢
          rw [bytes_cons, hb, bytes_cons]
          omega

end Text

/-! ## Offsets and positions of a line table -/

namespace LineTable

theorem joinedBytes_cons {l : List Char} {ls : List (List Char)} (h : ls ≠ []) :
    joinedBytes (l :: ls) = bytes l + 1 + joinedBytes ls := by
  obtain ⟨m, ms, rfl⟩ := List.exists_cons_of_ne_nil h
  rfl

theorem joinedBytes_lines (cs : List Char) : joinedBytes (Text.lines cs) = bytes cs := by
  induction cs with
  | nil => rfl
  | cons c cs ih =>
    obtain ⟨m, ms, hm⟩ := List.exists_cons_of_ne_nil (Text.lines_ne_nil cs)
    rw [Text.lines_cons hm]
    rw [hm] at ih
    split
    · rename_i hc
      subst hc
      rw [joinedBytes_cons (by simp), ih, Text.bytes_nil, Text.bytes_cons, Nat.zero_add]
      rfl
    · cases ms with
      | nil => simpa [joinedBytes] using ih
      | cons n ms =>
        rw [joinedBytes_cons (by simp)] at ih ⊢
        rw [Text.bytes_cons, Text.bytes_cons]
        omega

/-- A line ends before the text does, unless it is the last. -/
theorem bytesOfFirst_add_le {ls : List (List Char)} {k : Nat} {l : List Char}
    (h : ls[k]? = some l) :
    bytesOfFirst k ls + bytes l ≤ joinedBytes ls ∧
      (bytesOfFirst k ls + bytes l = joinedBytes ls ↔ k + 1 = ls.length) := by
  induction ls generalizing k with
  | nil => cases h
  | cons m ls ih =>
    cases k with
    | zero =>
      obtain rfl : m = l := by simpa using h
      cases ls with
      | nil => simp [bytesOfFirst, joinedBytes]
      | cons n ls =>
        rw [joinedBytes_cons (by simp), bytesOfFirst]
        simp
        omega
    | succ k =>
      rw [List.getElem?_cons_succ] at h
      rw [joinedBytes_cons (List.ne_nil_of_mem (List.mem_of_getElem? h)), bytesOfFirst, List.length_cons]
      have := ih h
      omega

theorem bytesOfFirst_succ {ls : List (List Char)} {k : Nat} {l : List Char}
    (h : ls[k]? = some l) : bytesOfFirst (k + 1) ls = bytesOfFirst k ls + (bytes l + 1) := by
  induction ls generalizing k with
  | nil => cases h
  | cons m ls ih =>
    cases k with
    | zero =>
      obtain rfl : m = l := by simpa using h
      simp [bytesOfFirst]
    | succ k =>
      rw [List.getElem?_cons_succ] at h
      rw [bytesOfFirst, ih h, bytesOfFirst]
      omega

/-- The position of an offset is a column of some line, as many bytes after its beginning. -/
theorem exists_of_positionFrom {ls : List (List Char)} (hls : ls ≠ []) (n : Nat) {o : Nat}
    (ho : o ≤ joinedBytes ls) :
    ∃ k l c, positionFrom n ls o = ⟨n + k, c⟩ ∧ ls[k]? = some l ∧ c ≤ bytes l ∧
      bytesOfFirst k ls + c = o := by
  induction ls generalizing n o with
  | nil => exact absurd rfl hls
  | cons l ls ih =>
    cases ls with
    | nil =>
      have hl : o ≤ bytes l := ho
      exact ⟨0, l, o, by simp [positionFrom, Nat.min_eq_left hl], rfl, hl, Nat.zero_add o⟩
    | cons m ls =>
      rw [positionFrom]
      split
      · rename_i hl
        exact ⟨0, l, o, rfl, rfl, hl, Nat.zero_add o⟩
      · rename_i hl
        rw [joinedBytes_cons (by simp)] at ho
        obtain ⟨k, x, c, hp, hx, hc, hb⟩ := ih (by simp) (n + 1) (o := o - (bytes l + 1)) (by omega)
        refine ⟨k + 1, x, c, ?_, hx, hc, ?_⟩
        · rw [hp, Nat.add_assoc, Nat.add_comm 1]
        · rw [bytesOfFirst]
          omega

theorem positionFrom_bytesOfFirst {ls : List (List Char)} (n : Nat) {k c : Nat} {l : List Char}
    (hl : ls[k]? = some l) (hc : c ≤ bytes l) :
    positionFrom n ls (bytesOfFirst k ls + c) = ⟨n + k, c⟩ := by
  induction ls generalizing n k with
  | nil => cases hl
  | cons m ls ih =>
    cases k with
    | zero =>
      obtain rfl : m = l := by simpa using hl
      rw [bytesOfFirst, Nat.zero_add]
      cases ls with
      | nil => simp [positionFrom, Nat.min_eq_left hc]
      | cons x ls => simp [positionFrom, hc]
    | succ k =>
      cases ls with
      | nil => cases hl
      | cons x ls =>
        have hi := ih (n + 1) (k := k) hl
        rw [positionFrom, bytesOfFirst, if_neg (by omega),
          show bytes m + 1 + bytesOfFirst k (x :: ls) + c - (bytes m + 1)
            = bytesOfFirst k (x :: ls) + c by omega, hi, Nat.add_assoc, Nat.add_comm 1]

theorem le_line_positionFrom (n : Nat) (ls : List (List Char)) (o : Nat) :
    n ≤ (positionFrom n ls o).line := by
  fun_induction positionFrom n ls o with
  | case1 => exact Nat.le_refl _
  | case2 => exact Nat.le_refl _
  | case3 => exact Nat.le_refl _
  | case4 n l m ls o _ ih => exact Nat.le_of_succ_le ih

theorem positionFrom_lt (n : Nat) {ls : List (List Char)} {a b : Nat} (hab : a < b)
    (hb : b ≤ joinedBytes ls) : positionFrom n ls a < positionFrom n ls b := by
  induction ls generalizing n a b with
  | nil =>
    rw [joinedBytes] at hb
    omega
  | cons l ls ih =>
    cases ls with
    | nil =>
      rw [joinedBytes] at hb
      rw [positionFrom, positionFrom, Nat.min_eq_left hb, Nat.min_eq_left (by omega)]
      exact .inr ⟨rfl, hab⟩
    | cons m ls =>
      rw [joinedBytes_cons (by simp)] at hb
      rw [positionFrom, positionFrom]
      by_cases ha : a ≤ bytes l
      · rw [if_pos ha]
        split
        · exact .inr ⟨rfl, hab⟩
        · exact .inl (le_line_positionFrom (n + 1) _ _)
      · rw [if_neg ha, if_neg (by omega)]
        exact ih (n + 1) (by omega) (by omega)

variable {cs : List Char}

/-- Later offsets have later positions. -/
theorem position_lt {a b : Nat} (hab : a < b) (hb : b ≤ bytes cs) :
    (ofText cs).position a < (ofText cs).position b :=
  positionFrom_lt 0 hab (joinedBytes_lines cs ▸ hb)

theorem position_le {a b : Nat} (hab : a ≤ b) (hb : b ≤ bytes cs) :
    (ofText cs).position a ≤ (ofText cs).position b := by
  rcases Nat.lt_or_eq_of_le hab with hlt | rfl
  · exact Position.le_of_lt (position_lt hlt hb)
  · exact Position.le_refl _

theorem lineStart_ofText (cs : List Char) (k : Nat) :
    (ofText cs).lineStart k = bytesOfFirst k (Text.lines cs) :=
  rfl

theorem exists_of_position {o : Nat} (h : o ≤ bytes cs) :
    ∃ k l c, (ofText cs).position o = ⟨k, c⟩ ∧ (Text.lines cs)[k]? = some l ∧ c ≤ bytes l ∧
      (ofText cs).lineStart k + c = o := by
  rw [← joinedBytes_lines cs] at h
  obtain ⟨k, l, c, hp, hl, hc, hb⟩ := exists_of_positionFrom (Text.lines_ne_nil cs) 0 h
  exact ⟨k, l, c, by rw [position, ofText, hp, Nat.zero_add], hl, hc, hb⟩

variable {k c : Nat} {l : List Char}

/-- The offset `c` bytes after the beginning of line `k` has the position `⟨k, c⟩`, if the line is
that wide. -/
theorem position_lineStart (hl : (Text.lines cs)[k]? = some l) (hc : c ≤ bytes l) :
    (ofText cs).position ((ofText cs).lineStart k + c) = ⟨k, c⟩ := by
  have h := positionFrom_bytesOfFirst 0 hl hc
  rwa [Nat.zero_add] at h

/-- The position `⟨k, c⟩` has the offset `c` bytes after the beginning of line `k`, if the line is
that wide. -/
theorem offset_lineStart (hl : (Text.lines cs)[k]? = some l) (hc : c ≤ bytes l) :
    (ofText cs).offset ⟨k, c⟩ = (ofText cs).lineStart k + c := by
  simp only [offset, lineSpan, ofText, hl, Option.map_some]
  omega

/-- The position of an offset leads back to the offset. -/
theorem offset_position {o : Nat} (h : o ≤ bytes cs) :
    (ofText cs).offset ((ofText cs).position o) = o := by
  obtain ⟨k, l, c, hp, hl, hc, ho⟩ := exists_of_position h
  rw [hp, offset_lineStart hl hc, ho]

theorem joinedBytes_append_singleton (front back : List (List Char)) (u : List Char) :
    joinedBytes (front ++ [u]) = bytesOfFirst front.length (front ++ back) + bytes u := by
  induction front with
  | nil => simp [joinedBytes, bytesOfFirst]
  | cons l front ih =>
    rw [List.cons_append, joinedBytes_cons (by simp), ih, List.cons_append, List.length_cons,
      bytesOfFirst]
    omega

/-- The cursor after a text stands at the end of its last line. -/
theorem position_after {p u : List Char} {front : List (List Char)}
    (hp : Text.lines p = front ++ [u]) : (Cursor.after p).position = ⟨front.length, bytes u⟩ := by
  have hl : (Text.lines p)[front.length]? = some u := by simp [hp]
  have hb := joinedBytes_append_singleton front [u] u
  rw [← hp, joinedBytes_lines] at hb
  have hpos := position_bytes p []
  rw [List.append_nil] at hpos
  rw [← hpos, hb]
  exact position_lineStart hl (Nat.le_refl _)

/-- Text without a line feed stands on one line, as many bytes after its beginning as the cursor
before the text has columns. -/
theorem exists_line_after {m : List Char} (hm : '\n' ∉ m) (p q : List Char) :
    ∃ u v, bytes u = (Cursor.after p).position.column ∧
      (Text.lines (p ++ (m ++ q)))[(Cursor.after p).position.line]? = some (u ++ (m ++ v)) ∧
      (ofText (p ++ (m ++ q))).lineStart (Cursor.after p).position.line + bytes u = bytes p := by
  obtain ⟨front, u, hp⟩ : ∃ front u, Text.lines p = front ++ [u] :=
    ⟨_, _, (List.dropLast_concat_getLast (Text.lines_ne_nil p)).symm⟩
  obtain ⟨v, back, hq⟩ := List.exists_cons_of_ne_nil (Text.lines_ne_nil q)
  have hm' : Text.lines m = [] ++ [m] := Text.lines_of_not_mem hm
  have hmq : Text.lines (m ++ q) = (m ++ v) :: back := Text.lines_append hm' hq
  have hall := Text.lines_append hp hmq
  have hb := joinedBytes_append_singleton front ((u ++ (m ++ v)) :: back) u
  rw [← hp, joinedBytes_lines, ← hall] at hb
  rw [position_after hp]
  exact ⟨u, v, rfl, by simp [hall], hb.symm⟩

/-- A place in text without a line feed has the position that one counts from the cursor before the
text, and back. -/
theorem position_after_add {m : List Char} (hm : '\n' ∉ m) (p q : List Char) {c : Nat}
    (hc : c ≤ bytes m) :
    (ofText (p ++ (m ++ q))).position (bytes p + c)
        = ⟨(Cursor.after p).position.line, (Cursor.after p).position.column + c⟩ ∧
      (ofText (p ++ (m ++ q))).offset
        ⟨(Cursor.after p).position.line, (Cursor.after p).position.column + c⟩ = bytes p + c := by
  obtain ⟨u, v, hu, hl, hs⟩ := exists_line_after hm p q
  have hw : bytes u + c ≤ bytes (u ++ (m ++ v)) := by
    rw [Text.bytes_append, Text.bytes_append]
    omega
  have h₁ := position_lineStart hl hw
  have h₂ := offset_lineStart hl hw
  rw [← Nat.add_assoc, hs, hu] at h₁ h₂
  exact ⟨h₁, h₂⟩

end LineTable

/-! ## Bytes -/

namespace Text

/-- The bytes of a text in UTF-8. -/
def utf8 (cs : List Char) : List UInt8 :=
  cs.flatMap String.utf8EncodeChar

theorem utf8_append (cs ds : List Char) : utf8 (cs ++ ds) = utf8 cs ++ utf8 ds :=
  List.flatMap_append

theorem length_utf8 (cs : List Char) : (utf8 cs).length = bytes cs := by
  induction cs with
  | nil => rfl
  | cons c cs ih =>
    rw [utf8, List.flatMap_cons, List.length_append, String.length_utf8EncodeChar, bytes_cons, ← ih,
      utf8]

/-- The byte at a position of a text. -/
def byteAt? (cs : List Char) (p : Position) : Option UInt8 :=
  (utf8 cs)[(LineTable.ofText cs).offset p]?

theorem getElem?_utf8 (p m q : List Char) {c : Nat} (hc : c < bytes m) :
    (utf8 (p ++ (m ++ q)))[bytes p + c]? = (utf8 m)[c]? := by
  rw [utf8_append, utf8_append, List.getElem?_append_right (by rw [length_utf8]; omega), length_utf8,
    Nat.add_sub_cancel_left, List.getElem?_append_left (by rwa [length_utf8])]

/-- Column `c` from the end of `p` on holds byte `c` of the text `m` after `p`, if `m` has no line
feed. -/
theorem byteAt?_after {m : List Char} (hm : '\n' ∉ m) (p q : List Char) {c : Nat} (hc : c < bytes m) :
    byteAt? (p ++ (m ++ q))
        ⟨(Cursor.after p).position.line, (Cursor.after p).position.column + c⟩ = (utf8 m)[c]? := by
  rw [byteAt?, (LineTable.position_after_add hm p q (Nat.le_of_lt hc)).2, getElem?_utf8 p m q hc]

/-- Column `c` of line `k` holds byte `c` of that line. -/
theorem byteAt?_line {cs l : List Char} {k c : Nat} (hl : (lines cs)[k]? = some l)
    (hc : c < bytes l) : byteAt? cs ⟨k, c⟩ = (utf8 l)[c]? := by
  obtain ⟨a, b, rfl, -, -, hb⟩ := exists_of_getElem?_lines hl
  have ho : (LineTable.ofText (a ++ (l ++ b))).offset ⟨k, c⟩ = bytes a + c := by
    rw [hb]
    exact LineTable.offset_lineStart hl (Nat.le_of_lt hc)
  rw [byteAt?, ho, getElem?_utf8 a l b hc]

end Text

end Recipe
