import Recipe.Grammar.Piece
import Recipe.Proofs.Text.Width
import Recipe.Text.LineTable

/-!
# Cursors and line tables

A cursor counts lines and columns while it advances over a text; a line table finds the position of
a byte offset from the lines of the text. The two agree: the cursor after `pre` stands at the offset
`bytes pre` (`offset_advance`) and at the position that the line table of any text that begins with
`pre` gives to that offset (`position_bytes`). The lines of a text also tell where a cursor stands
after it (`Cursor.position_advance`), and lines joined by line feeds are the lines of what they are
joined to (`Text.lines_intercalate`).
-/

namespace Recipe

open Text (bytes)

namespace Cursor

@[simp] theorem advance_nil (here : Cursor) : here.advance [] = here := rfl

@[simp] theorem advance_cons (here : Cursor) (c : Char) (cs : List Char) :
    here.advance (c :: cs) = (here.step c).advance cs := rfl

theorem advance_append (here : Cursor) (cs ds : List Char) :
    here.advance (cs ++ ds) = (here.advance cs).advance ds :=
  List.foldl_append

theorem offset_step (here : Cursor) (c : Char) : (here.step c).offset = here.offset + c.utf8Size := by
  unfold step
  split
  · rename_i h
    subst h
    rfl
  · rfl

@[simp] theorem offset_advance (here : Cursor) (cs : List Char) :
    (here.advance cs).offset = here.offset + bytes cs := by
  induction cs generalizing here with
  | nil => simp
  | cons c cs ih => rw [advance_cons, ih, offset_step, Text.bytes_cons, Nat.add_assoc]

/-- The cursor after a text that begins a document. -/
def after (pre : List Char) : Cursor :=
  start.advance pre

@[simp] theorem after_nil : after [] = start := rfl

@[simp] theorem offset_after (pre : List Char) : (after pre).offset = bytes pre := by
  rw [after, offset_advance]
  exact Nat.zero_add _

theorem advance_after (pre cs : List Char) : (after pre).advance cs = after (pre ++ cs) :=
  (advance_append start pre cs).symm

end Cursor

/-! ## Lines -/

namespace Text

theorem lines_ne_nil (cs : List Char) : lines cs ≠ [] := by
  induction cs with
  | nil => simp [lines]
  | cons c cs ih =>
    rw [lines]
    split
    · simp
    · simpa [List.modifyHead_eq_nil_iff] using ih

/-- A character in front of a text is put in front of its first line, unless it is a line feed,
which begins a line before it. -/
theorem lines_cons {c : Char} {cs l : List Char} {ls : List (List Char)} (h : lines cs = l :: ls) :
    lines (c :: cs) = if c = '\n' then [] :: l :: ls else (c :: l) :: ls := by
  rw [lines, h]
  rfl

theorem not_mem_of_mem_lines {cs l : List Char} (h : l ∈ lines cs) : '\n' ∉ l := by
  induction cs generalizing l with
  | nil =>
    rw [lines, List.mem_singleton] at h
    simp [h]
  | cons c cs ih =>
    obtain ⟨m, ms, hm⟩ := List.exists_cons_of_ne_nil (lines_ne_nil cs)
    rw [lines_cons hm] at h
    rw [hm] at ih
    split at h
    · rcases List.mem_cons.1 h with rfl | h
      · simp
      · exact ih h
    · rename_i hc
      rcases List.mem_cons.1 h with rfl | h
      · simpa [Ne.symm hc] using ih List.mem_cons_self
      · exact ih (List.mem_cons_of_mem m h)

/-- A text `l` without a line feed, put with a line feed in front of `cs`, is a line before those of
`cs`. -/
theorem lines_append_lineFeed {l : List Char} (h : '\n' ∉ l) (cs : List Char) :
    lines (l ++ '\n' :: cs) = l :: lines cs := by
  induction l with
  | nil => rfl
  | cons c l ih =>
    rw [List.mem_cons, not_or] at h
    rw [List.cons_append, lines_cons (ih h.2), if_neg (Ne.symm h.1)]

theorem lines_of_not_mem {l : List Char} (h : '\n' ∉ l) : lines l = [l] := by
  induction l with
  | nil => rfl
  | cons c l ih =>
    rw [List.mem_cons, not_or] at h
    rw [lines_cons (ih h.2), if_neg (Ne.symm h.1)]

/-- Lines joined by line feeds are the lines of the text. -/
theorem lines_intercalate {l : List Char} {ls : List (List Char)} (h : ∀ m ∈ l :: ls, '\n' ∉ m) :
    lines (List.intercalate ['\n'] (l :: ls)) = l :: ls := by
  induction ls generalizing l with
  | nil => simpa using lines_of_not_mem (h l List.mem_cons_self)
  | cons m ls ih =>
    rw [List.intercalate_cons_cons, List.append_assoc, List.singleton_append,
      lines_append_lineFeed (h l List.mem_cons_self), ih fun n hn => h n (List.mem_cons_of_mem l hn)]

/-- The last line of a text ends as the text does, unless that is a line feed. -/
theorem getLast?_lines {cs : List Char} {c : Char} (h : cs.getLast? = some c) (hc : c ≠ '\n') :
    ∃ l, (lines cs).getLast? = some l ∧ l.getLast? = some c := by
  induction cs with
  | nil => cases h
  | cons d cs ih =>
    obtain ⟨m, ms, hm⟩ := List.exists_cons_of_ne_nil (lines_ne_nil cs)
    rw [lines_cons hm]
    cases hl : cs.getLast? with
    | none =>
      rw [List.getLast?_eq_none_iff] at hl
      subst hl
      obtain rfl : d = c := Option.some.inj h
      cases hm
      exact ⟨[d], by rw [if_neg hc]; rfl, rfl⟩
    | some e =>
      have he : cs.getLast? = some c := by simpa [List.getLast?_cons, hl] using h
      obtain ⟨l, hll, hlc⟩ := ih he
      rw [hm] at hll
      split
      · exact ⟨l, by rw [List.getLast?_cons_cons]; exact hll, hlc⟩
      · cases ms with
        | nil =>
          obtain rfl : m = l := Option.some.inj hll
          exact ⟨d :: m, rfl, by simp [List.getLast?_cons, hlc]⟩
        | cons n ms => exact ⟨l, by simpa using hll, hlc⟩

end Text

/-- Where a cursor stands after a text: after the last line, of which the first one stands where the
cursor stood. -/
theorem Cursor.position_advance (here : Cursor) {cs l : List Char} {ls : List (List Char)}
    (h : Text.lines cs = l :: ls) : (here.advance cs).position = match ls.getLast? with
      | none => ⟨here.position.line, here.position.column + bytes l⟩
      | some m => ⟨here.position.line + ls.length, bytes m⟩ := by
  induction cs generalizing here l ls with
  | nil =>
    cases h
    rfl
  | cons c cs ih =>
    obtain ⟨m, ms, hm⟩ := List.exists_cons_of_ne_nil (Text.lines_ne_nil cs)
    rw [Text.lines_cons hm] at h
    rw [advance_cons, ih _ hm]
    split at h
    · rename_i hc
      cases h
      cases hms : ms.getLast? with
      | none =>
        rw [List.getLast?_eq_none_iff] at hms
        simp [hms, step, hc]
      | some n =>
        simp [List.getLast?_cons, hms, step, hc]
        omega
    · rename_i hc
      cases h
      split
      · simp [step, hc, Nat.add_assoc]
      · simp [step, hc]

namespace LineTable

/-- The position at the end of `pre`, on lines of which `done` stands before the first. -/
theorem positionFrom_append (pre post done : List Char) (n o : Nat) :
    positionFrom n ((Text.lines (pre ++ post)).modifyHead (done ++ ·)) (bytes done + bytes pre)
      = (Cursor.advance ⟨o, ⟨n, bytes done⟩⟩ pre).position := by
  -- The characters of `pre` move into `done` up to a line feed, which empties it.
  induction pre generalizing done n o with
  | nil =>
    cases hl : Text.lines post with
    | nil => exact absurd hl (Text.lines_ne_nil post)
    | cons l ls =>
      cases ls with
      | nil => simp [hl, positionFrom]
      | cons m ls => simp [hl, positionFrom]
  | cons c pre ih =>
    by_cases hc : c = '\n'
    · subst hc
      have h := ih [] (n + 1) (o + 1)
      cases hl : Text.lines (pre ++ post) with
      | nil => exact absurd hl (Text.lines_ne_nil _)
      | cons m ls =>
        rw [hl] at h
        have hw : bytes ('\n' :: pre) = bytes pre + 1 := Nat.add_comm _ _
        rw [List.cons_append, Text.lines, if_pos rfl, hl, List.modifyHead_cons, List.append_nil,
          positionFrom, if_neg (by omega), hw,
          show bytes done + (bytes pre + 1) - (bytes done + 1) = bytes pre by omega]
        simpa [Cursor.step] using h
    · have h := ih (done ++ [c]) n (o + c.utf8Size)
      rw [Text.bytes_append, Text.bytes_cons, Text.bytes_nil, Nat.add_zero, Nat.add_assoc] at h
      rw [Cursor.advance_cons, Cursor.step, if_neg hc, List.cons_append, Text.lines, if_neg hc,
        Text.bytes_cons, ← h]
      simp [List.modifyHead_modifyHead, Function.comp_def]

/-- The line table gives the end of `pre` the position that a cursor has there. -/
theorem position_bytes (pre post : List Char) :
    (ofText (pre ++ post)).position (bytes pre) = (Cursor.after pre).position := by
  have h := positionFrom_append pre post [] 0 0
  have hid : (Text.lines (pre ++ post)).modifyHead ([] ++ ·) = Text.lines (pre ++ post) := by
    cases Text.lines (pre ++ post) <;> rfl
  rwa [hid, Text.bytes_nil, Nat.zero_add] at h

end LineTable

end Recipe
