import Recipe.Grammar.Header
import Recipe.Proofs.Text.Blank

/-!
# Reading pieces off a text

`Reads ps cs rest` says that the pieces `ps` are what stands at the front of `cs`, with `rest` left
after them, and that their gaps hold no text that a leaf should have: only blanks, and backslashes
that end their line (`Skips`). Every reader of the grammar is described by it. Reading is closed
under concatenation (`Reads.append`), and what is read is the text (`Reads.eq_append`).

The scans below are the only places where gaps come from: spacing (`skips_spacing`), the blanks of a
header line (`skips_inlineBlanks`), and trimming.
-/

namespace Recipe

namespace Text

/-- Whether only blanks stand before the next line feed, or before the end if there is none. -/
def endsLine (cs : List Char) : Bool :=
  (cs.takeWhile (· != '\n')).all isBlank

/-- Whether a character may stand outside all leaves, given what follows it: it is a blank, or a
backslash that ends its line. -/
def isSkipped (c : Char) (rest : List Char) : Bool :=
  isBlank c || c == '\\' && endsLine rest

@[simp] theorem endsLine_lineFeed (cs : List Char) : endsLine ('\n' :: cs) = true := rfl

/-- Blanks before the end of a line are part of that end. -/
theorem endsLine_append {bs cs : List Char} (hb : bs.all isBlank = true) (hc : endsLine cs = true) :
    endsLine (bs ++ cs) = true := by
  induction bs with
  | nil => exact hc
  | cons b bs ih =>
    rw [List.all_cons, Bool.and_eq_true] at hb
    have hi := ih hb.2
    by_cases hn : b = '\n'
    · subst hn; rfl
    · simp only [endsLine] at hi ⊢
      simp [hn, hb.1, hi]

end Text

open Text (isBlank endsLine isSkipped)

theorem Piece.textAll_append (ps qs : List Piece) : textAll (ps ++ qs) = textAll ps ++ textAll qs := by
  induction ps with
  | nil => rfl
  | cons p ps ih => rw [List.cons_append, textAll, textAll, ih, List.append_assoc]

namespace Grammar

/-! ## Gaps -/

/-- Whether each character of a gap may stand outside all leaves, given what follows the gap. -/
def Skips (rest : List Char) : List Char → Prop
  | [] => True
  | c :: gap => isSkipped c (gap ++ rest) = true ∧ Skips rest gap

theorem skips_append {rest g h : List Char} :
    Skips rest (g ++ h) ↔ Skips (h ++ rest) g ∧ Skips rest h := by
  induction g with
  | nil => simp [Skips]
  | cons c g ih => simp [Skips, ih, and_assoc]

theorem skips_of_all_isBlank {g : List Char} (rest : List Char) (h : g.all isBlank = true) :
    Skips rest g := by
  induction g with
  | nil => trivial
  | cons c g ih =>
    rw [List.all_cons, Bool.and_eq_true] at h
    exact ⟨by simp [isSkipped, h.1], ih h.2⟩

/-! ## Reading -/

/-- The pieces stand at the front of the first text, and the second text is what is left. -/
inductive Reads : List Piece → List Char → List Char → Prop where
  | nil (cs : List Char) : Reads [] cs cs
  | token {k : Kind} {t : List Char} {ps : List Piece} {cs rest : List Char} :
    Reads ps cs rest → Reads (.token k t :: ps) (t ++ cs) rest
  | gap {g : List Char} {ps : List Piece} {cs rest : List Char} :
    Skips cs g → Reads ps cs rest → Reads (.gap g :: ps) (g ++ cs) rest
  | group {k : Kind} {inside ps : List Piece} {cs mid rest : List Char} :
    Reads inside cs mid → Reads ps mid rest → Reads (.group k inside :: ps) cs rest

namespace Reads

theorem append {ps qs : List Piece} {cs mid rest : List Char} (hp : Reads ps cs mid)
    (hq : Reads qs mid rest) : Reads (ps ++ qs) cs rest := by
  induction hp with
  | nil => exact hq
  | token _ ih => exact .token (ih hq)
  | gap hs _ ih => exact .gap hs (ih hq)
  | group hi _ _ ih => exact .group hi (ih hq)

/-- The text that pieces read is theirs, with what they leave after it. -/
theorem eq_append {ps : List Piece} {cs rest : List Char} (h : Reads ps cs rest) :
    cs = Piece.textAll ps ++ rest := by
  induction h with
  | nil => rfl
  | token _ ih => simp [Piece.textAll, Piece.text, ← ih]
  | gap _ _ ih => simp [Piece.textAll, Piece.text, ← ih]
  | group _ _ ihi ih => rw [ihi, ih]; simp [Piece.textAll, Piece.text]

theorem single_token (k : Kind) (t rest : List Char) : Reads [.token k t] (t ++ rest) rest :=
  .token (.nil rest)

theorem mark (c : Char) (rest : List Char) : Reads [Piece.mark c] (c :: rest) rest :=
  single_token .punctuation [c] rest

theorem tokens (k : Kind) (t rest : List Char) : Reads (Piece.tokens k t) (t ++ rest) rest := by
  unfold Piece.tokens
  split
  · rename_i h
    rw [List.isEmpty_iff.1 h]
    exact .nil rest
  · exact single_token k t rest

theorem single_gap {g rest : List Char} (h : Skips rest g) : Reads [.gap g] (g ++ rest) rest :=
  .gap h (.nil rest)

theorem single_group {k : Kind} {ps : List Piece} {cs rest : List Char} (h : Reads ps cs rest) :
    Reads [.group k ps] cs rest :=
  .group h (.nil rest)

/-- Two adjacent gaps read the same text as one gap with the characters of both. -/
theorem join_gaps {g h : List Char} {ps : List Piece} {cs rest : List Char}
    (hr : Reads (.gap g :: .gap h :: ps) cs rest) : Reads (.gap (g ++ h) :: ps) cs rest := by
  cases hr with
  | gap hg hr =>
    cases hr with
    | gap hh hr =>
      rw [← List.append_assoc]
      exact .gap (skips_append.2 ⟨hg, hh⟩) hr

/-- The core of a text is read after the blanks before it, and the blanks after it are left. -/
theorem trimmed (k : Kind) (cs post : List Char) :
    Reads [.gap (Text.splitTrim cs).before, .token k (Text.splitTrim cs).core] (cs ++ post)
      ((Text.splitTrim cs).after ++ post) := by
  have hr := Reads.gap (skips_of_all_isBlank _ (Text.all_before cs))
    (single_token k (Text.splitTrim cs).core ((Text.splitTrim cs).after ++ post))
  rwa [← List.append_assoc (Text.splitTrim cs).core, ← List.append_assoc, Text.splitTrim_append] at hr

end Reads

/-! ## Spacing -/

theorem isBlank_of_isSpacingChar {c : Char} (h : isSpacingChar c = true) : isBlank c = true := by
  simp only [isSpacingChar, List.contains_cons, List.contains_nil, Bool.or_false, Bool.or_eq_true,
    beq_iff_eq] at h
  rcases h with rfl | rfl | rfl | rfl <;> decide

theorem isBlank_of_isInlineBlank {c : Char} (h : isInlineBlank c = true) : isBlank c = true := by
  simp only [isInlineBlank, List.contains_cons, List.contains_nil, Bool.or_false, Bool.or_eq_true,
    beq_iff_eq] at h
  rcases h with rfl | rfl | rfl <;> decide

/-- A character at which spacing begins may be skipped, if the text after the logical line ends a
line. -/
theorem isSkipped_of_startsSpacing {c : Char} {cs post : List Char}
    (h : startsSpacing (c :: cs) = true) (hp : endsLine post = true) :
    isSkipped c (cs ++ post) = true := by
  rw [startsSpacing, Bool.or_eq_true] at h
  rcases h with h | h
  · have hb : isBlank c = true := isBlank_of_isSpacingChar (by simpa using h)
    simp [isSkipped, hb]
  · unfold continues at h
    split at h
    · rename_i rest heq
      cases heq
      split at h
      · simp [isSkipped, hp]
      · simp [isSkipped]
      · have hr : endsLine (['\r'] ++ post) = true := Text.endsLine_append (by decide) hp
        simp only [isSkipped, hr]
        decide
      · rename_i rest
        have hr : endsLine (['\r'] ++ ('\n' :: rest ++ post)) = true :=
          Text.endsLine_append (by decide) rfl
        have ht : '\r' :: '\n' :: rest ++ post = ['\r'] ++ ('\n' :: rest ++ post) := rfl
        rw [isSkipped, ht, hr]
        decide
      · cases h
    · cases h

theorem front_append_spacing (cs : List Char) : (spacing cs).front ++ (spacing cs).rest = cs :=
  Cut.front_append_scan startsSpacing cs

/-- Spacing may be skipped, if the text after the logical line ends a line. -/
theorem skips_spacing (cs : List Char) {post : List Char} (hp : endsLine post = true) :
    Skips ((spacing cs).rest ++ post) (spacing cs).front := by
  induction cs with
  | nil => trivial
  | cons c cs ih =>
    rw [spacing, Cut.scan]
    split
    · rename_i h
      refine ⟨?_, ih⟩
      rw [← List.append_assoc]
      exact (front_append_spacing cs).symm ▸ isSkipped_of_startsSpacing h hp
    · trivial

/-- `spacing` reads one gap, the spacing at the front of `cs`. -/
theorem Reads.spacing (cs : List Char) {post : List Char} (hp : endsLine post = true) :
    Reads [.gap (Grammar.spacing cs).front] (cs ++ post) ((Grammar.spacing cs).rest ++ post) := by
  have h := Reads.single_gap (skips_spacing cs hp)
  rwa [← List.append_assoc, front_append_spacing] at h

/-! ## Header blanks -/

theorem front_append_span (p : Char → Bool) (cs : List Char) :
    (Cut.span p cs).front ++ (Cut.span p cs).rest = cs :=
  List.takeWhile_append_dropWhile

theorem span_of_all {p : Char → Bool} {cs rest : List Char} (hcs : cs.all p = true)
    (hrest : rest.head?.any p = false) : Cut.span p (cs ++ rest) = ⟨cs, rest⟩ := by
  have hall := List.all_eq_true.1 hcs
  rw [Cut.span, List.takeWhile_append_of_pos hall, List.dropWhile_append_of_pos hall]
  cases rest with
  | nil => rw [List.takeWhile_nil, List.dropWhile_nil, List.append_nil]
  | cons c rest =>
    have hc : ¬p c = true := by simpa using hrest
    rw [List.takeWhile_cons_of_neg hc, List.dropWhile_cons_of_neg hc, List.append_nil]

theorem skips_inlineBlanks (cs rest : List Char) : Skips rest (inlineBlanks cs).front := by
  apply skips_of_all_isBlank
  rw [List.all_eq_true]
  intro c hc
  exact isBlank_of_isInlineBlank (List.all_eq_true.1 List.all_takeWhile c hc)

/-- `inlineBlanks` reads one gap, the blanks at the front of a header line. -/
theorem Reads.inlineBlanks (cs post : List Char) :
    Reads [.gap (Grammar.inlineBlanks cs).front] (cs ++ post)
      ((Grammar.inlineBlanks cs).rest ++ post) := by
  have h := Reads.single_gap (skips_inlineBlanks cs ((Grammar.inlineBlanks cs).rest ++ post))
  rwa [← List.append_assoc, Grammar.inlineBlanks, front_append_span] at h

/-! ## Literals -/

theorem eq_append_of_literal? {s : String} {cs rest : List Char} (h : literal? s cs = some rest) :
    cs = s.toList ++ rest := by
  unfold literal? at h
  split at h
  · rename_i hp
    cases h
    obtain ⟨t, rfl⟩ := List.isPrefixOf_iff_prefix.1 hp
    simp
  · cases h

theorem literal?_append (s : String) (rest : List Char) :
    literal? s (s.toList ++ rest) = some rest := by
  rw [literal?, if_pos (List.isPrefixOf_iff_prefix.2 (List.prefix_append _ _)), List.drop_left]

theorem eq_append_of_keyword? {s : String} {cs rest : List Char} (h : keyword? s cs = some rest) :
    cs = s.toList ++ rest :=
  eq_append_of_literal? (Option.filter_eq_some_iff.1 h).1

theorem eq_append_of_operator? {cs : List Char} {op : Cut} (h : operator? cs = some op) :
    cs = op.front ++ op.rest := by
  obtain ⟨s, _, hs⟩ := List.exists_of_findSome?_eq_some h
  obtain ⟨rest, hl, rfl⟩ := Option.map_eq_some_iff.1 hs
  exact eq_append_of_literal? hl

end Grammar

end Recipe
