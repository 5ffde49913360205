import Recipe.Grammar.Scan
import Recipe.Proofs.Text.Ascii

/-!
# Scanners

A scanner reads a text by byte offsets: it stands somewhere in a window of the text, looks at single
bytes, and moves by numbers of bytes. What must not happen to such a reader is a `Fault`, and every
operation that could go wrong is `Checked`: an index outside its list, a slice that cuts a character, a
number taken from a smaller one, a round of a loop that does not move on, and a move that leaves the
window or ends inside a character. A `Scanner` carries that it stands in its window and between
characters, so one that does not cannot be made.

`Scanner.between base seen rest post` is the scanner whose window begins after `base` and ends before
`post`, and which has read `seen` of it and has `rest` before it. Each operation is told as what it does
to such a scanner.
-/

namespace Recipe

open Text (bytes isAscii inClass)

/-- What a reader by offsets must not do. -/
inductive Fault where
  /-- It looks up what a list does not have. -/
  | index (i : Nat)
  /-- It takes a slice that is reversed, reaches past the text, or cuts a character. -/
  | slice (span : Span)
  /-- It moves out of its window or into a character. -/
  | astray (offset : Nat)
  /-- It takes a number from a smaller one. -/
  | underflow
  /-- It goes through a loop once more without having moved on. -/
  | stalled
deriving DecidableEq, Repr

/-- A computation that may end in a fault. -/
abbrev Checked := Except Fault

namespace Checked

variable {α β : Type}

@[simp] theorem ok_bind (a : α) (f : α → Checked β) : (.ok a >>= f : Checked β) = f a := rfl

@[simp] theorem map_ok (f : α → β) (a : α) : (f <$> .ok a : Checked β) = .ok (f a) := rfl

/-- The entry of a list at an index. -/
def get (xs : List α) (i : Nat) : Checked α :=
  match xs[i]? with
  | some x => .ok x
  | none => .error (.index i)

theorem get_of_getElem? {xs : List α} {i : Nat} {x : α} (h : xs[i]? = some x) : get xs i = .ok x := by
  rw [get, h]

/-- A difference of numbers. -/
def sub (a b : Nat) : Checked Nat :=
  if b ≤ a then .ok (a - b) else .error .underflow

theorem sub_of_eq_add {a b c : Nat} (h : a = c + b) : sub a b = .ok c := by
  rw [sub, if_pos (by omega), h, Nat.add_sub_cancel]

/-- The characters of a span. -/
def slice (cs : List Char) (s : Span) : Checked (List Char) :=
  match Text.slice cs s.start s.stop with
  | some ds => .ok ds
  | none => .error (.slice s)

/-- The bytes of a span. -/
def byteSlice (cs : List Char) (s : Span) : Checked (List UInt8) :=
  if s.start ≤ s.stop ∧ s.stop ≤ bytes cs then
    .ok (((Text.utf8 cs).drop s.start).take (s.stop - s.start))
  else .error (.slice s)

theorem byteSlice_append (pre mid post : List Char) :
    byteSlice (pre ++ (mid ++ post)) ⟨bytes pre, bytes pre + bytes mid⟩ = .ok (Text.utf8 mid) := by
  have hle : bytes pre + bytes mid ≤ bytes (pre ++ (mid ++ post)) := by
    rw [Text.bytes_append, Text.bytes_append]
    omega
  rw [byteSlice, if_pos ⟨Nat.le_add_right _ _, hle⟩, Text.utf8_append, Text.utf8_append,
    List.drop_left' (Text.length_utf8 pre), Nat.add_sub_cancel_left, List.take_left' (Text.length_utf8 mid)]

/-! ## Loops -/

/-- How a round of a loop ends: with the state of the next round, or with the result. -/
inductive Round (α β : Type) where
  | again (next : α)
  | done (result : β)

/-- Goes through a loop. Each round has to leave less to do than the one before. -/
def loop (left : α → Nat) (round : α → Checked (Round α β)) (a : α) : Checked β :=
  match round a with
  | .error f => .error f
  | .ok (.done b) => .ok b
  | .ok (.again next) => if left next < left a then loop left round next else .error .stalled
termination_by left a

variable {left : α → Nat} {round : α → Checked (Round α β)} {a next : α} {b : β}

theorem loop_done (h : round a = .ok (.done b)) : loop left round a = .ok b := by
  rw [loop, h]

theorem loop_again (h : round a = .ok (.again next)) (hl : left next < left a) :
    loop left round a = loop left round next := by
  rw [loop, h]
  exact if_pos hl

end Checked

/-- A place in a window of a text. It is never outside the window nor inside a character. -/
@[ext] structure Scanner where
  text : List Char
  start : Nat
  pos : Nat
  stop : Nat
  start_le_pos : start ≤ pos
  pos_le_stop : pos ≤ stop
  stop_le_bytes : stop ≤ bytes text
  isBoundary_pos : Text.isBoundary text pos = true

namespace Scanner

/-- Stands at the beginning of a window. -/
def enter (text : List Char) (window : Span) : Checked Scanner :=
  if h : window.start ≤ window.stop ∧ window.stop ≤ bytes text ∧
      Text.isBoundary text window.start = true then
    .ok ⟨text, window.start, window.start, window.stop, Nat.le_refl _, h.1, h.2.1, h.2.2⟩
  else .error (.astray window.start)

variable (s : Scanner)

/-- Moves to another place of the window. -/
def moveTo (p : Nat) : Checked Scanner :=
  if h : s.start ≤ p ∧ p ≤ s.stop ∧ Text.isBoundary s.text p = true then
    .ok ⟨s.text, s.start, p, s.stop, h.1, h.2.1, s.stop_le_bytes, h.2.2⟩
  else .error (.astray p)

/-- The bytes before the scanner in its window. -/
def left : Nat :=
  s.stop - s.pos

/-- The byte some bytes ahead, if the window has it. -/
def peekAt (ahead : Nat) : Checked (Option UInt8) :=
  if s.pos + ahead < s.stop then some <$> Checked.get (Text.utf8 s.text) (s.pos + ahead) else .ok none

/-- The next byte. -/
def peek : Checked (Option UInt8) :=
  s.peekAt 0

/-- Whether the window ends here. -/
def atEnd : Bool :=
  decide (s.stop ≤ s.pos)

/-- Moves by one byte. -/
def step : Checked Scanner :=
  s.moveTo (s.pos + 1)

/-- Moves by one byte, unless the window ends here. -/
def bump : Checked Scanner :=
  if s.atEnd then .ok s else s.step

/-- Moves by one character of the text, but not past the window. -/
def bumpChar : Checked Scanner :=
  let next := (Text.slice s.text s.pos (bytes s.text)).bind List.head?
  s.moveTo (min (s.pos + next.elim 1 Char.utf8Size) s.stop)

/-- Whether the rest of the window begins with a literal text. -/
def startsWith (literal : String) : Checked Bool := do
  let rest ← Checked.byteSlice s.text ⟨min s.pos s.stop, s.stop⟩
  .ok ((Text.utf8 literal.toList).isPrefixOf rest)

/-- Moves past a literal text. -/
def eat? (literal : String) : Checked (Option Scanner) := do
  if ← s.startsWith literal then some <$> s.moveTo (s.pos + bytes literal.toList) else .ok none

/-- Moves once if a test holds. -/
def advanceRound (test : Scanner → Checked Bool) (move : Scanner → Checked Scanner) :
    Checked (Checked.Round Scanner Scanner) := do
  if ← test s then .again <$> move s else .ok (.done s)

/-- Moves as long as a test holds. -/
def advanceWhile (test : Scanner → Checked Bool) (move : Scanner → Checked Scanner) : Checked Scanner :=
  Checked.loop left (advanceRound · test move) s

/-! ## Where a scanner stands -/

/-- The scanner that has read `seen` of its window and has `rest` before it. -/
def between (base seen rest post : List Char) : Scanner where
  text := base ++ (seen ++ (rest ++ post))
  start := bytes base
  pos := bytes base + bytes seen
  stop := bytes base + bytes seen + bytes rest
  start_le_pos := Nat.le_add_right _ _
  pos_le_stop := Nat.le_add_right _ _
  stop_le_bytes := by simp only [Text.bytes_append]; omega
  isBoundary_pos := by
    rw [← List.append_assoc, ← Text.bytes_append]
    exact Text.isBoundary_append _ _

variable {base seen rest post : List Char} {c : Char} {cs : List Char}

theorem text_between : (between base seen rest post).text = base ++ (seen ++ (rest ++ post)) := rfl

theorem start_between : (between base seen rest post).start = bytes base := rfl

theorem pos_between : (between base seen rest post).pos = bytes base + bytes seen := rfl

theorem stop_between :
    (between base seen rest post).stop = bytes base + bytes seen + bytes rest := rfl

theorem left_between : (between base seen rest post).left = bytes rest :=
  Nat.add_sub_cancel_left _ _

theorem left_between_lt {seen' : List Char} (m : List Char) (h : m ≠ []) :
    (between base seen' rest post).left < (between base seen (m ++ rest) post).left := by
  have hpos := Text.bytes_pos h
  rw [left_between, left_between, Text.bytes_append]
  omega

theorem enter_between (base rest post : List Char) :
    enter (base ++ (rest ++ post)) ⟨bytes base, bytes base + bytes rest⟩
      = .ok (between base [] rest post) := by
  have h := (between base [] rest post).stop_le_bytes
  exact dif_pos ⟨Nat.le_add_right _ _, h, Text.isBoundary_append _ _⟩

/-- A scanner can move to every place of its window that lies between characters. -/
theorem moveTo_between {seen' rest' : List Char} (h : seen ++ rest = seen' ++ rest') {p : Nat}
    (hp : p = bytes base + bytes seen') :
    (between base seen rest post).moveTo p = .ok (between base seen' rest' post) := by
  have htext : (between base seen rest post).text = (between base seen' rest' post).text := by
    rw [text_between, text_between, ← List.append_assoc seen, h, List.append_assoc]
  have hstop : (between base seen rest post).stop = (between base seen' rest' post).stop := by
    have := congrArg bytes h
    simp only [Text.bytes_append] at this
    simp only [stop_between]
    omega
  have hb := (between base seen' rest' post).isBoundary_pos
  have hle := (between base seen' rest' post).pos_le_stop
  rw [pos_between, ← hp] at hb hle
  rw [← htext] at hb
  rw [← hstop] at hle
  rw [moveTo, dif_pos ⟨by rw [start_between]; omega, hle, hb⟩]
  exact congrArg _ (Scanner.ext htext rfl hp hstop)

theorem moveTo_stop_between :
    (between base seen rest post).moveTo (between base seen rest post).stop
      = .ok (between base (seen ++ rest) [] post) :=
  moveTo_between (List.append_nil _).symm (by rw [stop_between, Text.bytes_append, Nat.add_assoc])

/-- Looking ahead shows the bytes of the rest of the window. -/
theorem peekAt_between (n : Nat) :
    (between base seen rest post).peekAt n = .ok (Text.utf8 rest)[n]? := by
  rw [peekAt]
  split
  · rename_i h
    have hn : n < bytes rest := by
      rw [pos_between, stop_between] at h
      omega
    have hb := Text.getElem?_utf8 (base ++ seen) rest post hn
    rw [Text.bytes_append, List.append_assoc] at hb
    have hlt : n < (Text.utf8 rest).length := by rwa [Text.length_utf8]
    rw [List.getElem?_eq_getElem hlt] at hb ⊢
    rw [text_between, pos_between, Checked.get_of_getElem? hb, Checked.map_ok]
  · rename_i h
    rw [pos_between, stop_between] at h
    rw [List.getElem?_eq_none (by rw [Text.length_utf8]; omega)]

theorem peek_between : (between base seen rest post).peek = .ok (Text.utf8 rest).head? := by
  rw [peek, peekAt_between, List.head?_eq_getElem?]

theorem atEnd_between : (between base seen rest post).atEnd = rest.isEmpty := by
  rw [atEnd, pos_between, stop_between, Bool.eq_iff_iff, decide_eq_true_iff, List.isEmpty_iff,
    ← Text.bytes_eq_zero]
  omega

theorem step_between (hc : isAscii c = true) :
    (between base seen (c :: cs) post).step = .ok (between base (seen ++ [c]) cs post) := by
  refine moveTo_between (by simp) ?_
  rw [pos_between, Text.bytes_append, Text.bytes_cons, Text.utf8Size_of_isAscii hc, Text.bytes_nil,
    Nat.add_assoc]

theorem bump_between (hc : isAscii c = true) :
    (between base seen (c :: cs) post).bump = .ok (between base (seen ++ [c]) cs post) := by
  rw [bump, atEnd_between, step_between hc]
  rfl

theorem bumpChar_between :
    (between base seen (c :: cs) post).bumpChar = .ok (between base (seen ++ [c]) cs post) := by
  have hslice := Text.slice_append (base ++ seen) (c :: cs ++ post) []
  rw [List.append_nil, List.append_assoc, Text.bytes_append] at hslice
  have hend : bytes (between base seen (c :: cs) post).text
      = bytes base + bytes seen + bytes (c :: cs ++ post) := by
    simp only [text_between, Text.bytes_append, Nat.add_assoc]
  rw [bumpChar, hend, pos_between, text_between, hslice]
  refine moveTo_between (by simp) ?_
  simp only [Option.bind_some, List.cons_append, List.head?_cons, Option.elim_some, stop_between,
    Text.bytes_append, Text.bytes_cons, Text.bytes_nil]
  omega

/-- A scanner with no characters left in its window does not move. -/
theorem bumpChar_between_nil :
    (between base seen [] post).bumpChar = .ok (between base seen [] post) := by
  refine moveTo_between rfl ?_
  rw [pos_between, stop_between, Text.bytes_nil]
  omega

theorem startsWith_between {literal : String} (h : literal.toList.all isAscii = true) :
    (between base seen rest post).startsWith literal = .ok (literal.toList.isPrefixOf rest) := by
  have hslice := Checked.byteSlice_append (base ++ seen) rest post
  rw [List.append_assoc, Text.bytes_append] at hslice
  rw [startsWith, text_between, pos_between, stop_between, Nat.min_eq_left (Nat.le_add_right _ _), hslice,
    Checked.ok_bind, Text.isPrefixOf_utf8 h]

theorem eat?_between {literal : String} (h : literal.toList.all isAscii = true) :
    (between base seen rest post).eat? literal
      = .ok ((Grammar.literal? literal rest).map fun rest =>
          between base (seen ++ literal.toList) rest post) := by
  rw [eat?, startsWith_between h, Checked.ok_bind, Grammar.literal?]
  split
  · rename_i hp
    obtain ⟨after, rfl⟩ := List.isPrefixOf_iff_prefix.1 hp
    have hpos : (between base seen (literal.toList ++ after) post).pos + bytes literal.toList
        = bytes base + bytes (seen ++ literal.toList) := by
      rw [pos_between, Text.bytes_append, Nat.add_assoc]
    rw [moveTo_between (List.append_assoc _ _ _).symm hpos, List.drop_left]
    rfl
  · rfl

/-- A scanner that moves over one character at a time while its test holds moves over the front of
the scan whose test says the same of the characters ahead. -/
theorem advanceWhile_between {test : Scanner → Checked Bool} {move : Scanner → Checked Scanner}
    {p : List Char → Bool} (hnil : ∀ seen, test (between base seen [] post) = .ok false)
    (htest : ∀ seen c cs, test (between base seen (c :: cs) post) = .ok (p (c :: cs)))
    (hmove : ∀ seen c cs, p (c :: cs) = true →
      move (between base seen (c :: cs) post) = .ok (between base (seen ++ [c]) cs post)) :
    (between base seen rest post).advanceWhile test move
      = .ok (between base (seen ++ (Grammar.Cut.scan p rest).front) (Grammar.Cut.scan p rest).rest post) := by
  induction rest generalizing seen with
  | nil =>
    rw [Grammar.Cut.scan, List.append_nil]
    exact Checked.loop_done (by rw [advanceRound, hnil]; rfl)
  | cons c cs ih =>
    rw [Grammar.Cut.scan]
    split
    · rename_i hp
      have hround : (between base seen (c :: cs) post).advanceRound test move
          = .ok (.again (between base (seen ++ [c]) cs post)) := by
        rw [advanceRound, htest, Checked.ok_bind, if_pos hp, hmove seen c cs hp]
        rfl
      have hleft : (between base (seen ++ [c]) cs post).left < (between base seen ([c] ++ cs) post).left :=
        left_between_lt [c] (List.cons_ne_nil c [])
      have hrest := @ih (seen ++ [c])
      rw [List.append_assoc] at hrest
      exact (Checked.loop_again hround hleft).trans hrest
    · rename_i hp
      rw [List.append_nil]
      refine Checked.loop_done ?_
      rw [advanceRound, htest, Checked.ok_bind, if_neg hp]

end Scanner

end Recipe
