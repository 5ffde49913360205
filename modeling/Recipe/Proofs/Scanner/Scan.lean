import Recipe.Proofs.Grammar.Reading
import Recipe.Proofs.Scanner.Basic

/-!
# Scanning by offsets

What a scanner looks for: keywords and operators, blanks and continuations, words, brace groups and
names. Each of these scans goes over the window byte by byte or jumps, and each of them moves a scanner
exactly as the scan of the same name cuts the text before it.
-/

namespace Recipe

open Text (bytes isAscii inClass AsciiClass)

/-! ## Classes of ASCII characters -/

namespace Grammar

open Text (asciiClass_isAlphanum asciiClass_contains asciiClass_beq)

theorem asciiClass_isNameChar : AsciiClass isNameChar :=
  asciiClass_isAlphanum.or (asciiClass_contains (by decide))

theorem asciiClass_startsName : AsciiClass startsName :=
  asciiClass_isNameChar.or (asciiClass_beq (by decide))

theorem asciiClass_isTaskNameChar : AsciiClass isTaskNameChar :=
  asciiClass_isNameChar.or (asciiClass_contains (by decide))

theorem asciiClass_isDefinitionNameChar : AsciiClass isDefinitionNameChar :=
  asciiClass_isAlphanum.or (asciiClass_beq (by decide))

theorem asciiClass_isFlagChar : AsciiClass isFlagChar :=
  asciiClass_isAlphanum.or (asciiClass_contains (by decide))

theorem asciiClass_isInlineBlank : AsciiClass isInlineBlank :=
  asciiClass_contains (by decide)

theorem asciiClass_isSpacingChar : AsciiClass isSpacingChar :=
  asciiClass_contains (by decide)

theorem asciiClass_endsWord : AsciiClass endsWord :=
  asciiClass_contains (by decide)

theorem Cut.scan_head? (p : Char → Bool) (cs : List Char) :
    Cut.scan (·.head?.any p) cs = Cut.span p cs := by
  induction cs with
  | nil => rfl
  | cons c cs ih =>
    rw [Cut.scan, ih, List.head?_cons, Option.any_some]
    cases h : p c <;> simp [Cut.span, Cut.push, h]

end Grammar

namespace Checked

theorem anyM_ok {α : Type} {xs : List α} {f : α → Checked Bool} {p : α → Bool}
    (h : ∀ x ∈ xs, f x = .ok (p x)) : xs.anyM f = .ok (xs.any p) := by
  induction xs with
  | nil => rfl
  | cons x xs ih =>
    rw [List.anyM, h x List.mem_cons_self, ok_bind, List.any_cons]
    cases p x with
    | true => rfl
    | false => exact ih fun y hy => h y (List.mem_cons_of_mem _ hy)

theorem findM?_ok {α : Type} {xs : List α} {f : α → Checked Bool} {p : α → Bool}
    (h : ∀ x ∈ xs, f x = .ok (p x)) : xs.findM? f = .ok (xs.find? p) := by
  induction xs with
  | nil => rfl
  | cons x xs ih =>
    rw [List.findM?, h x List.mem_cons_self, ok_bind, List.find?_cons]
    cases p x with
    | true => rfl
    | false => exact ih fun y hy => h y (List.mem_cons_of_mem _ hy)

end Checked

namespace Scanner

open Grammar (Cut)

variable (s : Scanner)

/-! ## Keywords and operators -/

/-- Moves past a word that does not go on with a byte of a name. -/
def eatKeyword? (word : String) : Checked (Option Scanner) := do
  if ← s.startsWith word then
    if (← s.peekAt (bytes word.toList)).any (inClass Grammar.isNameChar) then .ok none else s.eat? word
  else .ok none

/-- Whether an operator comes next. -/
def atOperator : Checked Bool :=
  Grammar.operators.anyM s.startsWith

/-- Moves past the first of the operators that comes next. -/
def eatOperator? : Checked (Option Scanner) := do
  match ← Grammar.operators.findM? s.startsWith with
  | some op => s.eat? op
  | none => .ok none

variable {base seen rest post : List Char}

theorem literal?_cons {literal : String} (c : Char) (h : literal.toList = [c]) (d : Char) (cs : List Char) :
    Grammar.literal? literal (d :: cs) = if c = d then some cs else none := by
  simp [Grammar.literal?, h]

theorem literal?_nil {literal : String} (c : Char) (h : literal.toList = [c]) :
    Grammar.literal? literal [] = none := by
  simp [Grammar.literal?, h]

theorem eatKeyword?_between {word : String} (h : word.toList.all isAscii = true) :
    (between base seen rest post).eatKeyword? word
      = .ok ((Grammar.keyword? word rest).map fun rest => between base (seen ++ word.toList) rest post) := by
  rw [eatKeyword?, startsWith_between h, eat?_between h, Grammar.keyword?, Grammar.literal?, Checked.ok_bind]
  split
  · rename_i hp
    obtain ⟨after, rfl⟩ := List.isPrefixOf_iff_prefix.1 hp
    have hbyte : (Text.utf8 (word.toList ++ after))[bytes word.toList]? = (Text.utf8 after).head? := by
      rw [Text.utf8_append, List.getElem?_append_right (Nat.le_of_eq (Text.length_utf8 _)), Text.length_utf8,
        Nat.sub_self, List.head?_eq_getElem?]
    rw [peekAt_between, Checked.ok_bind, hbyte, Text.any_head?_utf8 Grammar.asciiClass_isNameChar,
      List.drop_left, Option.filter_some]
    cases after.head?.any Grammar.isNameChar <;> rfl
  · rfl

theorem isAscii_of_mem_operators {op : String} (h : op ∈ Grammar.operators) :
    op.toList.all isAscii = true :=
  (by decide : ∀ op ∈ Grammar.operators, op.toList.all isAscii = true) op h

theorem atOperator_between :
    (between base seen rest post).atOperator = .ok (Grammar.operator? rest).isSome := by
  rw [atOperator, Checked.anyM_ok fun op hop => startsWith_between (isAscii_of_mem_operators hop),
    Grammar.operator?]
  congr 1
  rw [Bool.eq_iff_iff, List.findSome?_isSome_iff, List.any_eq_true]
  simp only [Option.isSome_map, Grammar.literal?, Option.isSome_ite]

/-- The first of `ops` that can be read off `cs` is the first one that `cs` begins with. -/
theorem findSome?_literal? (ops : List String) (cs : List Char) :
    ops.findSome? (fun op => (Grammar.literal? op cs).map fun rest => Cut.mk op.toList rest)
      = (ops.find? (·.toList.isPrefixOf cs)).bind fun op =>
          (Grammar.literal? op cs).map fun rest => Cut.mk op.toList rest := by
  induction ops with
  | nil => rfl
  | cons op ops ih =>
    rw [List.findSome?_cons, List.find?_cons, ih]
    cases h : op.toList.isPrefixOf cs with
    | true => rw [Option.bind_some, Grammar.literal?, if_pos h, Option.map_some]
    | false => rw [Grammar.literal?, if_neg (Bool.eq_false_iff.1 h), Option.map_none]

theorem eatOperator?_between :
    (between base seen rest post).eatOperator?
      = .ok ((Grammar.operator? rest).map fun op => between base (seen ++ op.front) op.rest post) := by
  rw [eatOperator?, Checked.findM?_ok fun op hop => startsWith_between (isAscii_of_mem_operators hop),
    Checked.ok_bind, Grammar.operator?, findSome?_literal?]
  cases h : Grammar.operators.find? (·.toList.isPrefixOf rest) with
  | none => rfl
  | some op =>
    have hop := isAscii_of_mem_operators (List.mem_of_find?_eq_some h)
    simp only [eat?_between hop, Option.bind_some, Option.map_map]
    rfl

/-! ## Spacing and words -/

/-- Moves over the bytes of a class. -/
def skipClass (p : Char → Bool) : Checked Scanner :=
  s.advanceWhile (fun s => (·.any (inClass p)) <$> s.peek) step

/-- Whether a backslash comes next that joins the next line or ends the window. -/
def atContinuation : Checked Bool := do
  let head ← s.peek
  let second ← s.peekAt 1
  let third ← s.peekAt 2
  .ok (head == some '\\'.toUInt8 && (second == none || second == some '\n'.toUInt8 ||
    second == some '\r'.toUInt8 && (third == none || third == some '\n'.toUInt8)))

/-- Whether spacing comes next. -/
def startsSpacing : Checked Bool := do
  let head ← s.peek
  let joins ← s.atContinuation
  .ok (head.any (inClass Grammar.isSpacingChar) || joins)

/-- Whether a byte of a word comes next. -/
def startsWord : Checked Bool := do
  let head ← s.peek
  let joins ← s.atContinuation
  .ok (head.any (!inClass Grammar.endsWord ·) && !joins)

/-- Moves over blanks, line ends and continuations, byte by byte. -/
def skipSpacing : Checked Scanner :=
  s.advanceWhile startsSpacing step

/-- Moves over a word, character by character. -/
def scanWord : Checked Scanner :=
  s.advanceWhile startsWord bumpChar

theorem skipClass_between {p : Char → Bool} (hp : AsciiClass p) :
    (between base seen rest post).skipClass p
      = .ok (between base (seen ++ (Cut.span p rest).front) (Cut.span p rest).rest post) := by
  have htest : ∀ seen cs, (·.any (inClass p)) <$> (between base seen cs post).peek
      = .ok (cs.head?.any p) := by
    intro seen cs
    rw [peek_between, Checked.map_ok, Text.any_head?_utf8 hp]
  rw [← Cut.scan_head?]
  exact advanceWhile_between (fun seen => htest seen []) (fun seen c cs => htest seen (c :: cs))
    fun seen c cs h => step_between (hp c h)

theorem continues_cons (c : Char) (cs : List Char) :
    Grammar.continues (c :: cs) = (c == '\\' && (cs.head? == none || cs.head? == some '\n' ||
      cs.head? == some '\r' && (cs.tail.head? == none || cs.tail.head? == some '\n'))) := by
  by_cases hc : c = '\\'
  · subst hc
    rcases cs with - | ⟨d, ds⟩
    · rfl
    by_cases hn : d = '\n'
    · subst hn
      rfl
    by_cases hr : d = '\r'
    · subst hr
      rcases ds with - | ⟨e, es⟩
      · rfl
      · by_cases he : e = '\n' <;> simp [Grammar.continues, he]
    · simp [Grammar.continues, hn, hr]
  · simp [Grammar.continues, hc]

theorem head?_utf8_beq_none (cs : List Char) : ((Text.utf8 cs).head? == none) = (cs.head? == none) := by
  cases cs with
  | nil => rfl
  | cons c cs =>
    obtain ⟨b, -, hb⟩ := Text.exists_head?_utf8 c cs
    rw [hb]
    rfl

theorem atContinuation_between :
    (between base seen rest post).atContinuation = .ok (Grammar.continues rest) := by
  rw [atContinuation, peek_between, peekAt_between, peekAt_between]
  simp only [Checked.ok_bind, Text.head?_utf8_beq (show isAscii '\\' = true by decide)]
  congr 1
  cases rest with
  | nil => rfl
  | cons c cs =>
    rw [continues_cons, List.head?_cons, Option.some_beq_some]
    by_cases hc : c = '\\'
    · subst hc
      rw [Text.getElem?_one_utf8 (by decide), head?_utf8_beq_none, Text.head?_utf8_beq (by decide),
        Text.head?_utf8_beq (by decide)]
      by_cases hcs : cs.head? = some '\r'
      · obtain ⟨ds, rfl⟩ := List.head?_eq_some_iff.1 hcs
        have hthird : (Text.utf8 ('\\' :: '\r' :: ds))[2]? = (Text.utf8 ds).head? := by
          rw [Text.utf8_cons_ascii (by decide), List.getElem?_cons_succ, Text.getElem?_one_utf8 (by decide)]
        rw [hthird, head?_utf8_beq_none, Text.head?_utf8_beq (by decide), List.tail_cons]
      · rw [beq_eq_false_iff_ne.2 hcs, Bool.false_and, Bool.false_and]
    · rw [beq_eq_false_iff_ne.2 hc, Bool.false_and, Bool.false_and]

theorem skipSpacing_between :
    (between base seen rest post).skipSpacing
      = .ok (between base (seen ++ (Grammar.spacing rest).front) (Grammar.spacing rest).rest post) := by
  have htest : ∀ seen cs, startsSpacing (between base seen cs post) = .ok (Grammar.startsSpacing cs) := by
    intro seen cs
    rw [startsSpacing, peek_between, atContinuation_between, Checked.ok_bind, Checked.ok_bind,
      Text.any_head?_utf8 Grammar.asciiClass_isSpacingChar]
    rfl
  refine advanceWhile_between (fun seen => htest seen []) (fun seen c cs => htest seen (c :: cs)) ?_
  intro seen c cs h
  rw [Grammar.startsSpacing, Bool.or_eq_true] at h
  refine step_between (h.elim (Grammar.asciiClass_isSpacingChar c) fun h => ?_)
  rw [continues_cons, Bool.and_eq_true, beq_iff_eq] at h
  exact h.1 ▸ rfl

theorem scanWord_between :
    (between base seen rest post).scanWord
      = .ok (between base (seen ++ (Grammar.word rest).front) (Grammar.word rest).rest post) := by
  refine advanceWhile_between (fun seen => ?_) (fun seen c cs => ?_) fun seen c cs _ => bumpChar_between
  · rw [startsWord, peek_between, atContinuation_between]
    rfl
  · obtain ⟨b, hb, hh⟩ := Text.exists_head?_utf8 c cs
    have hany := Text.any_head?_utf8 Grammar.asciiClass_endsWord (c :: cs)
    rw [hh, Option.any_some, List.head?_cons, Option.any_some] at hany
    rw [startsWord, peek_between, atContinuation_between, Checked.ok_bind, Checked.ok_bind, hh,
      Option.any_some, hany, Grammar.startsWord, Bool.not_or]
    rfl

/-! ## Brace groups -/

/-- Looks among the next `n` bytes from offset `i` for the brace that closes `depth` groups, unless a
byte that `stops` comes first. -/
def closing (stops : UInt8 → Bool) : (n i depth : Nat) → Checked (Option Nat)
  | 0, _, _ => .ok none
  | n + 1, i, depth => do
    let b ← Checked.get (Text.utf8 s.text) i
    if stops b then .ok none
    else if b == '{'.toUInt8 then closing stops n (i + 1) (depth + 1)
    else if b == '}'.toUInt8 then
      let depth ← Checked.sub depth 1
      if depth = 0 then .ok (some i) else closing stops n (i + 1) depth
    else closing stops n (i + 1) depth

/-- Looks for the brace that closes the group two bytes ahead. -/
def braceEnd (stops : UInt8 → Bool) : Checked (Option Nat) :=
  s.closing stops (s.stop - (s.pos + 2)) (s.pos + 2) 1

/-- Whether a dollar sign comes next and an open brace after it. -/
def opensGroup : Checked Bool := do
  let head ← s.peek
  let second ← s.peekAt 1
  .ok (head == some '$'.toUInt8 && second == some '{'.toUInt8)

variable {s} {stops : UInt8 → Bool} {p : Char → Bool}

/-- The bytes of characters outside ASCII are passed over. -/
theorem closing_skip (hs : ∀ b, stops b = inClass p b) {k i : Nat}
    (h : ∀ j < k, ∃ b, (Text.utf8 s.text)[i + j]? = some b ∧ 128 ≤ b) (n depth : Nat) :
    s.closing stops (n + k) i depth = s.closing stops n (i + k) depth := by
  induction k generalizing i with
  | zero => rfl
  | succ k ih =>
    obtain ⟨b, hb, hle⟩ := h 0 (Nat.succ_pos k)
    rw [Nat.add_zero] at hb
    have hrest := @ih (i + 1) fun j hj => by
      have hj' := h (j + 1) (Nat.succ_lt_succ hj)
      rwa [Nat.add_comm j 1, ← Nat.add_assoc] at hj'
    rw [← Nat.add_assoc, closing, Checked.get_of_getElem? hb, Checked.ok_bind, hs, Text.inClass_of_le hle,
      Text.beq_toUInt8_of_le hle (by decide), Text.beq_toUInt8_of_le hle (by decide), Nat.add_comm k 1,
      ← Nat.add_assoc]
    exact hrest

/-- The byte of an ASCII character closes a group, opens one, or is passed over. -/
theorem closing_ascii (hs : ∀ b, stops b = inClass p b) {c : Char} (hc : isAscii c = true) {i : Nat}
    (hb : (Text.utf8 s.text)[i]? = some c.toUInt8) (n depth : Nat) :
    s.closing stops (n + 1) i (depth + 1)
      = if p c then .ok none
        else if c = '}' ∧ depth = 0 then .ok (some i)
        else s.closing stops n (i + 1)
          ((if c = '{' then depth + 1 else if c = '}' then depth - 1 else depth) + 1) := by
  rw [closing, Checked.get_of_getElem? hb, Checked.ok_bind, hs, Text.inClass_toUInt8 hc,
    Text.toUInt8_beq hc (by decide), Text.toUInt8_beq hc (by decide), Checked.sub_of_eq_add rfl,
      Checked.ok_bind]
  by_cases hopen : c = '{'
  · simp [hopen]
  by_cases hclose : c = '}'
  · cases depth <;> simp [hclose]
  · simp [hopen, hclose]

/-- The search goes over a text as `Grammar.closeBrace` does, with one group more to close. -/
theorem closing_append (hp : AsciiClass p) (hs : ∀ b, stops b = inClass p b) {pre mid post : List Char}
    (ht : s.text = pre ++ (mid ++ post)) (depth : Nat) :
    s.closing stops (bytes mid) (bytes pre) (depth + 1)
      = .ok ((Grammar.closeBrace p depth mid).map fun r => bytes pre + bytes r.front) := by
  induction mid generalizing pre depth with
  | nil => rfl
  | cons c mid ih =>
    -- What the search gives after the character is what it gives with the character in front.
    have hnext : ∀ d, s.closing stops (bytes mid) (bytes pre + c.utf8Size) (d + 1)
        = .ok (((Grammar.closeBrace p d mid).map (Cut.push [c])).map fun r => bytes pre + bytes r.front) := by
      intro d
      have hi := @ih (pre ++ [c]) (by rw [ht]; simp) d
      rw [show bytes (pre ++ [c]) = bytes pre + c.utf8Size by simp] at hi
      rw [hi, Option.map_map]
      congr 2
      funext r
      simp [Cut.push, Nat.add_assoc]
    have hbyte : ∀ j < c.utf8Size, (Text.utf8 s.text)[bytes pre + j]? = (String.utf8EncodeChar c)[j]? := by
      intro j hj
      have hm := Text.getElem?_utf8 pre (c :: mid) post (c := j) (by rw [Text.bytes_cons]; omega)
      rw [ht, hm, Text.utf8_cons, List.getElem?_append_left (by rwa [String.length_utf8EncodeChar])]
    rw [Text.bytes_cons, Nat.add_comm, Grammar.closeBrace]
    cases hc : isAscii c with
    | false =>
      have hskip : ∀ j < c.utf8Size, ∃ b, (Text.utf8 s.text)[bytes pre + j]? = some b ∧ 128 ≤ b := by
        intro j hj
        have hj' := hbyte j hj
        rw [← String.length_utf8EncodeChar] at hj
        rw [List.getElem?_eq_getElem hj] at hj'
        exact ⟨_, hj', Text.le_of_mem_utf8EncodeChar hc (List.getElem_mem hj)⟩
      have hpc : p c = false := Bool.eq_false_iff.2 fun h => Bool.eq_false_iff.1 hc (hp c h)
      have hopen : c ≠ '{' := fun h => Bool.eq_false_iff.1 hc (h ▸ rfl)
      have hclose : c ≠ '}' := fun h => Bool.eq_false_iff.1 hc (h ▸ rfl)
      rw [closing_skip hs hskip, hnext depth]
      simp [hpc, hopen, hclose]
    | true =>
      have hsize := Text.utf8Size_of_isAscii hc
      have hb : (Text.utf8 s.text)[bytes pre]? = some c.toUInt8 := by
        have h0 := hbyte 0 (by omega)
        rwa [String.utf8EncodeChar_eq_singleton hsize] at h0
      rw [hsize] at hnext ⊢
      rw [closing_ascii hs hc hb, hnext]
      split
      · rfl
      split
      · rfl
      · rfl

variable {base seen rest post : List Char}

theorem opensGroup_between :
    (between base seen rest post).opensGroup
      = .ok (rest.head? == some '$' && rest.tail.head? == some '{') := by
  rw [opensGroup, peek_between, peekAt_between, Checked.ok_bind, Checked.ok_bind,
    Text.head?_utf8_beq (by decide)]
  by_cases h : rest.head? = some '$'
  · obtain ⟨cs, rfl⟩ := List.head?_eq_some_iff.1 h
    rw [Text.getElem?_one_utf8 (by decide), Text.head?_utf8_beq (by decide), List.tail_cons]
  · rw [beq_eq_false_iff_ne.2 h, Bool.false_and, Bool.false_and]

theorem braceEnd_between (hp : AsciiClass p) (hs : ∀ b, stops b = inClass p b) :
    (between base seen ('$' :: '{' :: rest) post).braceEnd stops
      = .ok ((Grammar.closeBrace p 0 rest).map fun r => bytes base + bytes seen + 2 + bytes r.front) := by
  have hpre : bytes (base ++ (seen ++ ['$', '{'])) = bytes base + bytes seen + 2 := by
    simp only [Text.bytes_append]
    exact (Nat.add_assoc _ _ _).symm
  have hleft : bytes base + bytes seen + bytes ('$' :: '{' :: rest) - (bytes base + bytes seen + 2)
      = bytes rest := by
    have h : bytes ('$' :: '{' :: rest) = 2 + bytes rest := Nat.add_assoc 1 1 _ |>.symm
    omega
  have htext : (between base seen ('$' :: '{' :: rest) post).text
      = (base ++ (seen ++ ['$', '{'])) ++ (rest ++ post) := by
    simp [text_between]
  have h := closing_append hp hs htext 0
  rw [hpre] at h
  rw [braceEnd, pos_between, stop_between, hleft]
  exact h

/-- If the grammar finds a brace group after a dollar sign, the scanner finds that a group is opened
there. -/
theorem opensGroup_of_braceGroup {g : Cut} (h : Grammar.braceGroup p rest = some g) :
    (between base seen ('$' :: rest) post).opensGroup = .ok true := by
  rw [opensGroup_between, Grammar.eq_of_braceGroup h]
  rfl

theorem braceEnd_of_braceGroup (hp : AsciiClass p) (hs : ∀ b, stops b = inClass p b) {g : Cut}
    (h : Grammar.braceGroup p rest = some g) : (between base seen ('$' :: rest) post).braceEnd stops
      = .ok (some (bytes base + bytes seen + 2 + bytes g.front)) := by
  obtain ⟨cs, rfl⟩ : ∃ cs, rest = '{' :: cs := ⟨_, Grammar.eq_of_braceGroup h⟩
  obtain ⟨r, hr, rfl⟩ := Option.map_eq_some_iff.1 h
  rw [braceEnd_between hp hs, hr]
  rfl

theorem moveTo_of_braceGroup {g : Cut} (h : Grammar.braceGroup p rest = some g) :
    (between base seen ('$' :: rest) post).moveTo (bytes base + bytes seen + 2 + bytes g.front + 1)
      = .ok (between base (seen ++ ('$' :: '{' :: g.front ++ ['}'])) g.rest post) := by
  refine moveTo_between (by rw [Grammar.eq_of_braceGroup h]; simp) ?_
  have hb : bytes ('$' :: '{' :: g.front ++ ['}']) = 2 + bytes g.front + 1 := by
    simp only [List.cons_append, Text.bytes_cons, Text.bytes_append, Text.bytes_nil]
    exact (Nat.add_assoc 1 1 _).symm
  rw [Text.bytes_append, hb]
  omega

/-- A jump over a brace group moves on. -/
theorem left_of_braceGroup {g : Cut} {seen' : List Char} (h : Grammar.braceGroup p rest = some g) :
    (between base seen' g.rest post).left < (between base seen ('$' :: rest) post).left := by
  have hrest : '$' :: rest = ('$' :: '{' :: g.front ++ ['}']) ++ g.rest := by
    rw [Grammar.eq_of_braceGroup h]
    simp
  rw [hrest]
  exact left_between_lt _ (List.cons_ne_nil _ _)

theorem braceEnd_of_braceGroup_eq_none (hp : AsciiClass p) (hs : ∀ b, stops b = inClass p b)
    (h : Grammar.braceGroup p ('{' :: rest) = none) :
    (between base seen ('$' :: '{' :: rest) post).braceEnd stops = .ok none := by
  rw [braceEnd_between hp hs, Option.map_eq_none_iff.1 h]
  rfl

/-! ## Names -/

/-- Whether an operator comes next that begins with a byte of names. -/
def beginsOperator (s : Scanner) : Checked Bool := do
  let head ← s.peek
  let second ← s.peekAt 1
  .ok ((head == some '.'.toUInt8 || head == some '+'.toUInt8) && second == some '='.toUInt8)

/-- Moves over a byte of a name or jumps over a brace group. -/
def nameRound (s : Scanner) : Checked (Checked.Round Scanner Scanner) := do
  if ← s.beginsOperator then .ok (.done s)
  else if (← s.peek).any (inClass Grammar.isNameChar) then .again <$> s.step
  else if ← s.opensGroup then
    match ← s.braceEnd (fun _ => false) with
    | some close => .again <$> s.moveTo (close + 1)
    | none => .ok (.done s)
  else .ok (.done s)

/-- Moves over a name up to its overrides. -/
def scanBaseName (s : Scanner) : Checked Scanner :=
  Checked.loop left nameRound s

/-- Whether an override comes next. -/
def atOverride (s : Scanner) : Checked Bool := do
  let head ← s.peek
  let second ← s.peekAt 1
  .ok (head == some ':'.toUInt8 && second.any (inClass Grammar.startsName))

/-- Moves over an override. -/
def scanOverride (s : Scanner) : Checked Scanner := do
  (← s.step).scanBaseName

/-- Moves over a name and its overrides. -/
def scanName (s : Scanner) : Checked Scanner := do
  (← s.scanBaseName).advanceWhile atOverride scanOverride

theorem beginsOperator_between {c : Char} {cs : List Char} :
    (between base seen (c :: cs) post).beginsOperator = .ok (Grammar.beginsOperator c cs) := by
  rw [beginsOperator, peek_between, peekAt_between, Checked.ok_bind, Checked.ok_bind,
    Text.head?_utf8_beq (by decide), Text.head?_utf8_beq (by decide), Grammar.beginsOperator,
    List.head?_cons, Option.some_beq_some, Option.some_beq_some]
  by_cases hc : c = '.' ∨ c = '+'
  · have hascii : isAscii c = true := by rcases hc with rfl | rfl <;> rfl
    rw [Text.getElem?_one_utf8 hascii, Text.head?_utf8_beq (by decide)]
  · rw [not_or] at hc
    rw [beq_eq_false_iff_ne.2 hc.1, beq_eq_false_iff_ne.2 hc.2, Bool.or_false, Bool.false_and,
      Bool.false_and]

/-- A round goes on past what the name at the beginning begins with. -/
theorem nameRound_between {c : Char} {cs : List Char} :
    (between base seen (c :: cs) post).nameRound = .ok (
      if Grammar.beginsOperator c cs then .done (between base seen (c :: cs) post)
      else if Grammar.isNameChar c then .again (between base (seen ++ [c]) cs post)
      else if c = '$' then
        match Grammar.braceGroup (fun _ => false) cs with
        | some g => .again (between base (seen ++ ('$' :: '{' :: g.front ++ ['}'])) g.rest post)
        | none => .done (between base seen (c :: cs) post)
      else .done (between base seen (c :: cs) post)) := by
  have hp : AsciiClass fun _ => false := fun _ h => absurd h Bool.false_ne_true
  have hs : ∀ b, false = inClass (fun _ => false) b := fun b => (Bool.and_false _).symm
  rw [nameRound, beginsOperator_between, peek_between, Checked.ok_bind]
  simp only [Checked.ok_bind, Text.any_head?_utf8 Grammar.asciiClass_isNameChar, List.head?_cons,
    Option.any_some]
  split
  · rfl
  split
  · rename_i h
    rw [step_between (Grammar.asciiClass_isNameChar c h)]
    rfl
  split
  · rename_i h
    subst h
    cases hg : Grammar.braceGroup (fun _ => false) cs with
    | some g =>
      rw [opensGroup_of_braceGroup hg, braceEnd_of_braceGroup hp hs hg]
      simp only [Checked.ok_bind, if_true]
      rw [moveTo_of_braceGroup hg]
      rfl
    | none =>
      rw [opensGroup_between, Checked.ok_bind]
      split
      · rename_i ho
        obtain ⟨ds, rfl⟩ := List.head?_eq_some_iff.1 (beq_iff_eq.1 (Bool.and_eq_true_iff.1 ho).2)
        rw [braceEnd_of_braceGroup_eq_none hp hs hg]
        rfl
      · rfl
  · rename_i h
    rw [opensGroup_between, List.head?_cons, Option.some_beq_some, beq_eq_false_iff_ne.2 h]
    rfl

theorem scanBaseName_between :
    (between base seen rest post).scanBaseName
      = .ok (between base (seen ++ (Grammar.baseName rest).front) (Grammar.baseName rest).rest post) := by
  fun_induction Grammar.baseName rest generalizing seen with
  | case1 =>
    rw [List.append_nil]
    refine Checked.loop_done ?_
    rw [nameRound, beginsOperator, peek_between, peekAt_between, opensGroup_between]
    rfl
  | case2 c cs hop =>
    rw [List.append_nil]
    exact Checked.loop_done (by rw [nameRound_between, if_pos hop])
  | case3 c cs hop hname ih =>
    have hround := @nameRound_between base seen post c cs
    rw [if_neg hop, if_pos hname] at hround
    have hrest := @ih (seen ++ [c])
    rw [List.append_assoc] at hrest
    exact (Checked.loop_again hround (left_between_lt [c] (List.cons_ne_nil c []))).trans hrest
  | case4 cs g hg _ hop hname ih =>
    have hround := @nameRound_between base seen post '$' cs
    rw [if_neg hop, if_neg hname, if_pos rfl, hg] at hround
    have hrest := @ih (seen ++ ('$' :: '{' :: g.front ++ ['}']))
    rw [List.append_assoc] at hrest
    exact (Checked.loop_again hround (left_of_braceGroup hg)).trans hrest
  | case5 cs hg hop hname =>
    rw [List.append_nil]
    exact Checked.loop_done (by rw [nameRound_between, if_neg hop, if_neg hname, if_pos rfl, hg])
  | case6 c cs hop hname hd =>
    rw [List.append_nil]
    exact Checked.loop_done (by rw [nameRound_between, if_neg hop, if_neg hname, if_neg hd])

theorem atOverride_between :
    (between base seen rest post).atOverride = .ok (Grammar.startsOverride rest) := by
  rw [atOverride, peek_between, peekAt_between, Checked.ok_bind, Checked.ok_bind,
    Text.head?_utf8_beq (by decide)]
  congr 1
  by_cases h : rest.head? = some ':'
  · obtain ⟨cs, rfl⟩ := List.head?_eq_some_iff.1 h
    rw [Text.getElem?_one_utf8 (by decide), Text.any_head?_utf8 Grammar.asciiClass_startsName]
    cases cs <;> rfl
  · rw [beq_eq_false_iff_ne.2 h, Bool.false_and]
    unfold Grammar.startsOverride
    split
    · exact absurd rfl h
    · rfl

theorem scanOverride_between {cs : List Char} :
    (between base seen (':' :: cs) post).scanOverride
      = .ok (between base (seen ++ ':' :: (Grammar.baseName cs).front) (Grammar.baseName cs).rest post) := by
  rw [scanOverride, step_between (by decide), Checked.ok_bind, scanBaseName_between, List.append_assoc]
  rfl

theorem head?_of_startsOverride {cs : List Char} (h : Grammar.startsOverride cs = true) :
    cs.head? = some ':' := by
  unfold Grammar.startsOverride at h
  split at h
  · rfl
  · cases h

/-- After a colon and the override name behind it less is left to scan than before the colon. -/
theorem left_between_baseName (seen' : List Char) {cs : List Char} :
    (between base seen' (Grammar.baseName cs).rest post).left
      < (between base seen (':' :: cs) post).left := by
  have hcs : ':' :: cs = (':' :: (Grammar.baseName cs).front) ++ (Grammar.baseName cs).rest := by
    rw [List.cons_append, Grammar.front_append_baseName]
  rw [hcs]
  exact left_between_lt _ (List.cons_ne_nil _ _)

theorem advanceWhile_atOverride :
    (between base seen rest post).advanceWhile atOverride scanOverride
      = .ok (between base (seen ++ (Grammar.overrides rest).1.flatMap (':' :: ·)) (Grammar.overrides rest).2
          post) := by
  fun_induction Grammar.overrides rest generalizing seen with
  | case1 =>
    rw [List.flatMap_nil, List.append_nil]
    exact Checked.loop_done (by rw [advanceRound, atOverride_between]; rfl)
  | case2 c cs ho =>
    rename_i ih
    obtain rfl : c = ':' := Option.some.inj (head?_of_startsOverride ho)
    have hround : (between base seen (':' :: cs) post).advanceRound atOverride scanOverride
        = .ok (.again (between base (seen ++ ':' :: (Grammar.baseName cs).front)
            (Grammar.baseName cs).rest post)) := by
      rw [advanceRound, atOverride_between, Checked.ok_bind, if_pos ho, scanOverride_between]
      rfl
    have hrest := @ih (seen ++ ':' :: (Grammar.baseName cs).front)
    rw [List.append_assoc] at hrest
    exact (Checked.loop_again hround (left_between_baseName _)).trans hrest
  | case3 c cs ho =>
    rw [List.flatMap_nil, List.append_nil]
    refine Checked.loop_done ?_
    rw [advanceRound, atOverride_between, Checked.ok_bind, if_neg ho]

theorem scanName_between :
    (between base seen rest post).scanName
      = .ok (between base (seen ++ (Grammar.fullName rest).front) (Grammar.fullName rest).rest post) := by
  rw [scanName, scanBaseName_between, Checked.ok_bind, advanceWhile_atOverride, List.append_assoc]
  rfl

end Scanner

end Recipe
