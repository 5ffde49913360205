import Recipe.Proofs.Text.Offset
import Recipe.Text.Codes

/-!
# ASCII in UTF-8

An ASCII character is written as one byte, and no byte of another character is an ASCII byte
(`le_of_mem_utf8EncodeChar`). So what a byte tells about ASCII it tells about a character: the first
byte of a text is in a class of ASCII characters exactly if the first character is (`any_head?_utf8`),
and a text begins with an ASCII text exactly if its bytes do (`isPrefixOf_utf8`).
-/

namespace Recipe.Text

/-- Whether a byte writes an ASCII character of a class. -/
def inClass (p : Char → Bool) (b : UInt8) : Bool :=
  decide (b < 128) && p (Char.ofNat b.toNat)

/-- A class of ASCII characters. -/
def AsciiClass (p : Char → Bool) : Prop :=
  ∀ c, p c = true → isAscii c = true

variable {p : Char → Bool} {c d : Char}

/-! ## The bytes of a character -/

theorem utf8_nil : utf8 [] = [] := rfl

theorem utf8_cons (c : Char) (cs : List Char) : utf8 (c :: cs) = String.utf8EncodeChar c ++ utf8 cs :=
  List.flatMap_cons

theorem toNat_toUInt8 (h : isAscii c = true) : c.toUInt8.toNat = c.toNat := by
  have hlt : c.toNat < 128 := of_decide_eq_true h
  exact Nat.mod_eq_of_lt (Nat.lt_of_lt_of_le hlt (by decide))

theorem utf8Size_of_isAscii (h : isAscii c = true) : c.utf8Size = 1 :=
  Char.utf8Size_eq_one_iff.2 (UInt32.le_iff_toNat_le.2 (Nat.le_of_lt_succ (of_decide_eq_true h)))

theorem utf8_cons_ascii (h : isAscii c = true) (cs : List Char) : utf8 (c :: cs) = c.toUInt8 :: utf8 cs := by
  rw [utf8_cons, String.utf8EncodeChar_eq_singleton (utf8Size_of_isAscii h)]
  rfl

/-- No byte of a character outside ASCII is an ASCII byte. -/
theorem le_of_mem_utf8EncodeChar (h : isAscii c = false) {b : UInt8}
    (hb : b ∈ String.utf8EncodeChar c) : 128 ≤ b := by
  have hle : 128 ≤ c.val.toNat := Nat.not_lt.1 (of_decide_eq_false h)
  rw [UInt8.le_iff_toNat_le]
  simp only [String.utf8EncodeChar, show ¬ c.val.toNat ≤ 127 by omega, if_false] at hb
  split at hb
  · simp only [List.mem_cons, List.not_mem_nil, or_false] at hb
    rcases hb with rfl | rfl <;> simp only [UInt8.toNat_ofNat', UInt8.reduceToNat] <;> omega
  split at hb
  · simp only [List.mem_cons, List.not_mem_nil, or_false] at hb
    rcases hb with rfl | rfl | rfl <;> simp only [UInt8.toNat_ofNat', UInt8.reduceToNat] <;> omega
  · simp only [List.mem_cons, List.not_mem_nil, or_false] at hb
    rcases hb with rfl | rfl | rfl | rfl <;> simp only [UInt8.toNat_ofNat', UInt8.reduceToNat] <;> omega

/-! ## The byte of an ASCII character -/

theorem toUInt8_lt (h : isAscii c = true) : c.toUInt8 < 128 := by
  rw [UInt8.lt_iff_toNat_lt, toNat_toUInt8 h]
  exact of_decide_eq_true h

theorem toUInt8_beq (hc : isAscii c = true) (hd : isAscii d = true) :
    (c.toUInt8 == d.toUInt8) = (c == d) := by
  rw [Bool.eq_iff_iff, beq_iff_eq, beq_iff_eq]
  refine ⟨fun h => ?_, fun h => h ▸ rfl⟩
  have hn : c.toNat = d.toNat := by rw [← toNat_toUInt8 hc, ← toNat_toUInt8 hd, h]
  exact Char.toNat_inj.1 hn

theorem beq_toUInt8_of_le {b : UInt8} (hb : 128 ≤ b) (hd : isAscii d = true) : (b == d.toUInt8) = false := by
  have hlt := toUInt8_lt hd
  rw [beq_eq_false_iff_ne]
  rintro rfl
  exact UInt8.not_lt.2 hb hlt

theorem inClass_toUInt8 (h : isAscii c = true) : inClass p c.toUInt8 = p c := by
  rw [inClass, decide_eq_true (toUInt8_lt h), toNat_toUInt8 h, Char.ofNat_toNat, Bool.true_and]

theorem inClass_of_le {b : UInt8} (h : 128 ≤ b) : inClass p b = false := by
  rw [inClass, decide_eq_false (UInt8.not_lt.2 h), Bool.false_and]

/-- An ASCII byte is the byte of its character. -/
theorem exists_toUInt8 {b : UInt8} (h : b < 128) : ∃ c, isAscii c = true ∧ c.toUInt8 = b := by
  have hlt : b.toNat < 128 := UInt8.lt_iff_toNat_lt.1 h
  have hn : (Char.ofNat b.toNat).toNat = b.toNat :=
    (by decide : ∀ n < 128, (Char.ofNat n).toNat = n) b.toNat hlt
  have ha : isAscii (Char.ofNat b.toNat) = true := by
    rw [isAscii, hn]
    exact decide_eq_true hlt
  exact ⟨_, ha, UInt8.toNat_inj.1 ((toNat_toUInt8 ha).trans hn)⟩

theorem beq_toUInt8 (hd : isAscii d = true) (b : UInt8) : (b == d.toUInt8) = inClass (· == d) b := by
  rcases UInt8.lt_or_le b 128 with hb | hb
  · obtain ⟨c, hc, rfl⟩ := exists_toUInt8 hb
    rw [toUInt8_beq hc hd, inClass_toUInt8 hc]
  · rw [beq_toUInt8_of_le hb hd, inClass_of_le hb]

/-! ## Classes of ASCII characters -/

theorem AsciiClass.or {q : Char → Bool} (hp : AsciiClass p) (hq : AsciiClass q) :
    AsciiClass fun c => p c || q c := by
  intro c h
  rw [Bool.or_eq_true] at h
  exact h.elim (hp c) (hq c)

theorem asciiClass_contains {l : List Char} (h : l.all isAscii = true) : AsciiClass l.contains :=
  fun c hc => List.all_eq_true.1 h c (List.contains_iff_mem.1 hc)

theorem asciiClass_beq (h : isAscii d = true) : AsciiClass (· == d) := fun _ hc =>
  (beq_iff_eq.1 hc).symm ▸ h

theorem asciiClass_isAlphanum : AsciiClass Char.isAlphanum := by
  intro c h
  have hclass : (decide ('A'.val ≤ c.val ∧ c.val ≤ 'Z'.val)
      || (decide ('a'.val ≤ c.val) && decide (c.val ≤ 'z'.val))
      || (decide ('0'.val ≤ c.val) && decide (c.val ≤ '9'.val))) = true := h
  simp only [Bool.or_eq_true, Bool.and_eq_true, decide_eq_true_eq, UInt32.le_iff_toNat_le] at hclass
  have hle : c.toNat ≤ 'z'.toNat := by
    rcases hclass with (⟨-, h⟩ | ⟨-, h⟩) | ⟨-, h⟩
    · exact Nat.le_trans h (by decide)
    · exact h
    · exact Nat.le_trans h (by decide)
  exact decide_eq_true (Nat.lt_of_le_of_lt hle (by decide))

/-! ## The first bytes of a text -/

theorem utf8EncodeChar_ne_nil (c : Char) : String.utf8EncodeChar c ≠ [] := by
  intro h
  have hlen := String.length_utf8EncodeChar c
  rw [h] at hlen
  exact Nat.ne_of_lt c.utf8Size_pos hlen

/-- The first byte of a text is a byte of its first character. -/
theorem exists_head?_utf8 (c : Char) (cs : List Char) :
    ∃ b ∈ String.utf8EncodeChar c, (utf8 (c :: cs)).head? = some b := by
  cases h : String.utf8EncodeChar c with
  | nil => exact absurd h (utf8EncodeChar_ne_nil c)
  | cons b bs => exact ⟨b, List.mem_cons_self, by rw [utf8_cons, h]; rfl⟩

theorem any_head?_utf8 (hp : AsciiClass p) (cs : List Char) :
    (utf8 cs).head?.any (inClass p) = cs.head?.any p := by
  cases cs with
  | nil => rfl
  | cons c cs =>
    rw [List.head?_cons, Option.any_some]
    cases hc : isAscii c with
    | true => rw [utf8_cons_ascii hc, List.head?_cons, Option.any_some, inClass_toUInt8 hc]
    | false =>
      obtain ⟨b, hb, hh⟩ := exists_head?_utf8 c cs
      rw [hh, Option.any_some, inClass_of_le (le_of_mem_utf8EncodeChar hc hb), eq_comm,
        Bool.eq_false_iff]
      exact fun h => Bool.eq_false_iff.1 hc (hp c h)

theorem head?_utf8_beq (hd : isAscii d = true) (cs : List Char) :
    ((utf8 cs).head? == some d.toUInt8) = (cs.head? == some d) := by
  cases cs with
  | nil => rfl
  | cons c cs =>
    rw [List.head?_cons, Option.some_beq_some]
    cases hc : isAscii c with
    | true => rw [utf8_cons_ascii hc, List.head?_cons, Option.some_beq_some, toUInt8_beq hc hd]
    | false =>
      obtain ⟨b, hb, hh⟩ := exists_head?_utf8 c cs
      rw [hh, Option.some_beq_some, beq_toUInt8_of_le (le_of_mem_utf8EncodeChar hc hb) hd, eq_comm,
        beq_eq_false_iff_ne]
      rintro rfl
      exact Bool.eq_false_iff.1 hc hd

theorem getLast?_utf8_beq (hd : isAscii d = true) (cs : List Char) :
    ((utf8 cs).getLast? == some d.toUInt8) = (cs.getLast? == some d) := by
  rcases List.eq_nil_or_concat cs with rfl | ⟨cs, c, rfl⟩
  · rfl
  · rw [List.concat_eq_append, List.getLast?_concat, Option.some_beq_some, utf8_append]
    cases hc : isAscii c with
    | true =>
      rw [utf8_cons_ascii hc, utf8_nil, List.getLast?_concat, Option.some_beq_some, toUInt8_beq hc hd]
    | false =>
      have hne := utf8EncodeChar_ne_nil c
      have hle := le_of_mem_utf8EncodeChar hc (List.getLast_mem hne)
      rw [utf8_cons, utf8_nil, List.append_nil, List.getLast?_append, List.getLast?_eq_some_getLast hne,
        Option.some_or, Option.some_beq_some, beq_toUInt8_of_le hle hd, eq_comm, beq_eq_false_iff_ne]
      rintro rfl
      exact Bool.eq_false_iff.1 hc hd

theorem getElem?_one_utf8 (h : isAscii c = true) (cs : List Char) :
    (utf8 (c :: cs))[1]? = (utf8 cs).head? := by
  rw [utf8_cons_ascii h, List.getElem?_cons_succ, List.head?_eq_getElem?]

/-- A text begins with an ASCII text as its bytes do. -/
theorem isPrefixOf_utf8 {l : List Char} (h : l.all isAscii = true) (cs : List Char) :
    (utf8 l).isPrefixOf (utf8 cs) = l.isPrefixOf cs := by
  induction l generalizing cs with
  | nil => rfl
  | cons c l ih =>
    rw [List.all_cons, Bool.and_eq_true] at h
    rw [utf8_cons_ascii h.1]
    cases cs with
    | nil => rfl
    | cons d cs =>
      have hhead := head?_utf8_beq h.1 (d :: cs)
      rw [List.isPrefixOf_cons_cons]
      by_cases hcd : c = d
      · subst hcd
        rw [utf8_cons_ascii h.1, List.isPrefixOf_cons_cons, beq_self_eq_true, beq_self_eq_true, ih h.2]
      · obtain ⟨b, -, hh⟩ := exists_head?_utf8 d cs
        obtain ⟨bs, hbs⟩ := List.head?_eq_some_iff.1 hh
        rw [hh, List.head?_cons, Option.some_beq_some, Option.some_beq_some] at hhead
        rw [hbs, List.isPrefixOf_cons_cons, beq_eq_false_iff_ne.2 hcd, Bool.beq_comm, hhead,
          beq_eq_false_iff_ne.2 (Ne.symm hcd)]
        rfl

end Recipe.Text
