import Recipe.Text.Width

/-!
# Widths and slices

Byte offsets that cut a text between characters. `bytes` adds up over concatenation, so a text cut
into `pre ++ mid ++ post` has `mid` between the offsets `bytes pre` and `bytes pre + bytes mid`
(`slice_append`), and the boundaries of a text are the offsets at which it can be cut in two
(`isBoundary_iff`).
-/

namespace Recipe.Text

@[simp] theorem bytes_nil : bytes [] = 0 := rfl

@[simp] theorem bytes_cons (c : Char) (cs : List Char) : bytes (c :: cs) = c.utf8Size + bytes cs := rfl

@[simp] theorem bytes_append (cs ds : List Char) : bytes (cs ++ ds) = bytes cs + bytes ds := by
  induction cs with
  | nil => simp
  | cons c cs ih => simp [ih, Nat.add_assoc]

theorem bytes_eq_zero {cs : List Char} : bytes cs = 0 ↔ cs = [] := by
  cases cs with
  | nil => simp
  | cons c cs =>
    have := c.utf8Size_pos
    simp only [bytes_cons, reduceCtorEq, iff_false]
    omega

theorem bytes_pos {cs : List Char} (h : cs ≠ []) : 0 < bytes cs :=
  Nat.pos_of_ne_zero (mt bytes_eq_zero.1 h)

/-- A text cut before the first character outside a class is cut in one way. -/
theorem append_inj_of_head? {p : Char → Bool} {a b a' b' : List Char}
    (ha : a.all p = true) (hb : b.head?.any p = false) (ha' : a'.all p = true)
    (hb' : b'.head?.any p = false) (h : a ++ b = a' ++ b') : a = a' ∧ b = b' := by
  have hfront : ∀ a b : List Char, a.all p = true → b.head?.any p = false →
      (a ++ b).takeWhile p = a := by
    intro a b ha hb
    rw [List.takeWhile_append_of_pos (List.all_eq_true.1 ha)]
    cases b with
    | nil => exact List.append_nil a
    | cons c b =>
      have hc : p c = false := by simpa using hb
      simp [hc]
  have hfst : a = a' := by
    rw [← hfront a b ha hb, h, hfront a' b' ha' hb']
  subst hfst
  exact ⟨rfl, List.append_cancel_left h⟩

/-- If `a ++ b` and `p ++ q` are one text and `a` is not wider than `p`, then `p` is `a` and some
text, and `b` is that text and `q`. -/
theorem exists_between {a b p q : List Char} (h : a ++ b = p ++ q) (hle : bytes a ≤ bytes p) :
    ∃ m, p = a ++ m ∧ b = m ++ q := by
  rcases List.append_eq_append_iff.1 h with ⟨m, hp, hb⟩ | ⟨m, ha, hq⟩
  · exact ⟨m, hp, hb⟩
  · have hm : m = [] := by
      rw [ha, bytes_append] at hle
      exact bytes_eq_zero.1 (by omega)
    subst hm
    rw [List.append_nil] at ha
    exact ⟨[], by simp [ha], by simpa using hq.symm⟩

theorem exists_utf8Size_add (c : Char) (n : Nat) : ∃ m, c.utf8Size + n = m + 1 :=
  ⟨c.utf8Size + n - 1, by have := c.utf8Size_pos; omega⟩

theorem dropBytes_cons_add (c : Char) (cs : List Char) (n : Nat) :
    dropBytes (c.utf8Size + n) (c :: cs) = dropBytes n cs := by
  obtain ⟨m, hm⟩ := exists_utf8Size_add c n
  rw [hm, dropBytes, if_pos (by omega), show m + 1 - c.utf8Size = n by omega]

theorem takeBytes_cons_add (c : Char) (cs : List Char) (n : Nat) :
    takeBytes (c.utf8Size + n) (c :: cs) = (takeBytes n cs).map (c :: ·) := by
  obtain ⟨m, hm⟩ := exists_utf8Size_add c n
  rw [hm, takeBytes, if_pos (by omega), show m + 1 - c.utf8Size = n by omega]

/-- Dropping the bytes of `pre` from `pre ++ post` leaves `post`. -/
theorem dropBytes_append (pre post : List Char) : dropBytes (bytes pre) (pre ++ post) = some post := by
  induction pre with
  | nil => simp [dropBytes]
  | cons c pre ih => rw [bytes_cons, List.cons_append, dropBytes_cons_add, ih]

/-- Taking the bytes of `pre` from `pre ++ post` gives `pre`. -/
theorem takeBytes_append (pre post : List Char) : takeBytes (bytes pre) (pre ++ post) = some pre := by
  induction pre with
  | nil => simp [takeBytes]
  | cons c pre ih => rw [bytes_cons, List.cons_append, takeBytes_cons_add, ih, Option.map_some]

theorem eq_append_of_dropBytes {n : Nat} {cs post : List Char} (h : dropBytes n cs = some post) :
    ∃ pre, cs = pre ++ post ∧ bytes pre = n := by
  fun_induction dropBytes n cs with
  | case1 cs =>
    cases h
    exact ⟨[], rfl, rfl⟩
  | case2 => cases h
  | case3 n c cs hc ih =>
    obtain ⟨pre, rfl, hb⟩ := ih h
    exact ⟨c :: pre, rfl, by simp only [bytes_cons, hb]; omega⟩
  | case4 => cases h

/-- Whether a byte offset stands between two characters of a text, or at one of its ends. -/
def isBoundary (cs : List Char) (n : Nat) : Bool :=
  (dropBytes n cs).isSome

theorem isBoundary_append (pre post : List Char) : isBoundary (pre ++ post) (bytes pre) = true := by
  simp [isBoundary, dropBytes_append]

/-- The boundaries of a text are the offsets at which it can be cut in two. -/
theorem isBoundary_iff {cs : List Char} {n : Nat} :
    isBoundary cs n = true ↔ ∃ pre post, cs = pre ++ post ∧ bytes pre = n := by
  constructor
  · intro h
    obtain ⟨post, hp⟩ := Option.isSome_iff_exists.1 h
    obtain ⟨pre, hcs, hn⟩ := eq_append_of_dropBytes hp
    exact ⟨pre, post, hcs, hn⟩
  · rintro ⟨pre, post, rfl, rfl⟩
    exact isBoundary_append pre post

/-- What stands between two parts of a text is the slice between their offsets. -/
theorem slice_append (pre mid post : List Char) :
    slice (pre ++ (mid ++ post)) (bytes pre) (bytes pre + bytes mid) = some mid := by
  rw [slice, if_pos (Nat.le_add_right _ _), dropBytes_append, Option.bind_some, Nat.add_sub_cancel_left,
    takeBytes_append]

end Recipe.Text
