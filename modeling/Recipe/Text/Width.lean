/-!
# Widths of texts

A text is measured in bytes of its UTF-8 form or in UTF-16 code units. Byte offsets cut a text only
between characters: `slice` has no answer for a span that is reversed, reaches past the end, or
falls inside a character.
-/

namespace Recipe.Text

/-- The number of bytes of a text in UTF-8. -/
def bytes : List Char → Nat
  | [] => 0
  | c :: cs => c.utf8Size + bytes cs

/-- The number of UTF-16 code units of a character: two above the basic plane. -/
def units16 (c : Char) : Nat :=
  if c.toNat < 0x10000 then 1 else 2

/-- What follows the first `n` bytes, unless the text has fewer or `n` falls inside a character. -/
def dropBytes : Nat → List Char → Option (List Char)
  | 0, cs => some cs
  | _ + 1, [] => none
  | n + 1, c :: cs => if c.utf8Size ≤ n + 1 then dropBytes (n + 1 - c.utf8Size) cs else none

/-- The first `n` bytes, unless the text has fewer or `n` falls inside a character. -/
def takeBytes : Nat → List Char → Option (List Char)
  | 0, _ => some []
  | _ + 1, [] => none
  | n + 1, c :: cs =>
    if c.utf8Size ≤ n + 1 then (takeBytes (n + 1 - c.utf8Size) cs).map (c :: ·) else none

/-- The characters between two byte offsets. -/
def slice (cs : List Char) (start stop : Nat) : Option (List Char) :=
  if start ≤ stop then (dropBytes start cs).bind (takeBytes (stop - start)) else none

end Recipe.Text
