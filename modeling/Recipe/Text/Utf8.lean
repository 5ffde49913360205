/-!
# Reading UTF-8

The characters that a sequence of bytes writes in UTF-8, if it does. The first byte of a character
tells how many follow; whether they are the ones that write it is checked by writing it again.
-/

namespace Recipe.Text

/-- The number of bytes that follow the first byte of a character. -/
def followers (lead : UInt8) : Nat :=
  if lead < 0x80 then 0 else if lead < 0xE0 then 1 else if lead < 0xF0 then 2 else 3

/-- The number of the character that some bytes write, if they write one. -/
def codeOfBytes : List UInt8 → Nat
  | [a] => a.toNat
  | [a, b] => a.toNat % 32 * 64 + b.toNat % 64
  | [a, b, c] => (a.toNat % 16 * 64 + b.toNat % 64) * 64 + c.toNat % 64
  | [a, b, c, d] => ((a.toNat % 8 * 64 + b.toNat % 64) * 64 + c.toNat % 64) * 64 + d.toNat % 64
  | _ => 0

/-- The character that some bytes write. -/
def charOfBytes? (bs : List UInt8) : Option Char :=
  let c := Char.ofNat (codeOfBytes bs)
  if String.utf8EncodeChar c = bs then some c else none

/-- The text that some bytes write. -/
def ofUtf8? : List UInt8 → Option (List Char)
  | [] => some []
  | b :: bs =>
    let n := followers b
    (charOfBytes? (b :: bs.take n)).bind fun c => (ofUtf8? (bs.drop n)).map (c :: ·)
termination_by bs => bs.length
decreasing_by
  simp only [List.length_drop, List.length_cons]
  omega

end Recipe.Text
