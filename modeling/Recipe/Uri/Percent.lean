import Recipe.Text.Codes

/-!
# Percent signs

A character that cannot stand in some part of a uri is written as its bytes in UTF-8, each as a
percent sign and two hexadecimal digits. Which characters these are depends on the part; characters
outside ASCII are always among them.
-/

namespace Recipe.Percent

/-- The hexadecimal digit of a value below 16. -/
def hexChar (n : Nat) : Char :=
  if n < 10 then Char.ofNat ('0'.toNat + n) else Char.ofNat ('A'.toNat + (n - 10))

/-- A byte with its percent sign. -/
def escape (b : UInt8) : List Char :=
  ['%', hexChar (b.toNat / 16), hexChar (b.toNat % 16)]

/-- Writes a text without the characters that `escaped` holds of. -/
def encode (escaped : Char → Bool) (cs : List Char) : List Char :=
  cs.flatMap fun c =>
    if Text.isAscii c && !escaped c then [c] else (String.utf8EncodeChar c).flatMap escape

/-- The bytes that a text stands for. A percent sign without two digits stands for itself. -/
def decode : List Char → List UInt8
  | '%' :: a :: b :: cs =>
    match Text.hexDigit? a, Text.hexDigit? b with
    | some m, some n => UInt8.ofNat (16 * m + n) :: decode cs
    | _, _ => '%'.toUInt8 :: decode (a :: b :: cs)
  | c :: cs => String.utf8EncodeChar c ++ decode cs
  | [] => []

/-! ## What is escaped in the parts of a uri -/

/-- Control characters are escaped everywhere. -/
def isControl (c : Char) : Bool :=
  decide (c.toNat < 32) || decide (c.toNat = 127)

/-- What is escaped in a fragment. -/
def inFragment (c : Char) : Bool :=
  isControl c || " \"<>`".toList.contains c

/-- What is escaped in a query. An apostrophe is in uris of schemes with hosts. -/
def inQuery (hosted : Bool) (c : Char) : Bool :=
  isControl c || " \"#<>".toList.contains c || hosted && c == '\''

/-- What is escaped in a path. -/
def inPath (c : Char) : Bool :=
  inFragment c || "#?\x7b\x7d".toList.contains c

/-- What is escaped in the names before a host. -/
def inUserInfo (c : Char) : Bool :=
  inPath c || "/:;=@[\\]^|".toList.contains c

end Recipe.Percent
