/-!
# Tables of characters

Tables of characters are written as texts. A table is a sequence of words between blanks; a word is
the number of a character in hexadecimal, or those of the first and the last of a range, and, in
tables that say something about the characters, a colon and what they say.
-/

namespace Recipe.Text

/-- Whether a character is in ASCII. -/
def isAscii (c : Char) : Bool :=
  decide (c.toNat < 128)

/-- The parts of a text between separators, one more than there are separators. -/
def splitBy (sep : Char → Bool) : List Char → List (List Char)
  | [] => [[]]
  | c :: cs => if sep c then [] :: splitBy sep cs else (splitBy sep cs).modifyHead (c :: ·)

/-- The words of a text between spaces and line feeds. -/
def words (cs : List Char) : List (List Char) :=
  (splitBy (fun c => c == ' ' || c == '\n') cs).filter (!·.isEmpty)

/-- The value of a hexadecimal digit. -/
def hexDigit? (c : Char) : Option Nat :=
  if c.isDigit then some (c.toNat - '0'.toNat)
  else if 'a' ≤ c ∧ c ≤ 'f' then some (c.toNat - 'a'.toNat + 10)
  else if 'A' ≤ c ∧ c ≤ 'F' then some (c.toNat - 'A'.toNat + 10)
  else none

/-- The number that hexadecimal digits write. -/
def hexValue (cs : List Char) : Nat :=
  cs.foldl (fun n c => 16 * n + (hexDigit? c).getD 0) 0

/-- The characters whose numbers a text lists with `+` between them. -/
def codes (cs : List Char) : List Char :=
  (splitBy (· == '+') cs).map fun digits => Char.ofNat (hexValue digits)

/-- The texts that a text lists with `,` between them. -/
def codeTexts (cs : List Char) : List (List Char) :=
  (splitBy (· == ',') cs).map codes

/-- The numbers of a range of characters. -/
structure CodeRange where
  first : Nat
  last : Nat
deriving DecidableEq, Repr

namespace CodeRange

/-- Reads a range. -/
def ofText (cs : List Char) : CodeRange :=
  ⟨hexValue (cs.takeWhile (· != '-')), hexValue ((splitBy (· == '-') cs).getLastD [])⟩

/-- Whether a character is in a range. -/
def contains (r : CodeRange) (c : Char) : Bool :=
  decide (r.first ≤ c.toNat) && decide (c.toNat ≤ r.last)

end CodeRange

/-- A set of characters. -/
structure CharSet where
  ranges : List CodeRange
deriving DecidableEq, Repr

namespace CharSet

/-- Reads a set. -/
def ofText (s : String) : CharSet :=
  ⟨(words s.toList).map .ofText⟩

/-- Whether a character is in a set. -/
def contains (s : CharSet) (c : Char) : Bool :=
  s.ranges.any (·.contains c)

end CharSet

/-- What is said about ranges of characters. -/
structure CharTable (α : Type) where
  rows : List (CodeRange × α)

namespace CharTable

/-- Reads a table, and what it says with `read`. -/
def ofText {α : Type} (read : List Char → α) (s : String) : CharTable α :=
  ⟨(words s.toList).map fun word =>
    (.ofText (word.takeWhile (· != ':')), read ((word.dropWhile (· != ':')).drop 1))⟩

/-- The first row whose range holds a character. -/
def row? {α : Type} (t : CharTable α) (c : Char) : Option (CodeRange × α) :=
  t.rows.find? (·.1.contains c)

end CharTable

end Recipe.Text
