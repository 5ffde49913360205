/-!
# Blank characters

A character is blank when Unicode gives it the property `White_Space`. Trimming removes blank
characters from the ends of a text; `splitTrim` keeps what it removes, so that nothing of the text
is lost.
-/

namespace Recipe.Text

/-- The code points with the property `White_Space`, as closed ranges in increasing order. -/
def blankRanges : List (Nat × Nat) :=
  [(0x0009, 0x000D), (0x0020, 0x0020), (0x0085, 0x0085), (0x00A0, 0x00A0), (0x1680, 0x1680),
    (0x2000, 0x200A), (0x2028, 0x2029), (0x202F, 0x202F), (0x205F, 0x205F), (0x3000, 0x3000)]

/-- Whether `c` is a blank character. -/
def isBlank (c : Char) : Bool :=
  blankRanges.any fun r => decide (r.1 ≤ c.toNat) && decide (c.toNat ≤ r.2)

/-- The text without the blank characters at its beginning. -/
def trimStart (cs : List Char) : List Char :=
  cs.dropWhile isBlank

/-- The text without the blank characters at its end. -/
def trimEnd : List Char → List Char
  | [] => []
  | c :: cs =>
    match trimEnd cs with
    | [] => if isBlank c then [] else [c]
    | d :: ds => c :: d :: ds

/-- The text without the blank characters at either end. -/
def trim (cs : List Char) : List Char :=
  trimEnd (trimStart cs)

/-- The blank characters at the end of a text. -/
def trailing (cs : List Char) : List Char :=
  cs.drop (trimEnd cs).length

/-- A text cut into the blanks at its beginning, its trimmed core, and the blanks at its end. -/
structure Trimmed where
  before : List Char
  core : List Char
  after : List Char
deriving DecidableEq, Repr

/-- Cuts a text at the ends of its trimmed core. -/
def splitTrim (cs : List Char) : Trimmed :=
  let rest := trimStart cs
  { before := cs.takeWhile isBlank, core := trimEnd rest, after := trailing rest }

/-- `trim` on strings. -/
def trimString (s : String) : String :=
  String.ofList (trim s.toList)

/-- Whether every character of the string is blank. -/
def isBlankString (s : String) : Bool :=
  s.toList.all isBlank

end Recipe.Text
