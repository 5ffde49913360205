import Recipe.Domain.Composition.Table

/-!
# Canonical composition

A text can write the same letter as one character or as a letter with marks. `composed` takes each
text to one form: everything is taken apart, marks are put in the order of their classes, and what
can be composed is. Syllables of the Korean script are composed by arithmetic.
-/

namespace Recipe.Domain

/-- The class of a combining mark; zero for all other characters. -/
def combiningClass (c : Char) : Nat :=
  ((combiningClasses.row? c).map (·.2)).getD 0

/-! ## Korean syllables

A syllable has a leading consonant, a vowel, and possibly a trailing consonant, and the syllables
are in the order of these. -/

/-- The first leading consonant. -/
def leadBase : Nat := 0x1100

/-- The first vowel. -/
def vowelBase : Nat := 0x1161

/-- One before the first trailing consonant. -/
def trailBase : Nat := 0x11A7

/-- The first syllable. -/
def syllableBase : Nat := 0xAC00

/-- The number of a syllable among all syllables. -/
def syllable? (c : Char) : Option Nat :=
  if syllableBase ≤ c.toNat ∧ c.toNat < syllableBase + 11172 then some (c.toNat - syllableBase)
  else none

/-- The letters of a syllable. -/
def letters (n : Nat) : List Char :=
  [Char.ofNat (leadBase + n / 588), Char.ofNat (vowelBase + n % 588 / 28)]
    ++ if n % 28 = 0 then [] else [Char.ofNat (trailBase + n % 28)]

/-- The syllable that two characters make. -/
def joinSyllable? (a b : Char) : Option Char :=
  if leadBase ≤ a.toNat ∧ a.toNat < leadBase + 19 ∧ vowelBase ≤ b.toNat
      ∧ b.toNat < vowelBase + 21 then
    some (Char.ofNat (syllableBase + ((a.toNat - leadBase) * 21 + (b.toNat - vowelBase)) * 28))
  else if (syllable? a).any (· % 28 == 0) ∧ trailBase < b.toNat ∧ b.toNat < trailBase + 28 then
    some (Char.ofNat (a.toNat + (b.toNat - trailBase)))
  else none

/-! ## Taking apart -/

/-- The characters that a character is composed of. -/
def parts (c : Char) : List Char :=
  match syllable? c with
  | some n => letters n
  | none => ((composites.row? c).map (·.2)).getD [c]

/-- Puts a mark behind the marks of lower classes that follow it. -/
def insertMark (c : Char) : List Char → List Char
  | [] => [c]
  | d :: ds =>
    if combiningClass d ≠ 0 ∧ combiningClass d < combiningClass c then d :: insertMark c ds
    else c :: d :: ds

/-- Puts the marks after each letter in the order of their classes. -/
def ordered (cs : List Char) : List Char :=
  cs.foldr insertMark []

/-! ## Composing -/

/-- The composite of two characters. -/
def join? (a b : Char) : Option Char :=
  match joinSyllable? a b with
  | some c => some c
  | none =>
    (composites.rows.find? fun r => r.2 == parts a ++ [b]).map fun r => Char.ofNat r.1.first

/-- Composes a letter with the characters after it. `kept` holds the marks since the letter that
could not be composed with it, backwards. A mark of the same class, or another letter, keeps a
character from the letter. -/
def composeWith (letter : Char) (kept : List Char) : List Char → List Char
  | [] => letter :: kept.reverse
  | c :: cs =>
    let reaches := kept.head?.all fun k => combiningClass k < combiningClass c
    match if reaches then join? letter c else none with
    | some composite => composeWith composite kept cs
    | none =>
      if combiningClass c = 0 then letter :: kept.reverse ++ composeWith c [] cs
      else composeWith letter (c :: kept) cs

/-- Composes what can be composed. Marks at the beginning have no letter. -/
def compose : List Char → List Char
  | [] => []
  | c :: cs => if combiningClass c = 0 then composeWith c [] cs else c :: compose cs

/-- The composed form of a text. In ASCII nothing is to be composed. -/
def composed (cs : List Char) : List Char :=
  if cs.all Text.isAscii then cs else compose (ordered (cs.flatMap parts))

end Recipe.Domain
