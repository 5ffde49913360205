import Recipe.Text.LowerCase.Table

/-!
# Lower-casing

The lower-case form of a text. Each character has one of its own, except for the capital sigma,
whose form depends on what stands around it, and the capital dotted I, whose form has two
characters.
-/

namespace Recipe.Text

/-- Whether a character is in one of the given ranges. -/
def inRanges (ranges : List (Nat × Nat)) (c : Char) : Bool :=
  ranges.any fun r => decide (r.1 ≤ c.toNat) && decide (c.toNat ≤ r.2)

/-- The lower-case form of a character in a run. -/
def CaseRun.lowerOf? (r : CaseRun) (c : Char) : Option Char :=
  let n := c.toNat
  if r.first ≤ n ∧ n ≤ r.last ∧ (n - r.first) % r.stride = 0 then
    some (Char.ofNat (r.lower + (n - r.first)))
  else none

/-- The lower-case form of a character that has one form of one character. -/
def lowerChar (c : Char) : Char :=
  (caseRuns.findSome? (·.lowerOf? c)).getD c

/-- Whether the first character of a text that case does not look through has case. -/
def meetsCase (cs : List Char) : Bool :=
  (cs.dropWhile (inRanges caseIgnorableRanges)).head?.any (inRanges casedRanges)

/-- The lower-case form of a capital sigma between two texts, of which the first is given backwards:
a sigma that ends a word has a form of its own. -/
def lowerSigma (before after : List Char) : Char :=
  if meetsCase before && !meetsCase after then 'ς' else 'σ'

/-- The lower-case form of a text that follows another, which is given backwards. -/
def lowerAfter (before : List Char) : List Char → List Char
  | [] => []
  | c :: cs =>
    let form :=
      if c = 'Σ' then [lowerSigma before cs]
      else if c = 'İ' then ['i', '\u0307']
      else [lowerChar c]
    form ++ lowerAfter (c :: before) cs

/-- The lower-case form of a string. -/
def lower (s : String) : String :=
  String.ofList (lowerAfter [] s.toList)

/-- Whether a text stands somewhere in another. -/
def occursIn (part : List Char) : List Char → Bool
  | [] => part.isEmpty
  | c :: cs => part.isPrefixOf (c :: cs) || occursIn part cs

end Recipe.Text
