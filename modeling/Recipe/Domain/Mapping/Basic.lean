import Recipe.Domain.Mapping.Table

/-!
# The mapping of domain names

Each character of a domain name stands as it is, stands for others, or is dropped; `standsFor?` has
no answer for one that is not allowed. Of ASCII every character is mapped here, capital letters to
small ones.
-/

namespace Recipe.Domain

open Text (isAscii)

/-- What a character outside ASCII stands for if it stands for something else. -/
def replacement? (c : Char) : Option (List Char) :=
  match spelled.rows.find? fun r => r.1.first ≤ c.toNat ∧ c.toNat < r.1.first + r.2.length with
  | some (r, texts) => texts[c.toNat - r.first]?
  | none =>
    match shifted.row? c with
    | some (r, n) => some [Char.ofNat (n + (c.toNat - r.first))]
    | none =>
      match alternating.row? c with
      | some (r, n) =>
        if (c.toNat - r.first) % 2 = 0 then some [Char.ofNat (n + (c.toNat - r.first))] else none
      | none => none

/-- What a character stands for; none if it is not allowed. -/
def standsFor? (c : Char) : Option (List Char) :=
  if isAscii c then some [c.toLower]
  else if plain.contains c then some [c]
  else if dropped.contains c then some []
  else replacement? c

/-- What a text stands for; none if a character is not allowed. -/
def mapped? (cs : List Char) : Option (List Char) :=
  (cs.mapM standsFor?).map List.flatten

/-- Whether a character may stand in a domain name as it is. -/
def isPlain (c : Char) : Bool :=
  standsFor? c == some [c]

end Recipe.Domain
