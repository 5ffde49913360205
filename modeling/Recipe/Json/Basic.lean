/-!
# JSON values

The values that clients and servers exchange, and the readers for the shapes they are expected to
have. A record may be written as an object or as the array of its fields in order.
-/

namespace Recipe

/-- A JSON value. A number is `mantissa / 10 ^ exponent`; an object lists its fields. -/
inductive Json where
  | null
  | bool (b : Bool)
  | num (mantissa : Int) (exponent : Nat)
  | str (s : String)
  | arr (items : List Json)
  | obj (fields : List (String × Json))
deriving Inhabited

namespace Json

/-- A whole number. -/
def int (n : Int) : Json :=
  .num n 0

/-- A natural number. -/
def nat (n : Nat) : Json :=
  .num n 0

/-- The value of a field of an object. -/
def field? (name : String) : Json → Option Json
  | .obj fields => fields.lookup name
  | _ => none

/-- The fields of a record by name: of an object, or of an array that has no more items than there
are names. -/
def record? (names : List String) : Json → Option (List (Option Json))
  | .obj fields => some (names.map fun name => fields.lookup name)
  | .arr items =>
    if items.length ≤ names.length then
      some (items.map some ++ List.replicate (names.length - items.length) none)
    else none
  | _ => none

/-- The fields of an object by name. -/
def object? (names : List String) : Json → Option (List (Option Json))
  | .obj fields => some (names.map fun name => fields.lookup name)
  | _ => none

/-- A truth value. -/
def bool? : Json → Option Bool
  | .bool b => some b
  | _ => none

/-- A string. -/
def str? : Json → Option String
  | .str s => some s
  | _ => none

/-- The items of an array. -/
def items? : Json → Option (List Json)
  | .arr items => some items
  | _ => none

/-- A whole number. -/
def int? : Json → Option Int
  | .num n 0 => some n
  | _ => none

/-- A natural number of 32 bits. -/
def word? (j : Json) : Option Nat :=
  (j.int?.filter fun n => 0 ≤ n ∧ n < 4294967296).map Int.toNat

/-- A whole number of 32 bits, one of them for its sign. -/
def signedWord? (j : Json) : Option Int :=
  j.int?.filter fun n => -2147483648 ≤ n ∧ n < 2147483648

/-- A field that may be absent or null and is read otherwise. -/
def optional? {α : Type} (read : Json → Option α) : Option Json → Option (Option α)
  | none => some none
  | some .null => some none
  | some j => (read j).map some

end Json

end Recipe
