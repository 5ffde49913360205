import Recipe.Json.Basic

/-!
# Shapes of JSON values

A shape is a set of JSON values, given by its test. Shapes are built from those of single values by
saying what the items of a list are, which fields a record has, and which shapes may stand in one
place.

A record is written as an object, whose other fields do not matter, or as the array of its fields
in order. `Shape.object` is the first form alone.
-/

namespace Recipe

/-- A set of JSON values. -/
abbrev Shape := Json → Bool

/-- A field of a record. -/
structure Field where
  name : String
  shape : Shape
  /-- Whether an object may lack the field. -/
  mayLack : Bool
  /-- Whether an array may end before the field. -/
  mayEnd : Bool

namespace Shape

/-- The values that a reader understands. -/
def readBy {α : Type} (read : Json → Option α) : Shape :=
  fun j => (read j).isSome

/-- Every value. -/
def any : Shape :=
  fun _ => true

/-- The truth values. -/
def bool : Shape :=
  readBy Json.bool?

/-- The strings. -/
def str : Shape :=
  readBy Json.str?

/-- The natural numbers of 32 bits. -/
def word : Shape :=
  readBy Json.word?

/-- The whole numbers of 32 bits, one of them for the sign. -/
def signedWord : Shape :=
  readBy Json.signedWord?

/-- The numbers. -/
def number : Shape
  | .num .. => true
  | _ => false

/-- The values of two shapes. -/
def either (a b : Shape) : Shape :=
  fun j => a j || b j

/-- A shape, and null. -/
def nullable (s : Shape) : Shape
  | .null => true
  | j => s j

/-- The arrays whose items all have one shape. -/
def list (s : Shape) : Shape
  | .arr items => items.all s
  | _ => false

/-- The arrays of two items of one shape. -/
def pair (s : Shape) : Shape
  | .arr [a, b] => s a && s b
  | _ => false

/-- Some names. A name may also be written as an object that has null in the field so called. -/
def oneOf (names : List String) : Shape
  | .str s => names.contains s
  | .obj [(s, .null)] => names.contains s
  | _ => false

/-- The objects that list values by keys. -/
def table (key : String → Bool) (value : Shape) : Shape
  | .obj fields => fields.all fun (k, v) => key k && value v
  | _ => false

end Shape

namespace Field

/-- A field that must be there. -/
def required (name : String) (shape : Shape) : Field :=
  ⟨name, shape, false, false⟩

/-- A field that may be null, or not be there in an object. -/
def optional (name : String) (shape : Shape) : Field :=
  ⟨name, shape.nullable, true, false⟩

/-- A field that may not be there. -/
def defaulted (name : String) (shape : Shape) : Field :=
  ⟨name, shape, true, true⟩

/-- Whether the field is as it should be among the fields of an object. -/
def fits (f : Field) (fields : List (String × Json)) : Bool :=
  match fields.lookup f.name with
  | some j => f.shape j
  | none => f.mayLack

end Field

namespace Shape

/-- The objects with some fields. -/
def object (fields : List Field) : Shape
  | .obj given => fields.all (·.fits given)
  | _ => false

/-- The records with some fields. -/
def record (fields : List Field) : Shape
  | .arr items =>
    items.length ≤ fields.length && (items.zip fields).all (fun (j, f) => f.shape j) &&
      (fields.drop items.length).all (·.mayEnd)
  | j => object fields j

/-- The objects with some fields whose other fields all have one shape. -/
def extended (fields : List Field) (others : Shape) : Shape
  | .obj given =>
    fields.all (·.fits given) &&
      given.all fun (name, j) => fields.any (·.name == name) || others j
  | _ => false

/-- The records of several kinds, with the name of the kind in a field or, in an array, first. -/
def tagged (tag : String) (kinds : List (String × Shape)) (j : Json) : Bool :=
  match j, (j.field? tag).bind Json.str? with
  | .arr (.str kind :: items), _ => kinds.any fun (k, s) => k == kind && s (.arr items)
  | _, some kind => kinds.any fun (k, s) => k == kind && s j
  | _, none => false

end Shape

end Recipe
