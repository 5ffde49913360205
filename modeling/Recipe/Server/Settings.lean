import Recipe.Json.Basic

/-!
# Settings

What a client can switch off. Settings are a JSON record whose missing fields are on; a field that
is present must be a truth value.
-/

namespace Recipe

/-- The settings of a server. -/
structure Settings where
  /-- Publish diagnostics; when off, empty lists are published. -/
  diagnostics : Bool
  /-- Keep documents for embedded code. -/
  embeddedDocuments : Bool
deriving DecidableEq, Repr, Inhabited

namespace Settings

/-- The settings until a client changes them. -/
def default : Settings :=
  ⟨true, true⟩

/-- A switch that is on unless it is given. -/
def switch? : Option Json → Option Bool
  | none => some true
  | some j => j.bool?

/-- Reads settings. -/
def ofJson? (j : Json) : Option Settings :=
  match j.record? ["diagnostics", "embeddedDocuments"] with
  | some [d, e] => (switch? d).bind fun d => (switch? e).map fun e => ⟨d, e⟩
  | _ => none

end Settings

end Recipe
