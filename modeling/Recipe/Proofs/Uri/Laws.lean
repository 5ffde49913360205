import Recipe.Proofs.Embedded.SyntheticUri
import Recipe.Proofs.Uri.Parts

/-!
# What is used of uris

How uris are read, resolved and written is a matter of its own. The theory of embedded documents and of
servers needs little of it: the uri of a region tells which region of its host it is for, it is written
from the parts of the host, and the parts of a uri that has been read are its text, cut at its marks.
`UriLaws` states this of any way to name regions and to take uris apart. `uriLaws` proves it of the one
that is used here, and nothing after it looks into a resolved path or into the reader of uris.
-/

namespace Recipe

/-- What is needed of a way to name the regions of hosts by uris, a way to take uris apart, and the uris
for which the latter is sound. -/
structure UriLaws (name : Uri → Language → Nat → Uri) (parts : Uri → UriParts) (IsNormal : Uri → Prop) :
    Prop where
  /-- The uri of a region tells its language and its number among the regions of its host. -/
  region_of_name : ∀ {host l m i j}, name host l i = name host m j → l = m ∧ i = j
  /-- The uri of a region is the text of the synthetic parts that its host gives. -/
  text_name : ∀ host l i, (name host l i).text = ((parts host).synthetic l i).text
  /-- A normal uri is the text of its parts. -/
  text_parts : ∀ {u}, IsNormal u → (parts u).text = u.text
  /-- No part of a normal uri has the mark that ends it. -/
  delimited : ∀ {u}, IsNormal u → (parts u).Delimited

theorem uriLaws : UriLaws syntheticUri Uri.parts Uri.IsNormal where
  region_of_name := syntheticUri_inj
  text_name _ _ _ := rfl
  text_parts h := h.text_parts.1
  delimited h := h.text_parts.2

end Recipe
