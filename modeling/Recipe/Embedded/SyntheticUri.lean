import Recipe.Embedded.Region
import Recipe.Uri.Parse

/-!
# Synthetic uris

The document of a region has a uri made from the uri of its host: its authority is the language, its
path spells the scheme, authority and path of the host and the number of the region, in normal form,
and query and fragment are the host's.
-/

namespace Recipe

/-- The scheme of synthetic uris. -/
def syntheticScheme : String :=
  "bitbake-embedded"

namespace UriParts

/-- The scheme segment of a synthetic path; a colon marks a host that is opaque. -/
def schemeSegment (host : UriParts) : String :=
  if host.isOpaque then host.scheme ++ ":" else host.scheme

/-- The path of a uri with a slash before it. -/
def rootedPath (host : UriParts) : String :=
  if host.path.toList.head? = some '/' then host.path else "/" ++ host.path

/-- What follows the first slash of a synthetic path before the path is resolved. -/
def syntheticPath (host : UriParts) (language : Language) (index : Nat) : String :=
  host.schemeSegment ++ "/" ++ host.authority?.getD "" ++ host.rootedPath ++ "."
    ++ toString index ++ "." ++ language.extension

/-- The parts of the uri for region number `index` of a language. -/
def synthetic (host : UriParts) (language : Language) (index : Nat) : UriParts where
  scheme := syntheticScheme
  authority? := some language.label
  path := String.ofList
    (UriPath.normal SchemeKind.general.isSlash (host.syntheticPath language index).toList)
  query? := host.query?
  fragment? := host.fragment?

end UriParts

/-- The uri of the document of region number `index` of a language. -/
def syntheticUri (host : Uri) (language : Language) (index : Nat) : Uri :=
  ⟨(host.parts.synthetic language index).text⟩

end Recipe
