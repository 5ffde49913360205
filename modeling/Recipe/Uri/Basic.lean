import Recipe.Uri.Host
import Recipe.Uri.Path

/-!
# Uris

A uri is its text in normal form, and its parts are read off that text: scheme, authority, path,
query, fragment. `Uri.parse` reads a text that may be written in other ways and gives the uri in
normal form, or says why there is none.
-/

namespace Recipe

/-- The parts of a uri. A part that is empty differs from one that is absent. -/
structure UriParts where
  scheme : String
  authority? : Option String
  path : String
  query? : Option String
  fragment? : Option String
deriving DecidableEq, Repr, Inhabited

namespace UriParts

/-- An optional part with the mark before it. -/
def marked (mark : String) : Option String → String
  | some s => mark ++ s
  | none => ""

/-- What keeps a path that begins with two slashes from being taken for an authority. -/
def guard (authority? : Option String) (path : String) : String :=
  if authority?.isNone && "//".toList.isPrefixOf path.toList then "/." else ""

/-- The text of a uri. -/
def text (u : UriParts) : String :=
  u.scheme ++ ":" ++ marked "//" u.authority? ++ guard u.authority? u.path ++ u.path
    ++ marked "?" u.query? ++ marked "#" u.fragment?

/-- Whether the path is a text of its own, not a list of segments, as in `untitled:Untitled-1`. -/
def isOpaque (u : UriParts) : Bool :=
  u.authority?.isNone && u.path.toList.head? != some '/'

/-! ## Reading parts off a text -/

/-- The characters of a scheme after its first, which is a letter. -/
def isSchemeChar (c : Char) : Bool :=
  c.isAlphanum || ['+', '-', '.'].contains c

/-- Cuts a text before the first of some marks. -/
def cutAt (marks : List Char) (cs : List Char) : List Char × List Char :=
  (cs.takeWhile (!marks.contains ·), cs.dropWhile (!marks.contains ·))

/-- The scheme of a text, and what follows its colon. -/
def scheme? (cs : List Char) : Option (String × List Char) :=
  match cs.head?, cs.dropWhile isSchemeChar with
  | some c, ':' :: rest =>
    if c.isAlpha then some (String.ofList ((cs.takeWhile isSchemeChar).map Char.toLower), rest)
    else none
  | _, _ => none

/-- The authority after two slashes, and what follows it. -/
def authorityPart : List Char → Option String × List Char
  | '/' :: '/' :: cs =>
    let cut := cutAt ['/', '?', '#'] cs
    (some (String.ofList cut.1), cut.2)
  | cs => (none, cs)

/-- A path without what guards it. -/
def unguarded : List Char → List Char
  | '/' :: '.' :: '/' :: '/' :: cs => '/' :: '/' :: cs
  | cs => cs

/-- An optional part that begins with `mark` and goes up to one of `stops`, and what follows it. -/
def optionalPart (mark : Char) (stops : List Char) : List Char → Option (List Char) × List Char
  | [] => (none, [])
  | c :: cs =>
    if c = mark then (some (cutAt stops cs).1, (cutAt stops cs).2) else (none, c :: cs)

/-- The query and the fragment that stand after a path. -/
def queryAndFragment (cs : List Char) : Option (List Char) × Option (List Char) :=
  let query := optionalPart '?' ['#'] cs
  (query.1, (optionalPart '#' [] query.2).1)

/-- The parts of a text that begins with a scheme and is in normal form. -/
def ofText? (cs : List Char) : Option UriParts :=
  (scheme? cs).map fun (scheme, rest) =>
    let authority := authorityPart rest
    let path := cutAt ['?', '#'] authority.2
    let tail := queryAndFragment path.2
    { scheme
      authority? := authority.1
      path := String.ofList (if authority.1.isNone then unguarded path.1 else path.1)
      query? := tail.1.map String.ofList
      fragment? := tail.2.map String.ofList }

end UriParts

/-- A uri, as its text. -/
structure Uri where
  text : String
deriving DecidableEq, Repr, Inhabited

namespace Uri

/-- The parts of a uri. -/
def parts (u : Uri) : UriParts :=
  (UriParts.ofText? u.text.toList).getD
    { scheme := u.text, authority? := none, path := "", query? := none, fragment? := none }

/-- Whether a uri comes before another or is it, by text. -/
def textLe (u v : Uri) : Bool :=
  !decide (v.text < u.text)

/-- Uris in the order of their texts. -/
def sort (us : List Uri) : List Uri :=
  us.mergeSort textLe

end Uri

end Recipe
