import Recipe.Uri.Basic

/-!
# Reading uris

A uri may be written in many ways. Blanks around it and line ends within it do not count, letter
case does not count in schemes and domain names, what cannot stand in a part is escaped, and paths
are resolved. Schemes with hosts read backslashes as slashes and do without those before the host;
a file uri always has an authority, if an empty one.
-/

namespace Recipe

/-- The families of schemes that are read differently. -/
inductive SchemeKind where
  /-- Files of this machine or of a host. -/
  | file
  /-- Schemes that always have a host. -/
  | hosted
  | general
deriving DecidableEq, Repr

namespace SchemeKind

/-- The schemes that always have a host, and the number after it that need not be written. -/
def hostedSchemes : List (String × Nat) :=
  [("http", 80), ("https", 443), ("ws", 80), ("wss", 443), ("ftp", 21)]

/-- The family of a scheme. -/
def ofScheme (scheme : String) : SchemeKind :=
  if scheme = "file" then file
  else if (hostedSchemes.lookup scheme).isSome then hosted
  else general

/-- Whether a character separates the segments of a path. -/
def isSlash (k : SchemeKind) (c : Char) : Bool :=
  c == '/' || k != general && c == '\\'

/-- Whether a character ends an authority. -/
def endsAuthority (k : SchemeKind) (c : Char) : Bool :=
  k.isSlash c || c == '?' || c == '#'

end SchemeKind

namespace UriText

/-- A text without the blanks and control characters around it and without line ends and tabs. -/
def clean (cs : List Char) : List Char :=
  let isOuter := fun c : Char => decide (c.toNat ≤ 32)
  let core := ((cs.dropWhile isOuter).reverse.dropWhile isOuter).reverse
  core.filter fun c => !(c == '\t' || c == '\n' || c == '\r')

/-! ## Authorities -/

/-- The name and the password before a host, with their marks. Both may be empty. -/
def credentials (cs : List Char) : List Char :=
  let name := cs.takeWhile (· != ':')
  let password := cs.drop (name.length + 1)
  if name.isEmpty && password.isEmpty then []
  else
    Percent.encode Percent.inUserInfo name
      ++ (if password.isEmpty then [] else ':' :: Percent.encode Percent.inUserInfo password)
      ++ ['@']

/-- Reads the names before a host, up to the last `@`, and gives what follows. -/
def userInfo (k : SchemeKind) (cs : List Char) : Except UriError (List Char × List Char) :=
  let region := cs.takeWhile (!k.endsAuthority ·)
  if region.contains '@' then
    let host := (region.reverse.takeWhile (· != '@')).reverse
    let info := region.take (region.length - host.length - 1)
    let rest := cs.drop (region.length - host.length)
    if info.isEmpty && host.isEmpty && !rest.isEmpty then .error .emptyHost
    else .ok (credentials info, rest)
  else .ok ([], cs)

/-- The text of a host and what follows it. A colon ends it unless it stands in brackets, which
`inside` says. -/
def hostText (k : SchemeKind) (inside : Bool) : List Char → List Char × List Char
  | [] => ([], [])
  | c :: cs =>
    if k.endsAuthority c || c == ':' && !inside then ([], c :: cs)
    else
      let inside := c == '[' || inside && c != ']'
      let (host, rest) := hostText k inside cs
      (c :: host, rest)

/-- Whether a character may follow the number after a host. -/
def endsNumber (c : Char) : Bool :=
  c == '/' || c == '\\' || c == '?' || c == '#'

/-- Reads the number after a host, and gives what follows. It is left out if it is `default?`. -/
def hostNumber (default? : Option Nat) :
    List Char → Except UriError (Option Nat × List Char)
  | ':' :: cs =>
    let digits := cs.takeWhile Char.isDigit
    let rest := cs.dropWhile Char.isDigit
    let value := digits.foldl (fun n c => 10 * n + (c.toNat - '0'.toNat)) 0
    if 65535 < value || rest.head?.any (!endsNumber ·) then .error .badNumber
    else .ok (if digits.isEmpty || default? == some value then none else some value, rest)
  | cs => .ok (none, cs)

/-- Reads an authority, and gives what follows it. -/
def authority (scheme : String) (cs : List Char) : Except UriError (List Char × List Char) := do
  let kind := SchemeKind.ofScheme scheme
  let (info, cs) ← userInfo kind cs
  let (raw, cs) := hostText kind false cs
  if raw.isEmpty && (kind == .hosted || cs.head? == some ':') then throw .emptyHost
  let host ← if kind == .hosted then UriHost.named raw else UriHost.general raw
  let (number?, cs) ← hostNumber (SchemeKind.hostedSchemes.lookup scheme) cs
  if raw.isEmpty && !info.isEmpty then throw .emptyHost
  let number := match number? with
    | some n => ':' :: Nat.toDigits 10 n
    | none => []
  pure (info ++ host ++ number, cs)

/-! ## The families of schemes -/

/-- The parts of a uri whose authority and path are in normal form; `tail` stands after the path. -/
def assemble (scheme : String) (authority? : Option (List Char)) (path tail : List Char) :
    UriParts :=
  let (query?, fragment?) := UriParts.queryAndFragment tail
  let hosted := SchemeKind.ofScheme scheme != .general
  { scheme
    authority? := authority?.map String.ofList
    path := String.ofList path
    query? := query?.map fun q => String.ofList (Percent.encode (Percent.inQuery hosted) q)
    fragment? := fragment?.map fun f => String.ofList (Percent.encode Percent.inFragment f) }

/-- What stands up to the query and the fragment of a text, and these. -/
def cutTail (cs : List Char) : List Char × List Char :=
  UriParts.cutAt ['?', '#'] cs

/-- A text without a slash at its beginning. -/
def dropSlash (k : SchemeKind) (cs : List Char) : List Char :=
  if cs.head?.any k.isSlash then cs.drop 1 else cs

/-- Reads what follows a scheme that always has a host. -/
def hosted (scheme : String) (cs : List Char) : Except UriError UriParts := do
  let kind := SchemeKind.hosted
  let (authority, cs) ← authority scheme (cs.dropWhile kind.isSlash)
  let (path, tail) := cutTail cs
  pure (assemble scheme (some authority) (UriPath.normal kind.isSlash (dropSlash kind path)) tail)

/-- Reads what follows a scheme of no family. -/
def general (scheme : String) (cs : List Char) : Except UriError UriParts :=
  let kind := SchemeKind.general
  match cs with
  | '/' :: '/' :: cs => do
    let (authority, cs) ← authority scheme cs
    let (path, tail) := cutTail cs
    let path := if path.isEmpty then [] else UriPath.normal kind.isSlash (dropSlash kind path)
    pure (assemble scheme (some authority) path tail)
  | '/' :: cs =>
    let (path, tail) := cutTail cs
    pure (assemble scheme none (UriPath.normal kind.isSlash path) tail)
  | cs =>
    let (path, tail) := cutTail cs
    pure (assemble scheme none (Percent.encode Percent.isControl path) tail)

/-- Reads the host of a file uri. This machine has no name, and a drive letter is no host. -/
def fileHost (cs : List Char) : Except UriError (List Char × List Char) := do
  let raw := cs.takeWhile (!SchemeKind.file.endsAuthority ·)
  if UriPath.isDrive raw then pure ([], cs)
  else
    let host ← if raw.isEmpty then pure [] else UriHost.named raw
    pure (if host = "localhost".toList then [] else host, cs.drop raw.length)

/-- Reads what follows the scheme of a file uri. A path with a drive letter has no host. -/
def file (cs : List Char) : Except UriError UriParts := do
  let kind := SchemeKind.file
  let hasHost := (cs.take 2).length == 2 && (cs.take 2).all kind.isSlash
  let (host, cs) ← if hasHost then fileHost (cs.drop 2) else pure ([], dropSlash kind cs)
  let (path, tail) := cutTail cs
  let path := if host.isEmpty then path else dropSlash kind path
  let host := if (UriPath.segments kind.isSlash path).any UriPath.isDrive then [] else host
  pure (assemble "file" (some host) (UriPath.normalFile kind.isSlash path) tail)

end UriText

/-- Reads a uri. -/
def Uri.parse (s : String) : Except UriError Uri := do
  match UriParts.scheme? (UriText.clean s.toList) with
  | none => throw .relative
  | some (scheme, cs) =>
    let parts ←
      match SchemeKind.ofScheme scheme with
      | .file => UriText.file cs
      | .hosted => UriText.hosted scheme cs
      | .general => UriText.general scheme cs
    pure ⟨parts.text⟩

end Recipe
