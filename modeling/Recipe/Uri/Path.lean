import Recipe.Uri.Percent

/-!
# Paths

A path is a list of segments with a slash before each. Reading one resolves the segments that stand
for the same place and for the place above. A drive letter is the top of all that follows it: it
cannot be left upwards, and in a file path it is written with a colon and stands on its own.
-/

namespace Recipe.UriPath

/-- The number of dots that a segment consists of, each as it is or escaped. -/
def dots? : List Char → Option Nat
  | [] => some 0
  | '.' :: cs => (dots? cs).map (· + 1)
  | '%' :: '2' :: 'e' :: cs => (dots? cs).map (· + 1)
  | '%' :: '2' :: 'E' :: cs => (dots? cs).map (· + 1)
  | _ => none

/-- Whether a segment stands for the place that it is in. -/
def isHere (segment : List Char) : Bool :=
  dots? segment == some 1

/-- Whether a segment stands for the place above. -/
def isAbove (segment : List Char) : Bool :=
  dots? segment == some 2

/-- What follows a drive letter and its mark at the beginning of a text. -/
def afterDrive? : List Char → Option (List Char)
  | a :: b :: cs => if a.isAlpha && (b == ':' || b == '|') then some cs else none
  | _ => none

/-- Whether a text is a drive letter with its mark. -/
def isDrive (cs : List Char) : Bool :=
  afterDrive? cs == some []

/-- Whether a segment cannot be left upwards. -/
def isTop (segment : List Char) : Bool :=
  (afterDrive? segment).any fun cs => cs.isEmpty || cs.head? == some '\\'

/-- Goes up one segment; `done` lists segments from the last one on. -/
def up : List (List Char) → List (List Char)
  | [] => []
  | segment :: done => if isTop segment then segment :: done else done

/-- The segments that a segment of a file path counts as, from the last one on: a drive letter at
the beginning stands on its own even if no slash follows it. -/
def fileSegments (atStart : Bool) (segment : List Char) : List (List Char) :=
  match segment with
  | [a, _] => if isDrive segment then [[a, ':']] else [segment]
  | a :: ':' :: cs => if atStart && a.isAlpha then [cs, [a, ':']] else [segment]
  | _ => [segment]

/-- Resolves segments after those in `done`, which lists them from the last one on. -/
def resolve (file : Bool) (done : List (List Char)) : List (List Char) → List (List Char)
  | [] => done.reverse
  | segment :: rest =>
    if isHere segment then resolve file (if rest.isEmpty then [] :: done else done) rest
    else if isAbove segment then
      resolve file (if rest.isEmpty then [] :: up done else up done) rest
    else
      resolve file
        ((if file then fileSegments done.isEmpty segment else [segment]) ++ done) rest

/-- The text of a path. -/
def text (segments : List (List Char)) : List Char :=
  segments.flatMap ('/' :: ·)

/-- The escaped segments of what follows the first slash of a path. -/
def segments (isSlash : Char → Bool) (cs : List Char) : List (List Char) :=
  (Text.splitBy isSlash cs).map (Percent.encode Percent.inPath)

/-- The path in normal form of which `cs` follows the first slash. -/
def normal (isSlash : Char → Bool) (cs : List Char) : List Char :=
  text (resolve false [] (segments isSlash cs))

/-- The file path in normal form of which `cs` follows the first slash. It begins with one slash. -/
def normalFile (isSlash : Char → Bool) (cs : List Char) : List Char :=
  '/' :: (text (resolve true [] (segments isSlash cs))).dropWhile (· == '/')

end Recipe.UriPath
