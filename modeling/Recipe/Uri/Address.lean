import Recipe.Text.Codes

/-!
# Addresses

A host may be a number: an address of four bytes, written with dots, or one of eight pieces of two
bytes, written with colons. Each has many ways of being written, and one normal form.
-/

namespace Recipe.Address

/-- The number that digits of a base write; none if there is another character. -/
def digits? (base : Nat) (cs : List Char) : Option Nat :=
  cs.foldlM (fun n c => ((Text.hexDigit? c).filter (· < base)).map fun d => base * n + d) 0

/-! ## Four bytes -/

/-- Reads a number: hexadecimal after `0x`, octal after another zero, and decimal otherwise. -/
def number? : List Char → Option Nat
  | [] => none
  | '0' :: 'x' :: cs => digits? 16 cs
  | '0' :: 'X' :: cs => digits? 16 cs
  | '0' :: c :: cs => digits? 8 (c :: cs)
  | cs => digits? 10 cs

/-- The parts of a name between its dots. A dot at the end does not count. -/
def dotted (cs : List Char) : List (List Char) :=
  let parts := Text.splitBy (· == '.') cs
  if parts.getLast? = some [] then parts.dropLast else parts

/-- Whether the last part of a name is a number, so that the name is an address or nothing. -/
def endsInNumber (cs : List Char) : Bool :=
  (dotted cs).getLast?.any fun part =>
    !part.isEmpty && part.all Char.isDigit || (number? part).isSome

/-- The number of values of some bytes. -/
def valuesOf : Nat → Nat
  | 0 => 1
  | n + 1 => 256 * valuesOf n

/-- Reads an address of four bytes as one number. All parts but the last are one byte each, and the
last is the rest. -/
def four? (cs : List Char) : Option Nat := do
  let numbers ← (dotted cs).mapM number?
  let last ← numbers.getLast?
  let bytes := numbers.dropLast
  if bytes.length < 4 ∧ bytes.all (· < 256) ∧ last < valuesOf (4 - bytes.length) then
    some (bytes.foldl (fun n b => 256 * n + b) 0 * valuesOf (4 - bytes.length) + last)
  else none

/-- The text of an address of four bytes. -/
def fourText (n : Nat) : List Char :=
  ['.'].intercalate ([n / 16777216, n / 65536 % 256, n / 256 % 256, n % 256].map (Nat.toDigits 10))

/-! ## Eight pieces -/

/-- Reads a piece: one to four hexadecimal digits. -/
def piece? (cs : List Char) : Option Nat :=
  if 0 < cs.length ∧ cs.length ≤ 4 then digits? 16 cs else none

/-- Reads a byte in decimal without needless zeros. -/
def byte? (cs : List Char) : Option Nat :=
  if cs = ['0'] ∨ cs.head?.any (· != '0') then (digits? 10 cs).filter (· < 256) else none

/-- Reads the last two pieces as four bytes. -/
def pieceTail? (cs : List Char) : Option (List Nat) :=
  match (Text.splitBy (· == '.') cs).mapM byte? with
  | some [a, b, c, d] => some [256 * a + b, 256 * c + d]
  | _ => none

/-- Reads pieces with colons between them. If `tail` holds, the last two may be four bytes. -/
def pieces? (tail : Bool) (cs : List Char) : Option (List Nat) :=
  let groups := Text.splitBy (· == ':') cs
  match groups.mapM piece? with
  | some ps => some ps
  | none =>
    if tail then do
      let ps ← groups.dropLast.mapM piece?
      let ends ← groups.getLast?.bind pieceTail?
      some (ps ++ ends)
    else none

/-- What stands before and after the first two colons in sequence. -/
def gap? : List Char → Option (List Char × List Char)
  | ':' :: ':' :: cs => some ([], cs)
  | c :: cs => (gap? cs).map fun (before, after) => (c :: before, after)
  | [] => none

/-- Reads an address of eight pieces. Two colons in sequence stand for at least one piece that is
zero. -/
def eight? (cs : List Char) : Option (List Nat) :=
  match gap? cs with
  | none => (pieces? true cs).filter (·.length == 8)
  | some (before, after) => do
    let front ← if before.isEmpty then some [] else pieces? false before
    let back ← if after.isEmpty then some [] else pieces? true after
    if front.length + back.length ≤ 7 then
      some (front ++ List.replicate (8 - front.length - back.length) 0 ++ back)
    else none

/-- The number of zeros at the beginning of some pieces. -/
def zeros (ps : List Nat) : Nat :=
  (ps.takeWhile (· == 0)).length

/-- The first place of the longest run of zeros, and its length. -/
def longestRun (ps : List Nat) : Nat × Nat :=
  (List.range ps.length).foldl (fun best i =>
    if best.2 < zeros (ps.drop i) then (i, zeros (ps.drop i)) else best) (0, 0)

/-- The text of an address of eight pieces. Two colons stand for the longest run of zeros, if it is
more than one. -/
def eightText (ps : List Nat) : List Char :=
  let colons := fun qs : List Nat => [':'].intercalate (qs.map (Nat.toDigits 16))
  let (place, length) := longestRun ps
  if length < 2 then colons ps
  else colons (ps.take place) ++ "::".toList ++ colons (ps.drop (place + length))

end Recipe.Address
