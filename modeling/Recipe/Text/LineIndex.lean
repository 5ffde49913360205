import Recipe.Position
import Recipe.Text.Width

/-!
# Line indexes

The lines of a text by the offsets at which they begin, in words of 64 bits. A line is found by its
number in the array of these offsets, and the line of an offset by binary search. A sum or a difference
that no word can hold is an overflow; what becomes of it is left open (`Overflow`).
-/

namespace Recipe

/-- What becomes of a sum or a difference that no word can hold. -/
inductive Overflow where
  /-- The computation stops. -/
  | stops
  /-- The word wraps around. -/
  | wraps
deriving DecidableEq, Repr

/-- Why a computation stops. -/
inductive Stop where
  | overflow
  /-- There is no entry at an index. -/
  | index
deriving DecidableEq, Repr

/-- The sum of two words. -/
def Overflow.add (m : Overflow) (a b : UInt64) : Except Stop UInt64 :=
  if a.toNat + b.toNat < UInt64.size ∨ m = wraps then .ok (a + b) else .error .overflow

/-- The difference of two words. -/
def Overflow.sub (m : Overflow) (a b : UInt64) : Except Stop UInt64 :=
  if b ≤ a ∨ m = wraps then .ok (a - b) else .error .overflow

/-- A line and a column in words. -/
structure Point where
  line : UInt64
  column : UInt64
deriving DecidableEq, Repr

/-- The position in numbers. -/
def Point.toPosition (p : Point) : Position :=
  ⟨p.line.toNat, p.column.toNat⟩

/-- The index at which `p` ceases to hold of the entries from `lo` to `hi`, by halving. -/
def partitionFrom (p : UInt64 → Bool) (xs : Array UInt64) (lo hi : Nat) : Nat :=
  if lo < hi then
    let mid := (lo + hi) / 2
    if xs[mid]?.any p then partitionFrom p xs (mid + 1) hi else partitionFrom p xs lo mid
  else lo
termination_by hi - lo

/-- The offsets of the line feeds of a text that begins at offset `o`. -/
def Text.lineFeedsFrom (o : Nat) : List Char → List Nat
  | [] => []
  | c :: cs => if c = '\n' then o :: lineFeedsFrom (o + 1) cs else lineFeedsFrom (o + c.utf8Size) cs

/-- The offsets at which the lines of a text begin, and its number of bytes. -/
structure LineIndex where
  lineStarts : Array UInt64
  len : UInt64
deriving DecidableEq, Repr

namespace LineIndex

/-- The line index of a text: a line begins after each line feed. -/
def ofText (m : Overflow) (cs : List Char) : Except Stop LineIndex := do
  let starts ← (Text.lineFeedsFrom 0 cs).mapM fun o => m.add (.ofNat o) 1
  return ⟨(0 :: starts).toArray, .ofNat (Text.bytes cs)⟩

/-- The number of lines. -/
def lineCount (x : LineIndex) : Nat :=
  x.lineStarts.size

/-- Where a line begins and ends, without its line feed. -/
def lineSpan (x : LineIndex) (m : Overflow) (line : UInt64) : Except Stop (Option (UInt64 × UInt64)) :=
  match x.lineStarts[line.toNat]? with
  | none => return none
  | some start => do
    let next ← m.add line 1
    match x.lineStarts[next.toNat]? with
    | some next => return some (start, ← m.sub next 1)
    | none => return some (start, x.len)

/-- The position of an offset; one past the end counts as the end. -/
def position (x : LineIndex) (m : Overflow) (offset : UInt64) : Except Stop Point :=
  let offset := min offset x.len
  let line := partitionFrom (· ≤ offset) x.lineStarts 0 x.lineStarts.size - 1
  match x.lineStarts[line]? with
  | some start => return ⟨.ofNat line, ← m.sub offset start⟩
  | none => throw .index

/-- The offset of a position; a line past the text counts as its end. -/
def offset (x : LineIndex) (m : Overflow) (p : Point) : Except Stop UInt64 := do
  match ← x.lineSpan m p.line with
  | some (start, stop) => return min (← m.add start p.column) stop
  | none => return x.len

/-- The range of a span, which is kept as it is given. -/
def range (x : LineIndex) (m : Overflow) (start stop : UInt64) : Except Stop Range := do
  let first ← x.position m start
  let last ← x.position m stop
  return ⟨⟨start.toNat, stop.toNat⟩, first.toPosition, last.toPosition⟩

end LineIndex

end Recipe
