import Recipe.Text.Codes

/-!
# Labels in ASCII

A label of a domain name with characters outside ASCII is written in ASCII: its ASCII characters
come first, then, after a hyphen, a number for each other character in the order of the characters.
A number says how far to go from the last place, where the places of a text are its gaps, once for
each character of Unicode. Its digits have 36 values, and a digit below a threshold ends a number;
the thresholds follow a bias that adapts to the numbers so far.
-/

namespace Recipe.Domain.Punycode

/-- The digit of a value below 36. -/
def digit (n : Nat) : Char :=
  if n < 26 then Char.ofNat ('a'.toNat + n) else Char.ofNat ('0'.toNat + (n - 26))

/-- The value of a digit. -/
def digit? (c : Char) : Option Nat :=
  if c.isDigit then some (c.toNat - '0'.toNat + 26)
  else if c.isLower then some (c.toNat - 'a'.toNat)
  else if c.isUpper then some (c.toNat - 'A'.toNat)
  else none

/-- The threshold of a digit: 1 up to the bias, then rising to 26. `k` is 36 for the first digit of
a number, 72 for the second, and so on. -/
def threshold (bias k : Nat) : Nat :=
  max 1 (min 26 (k - bias))

theorem one_le_threshold (bias k : Nat) : 1 ≤ threshold bias k :=
  Nat.le_max_left ..

/-- Divides a number until it is small, and counts the bias up. -/
def settleBias (bias delta : Nat) : Nat :=
  if 455 < delta then settleBias (bias + 36) (delta / 35) else bias + 36 * delta / (delta + 38)
termination_by delta
decreasing_by omega

/-- The bias after a number. `count` is the number of characters so far, and the first number
counts less. -/
def adapt (first : Bool) (delta count : Nat) : Nat :=
  let delta := if first then delta / 700 else delta / 2
  settleBias 0 (delta + delta / count)

/-- The first bias. -/
def initialBias : Nat := 72

/-- The first number of a character that is not in ASCII. -/
def initialCode : Nat := 128

/-! ## Writing -/

/-- The digits of a number. -/
def digits (bias k n : Nat) : List Char :=
  let t := threshold bias k
  if n < t then [digit n]
  else digit (t + (n - t) % (36 - t)) :: digits bias (k + 36) ((n - t) / (36 - t))
termination_by n
decreasing_by
  have := one_le_threshold bias k
  have := Nat.div_le_self (n - threshold bias k) (36 - threshold bias k)
  omega

/-- What has been written of a label: the digits, the bias, the way since the last place, and how
many characters have been written. -/
structure Writing where
  output : List Char
  bias : Nat
  delta : Nat
  count : Nat

/-- Goes past a character of the label on the way to the character with number `code`, which is
written when it is met. `basic` is the number of ASCII characters. -/
def Writing.pass (basic code : Nat) (w : Writing) (c : Char) : Writing :=
  if c.toNat < code then { w with delta := w.delta + 1 }
  else if c.toNat = code then
    { output := w.output ++ digits w.bias 36 w.delta
      bias := adapt (w.count == basic) w.delta (w.count + 1)
      delta := 0
      count := w.count + 1 }
  else w

/-- Writes the characters with the given numbers, which increase. `code` is the number that the
places stand at. -/
def writeCodes (label : List Char) (basic : Nat) (w : Writing) (code : Nat) : List Nat → Writing
  | [] => w
  | next :: rest =>
    let w := { w with delta := w.delta + (next - code) * (w.count + 1) }
    let w := label.foldl (Writing.pass basic next) w
    writeCodes label basic { w with delta := w.delta + 1 } (next + 1) rest

/-- The numbers of the characters outside ASCII, in increasing order and without repetition. -/
def highCodes (label : List Char) : List Nat :=
  ((label.map Char.toNat).filter (initialCode ≤ ·)).mergeSort.eraseDups

/-- Writes a label. -/
def encode (label : List Char) : List Char :=
  let basic := label.filter (·.toNat < initialCode)
  let start : Writing := ⟨[], initialBias, 0, basic.length⟩
  let w := writeCodes label basic.length start initialCode (highCodes label)
  basic ++ (if basic.isEmpty then [] else ['-']) ++ w.output

/-! ## Reading -/

/-- A number, and the text after its digits. -/
structure Number where
  value : Nat
  rest : List Char

/-- Reads a number; `weight` is what the next digit counts for. -/
def number? (bias k weight : Nat) : List Char → Option Number
  | [] => none
  | c :: cs =>
    (digit? c).bind fun d =>
      let t := threshold bias k
      if d < t then some ⟨d * weight, cs⟩
      else (number? bias (k + 36) (weight * (36 - t)) cs).map fun n =>
        { n with value := d * weight + n.value }

theorem length_number?_rest {bias k weight : Nat} {cs : List Char} {n : Number}
    (h : number? bias k weight cs = some n) : n.rest.length < cs.length := by
  induction cs generalizing k weight n with
  | nil => simp [number?] at h
  | cons c cs ih =>
    simp only [number?, Option.bind_eq_some_iff] at h
    obtain ⟨d, -, h⟩ := h
    split at h
    · cases h
      simp
    · obtain ⟨m, hm, rfl⟩ := Option.map_eq_some_iff.1 h
      have := ih hm
      simp only [List.length_cons]
      omega

/-- Puts characters into a label as the numbers say. `code` and `place` are where the last
character went, `first` says whether there was none. -/
def insertCodes (label : List Char) (bias code place : Nat) (first : Bool) (cs : List Char) :
    Option (List Char) :=
  if cs.isEmpty then some label
  else
    match h : number? bias 36 1 cs with
    | none => none
    | some n =>
      let count := label.length + 1
      let code := code + (place + n.value) / count
      let place := (place + n.value) % count
      if code.isValidChar then
        insertCodes (label.take place ++ Char.ofNat code :: label.drop place)
          (adapt first n.value count) code (place + 1) false n.rest
      else none
termination_by cs.length
decreasing_by exact length_number?_rest h

/-- Reads a label. It is in ASCII, and the last hyphen ends the characters that stand for themselves,
of which there is at least one. -/
def decode? (cs : List Char) : Option (List Char) :=
  let tail := (cs.reverse.takeWhile (· != '-')).reverse
  let basic := cs.take (cs.length - tail.length - 1)
  if !cs.all Text.isAscii || cs.contains '-' && basic.isEmpty then none
  else insertCodes basic initialBias initialCode 0 true tail

end Recipe.Domain.Punycode
