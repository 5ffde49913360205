/-!
# Scanning

What a statement is scanned for: blanks and line continuations, words, names, brace groups,
keywords and operators. Each scan cuts its text in two, and the parts together are the text.
-/

namespace Recipe.Grammar

/-- A text cut in two. -/
structure Cut where
  front : List Char
  rest : List Char
deriving DecidableEq, Repr

namespace Cut

/-- Adds a text before the cut text. -/
def push (cs : List Char) (c : Cut) : Cut :=
  ⟨cs ++ c.front, c.rest⟩

/-- Cuts before the first character outside a class. -/
def span (p : Char → Bool) (cs : List Char) : Cut :=
  ⟨cs.takeWhile p, cs.dropWhile p⟩

/-- Cuts before the first suffix that fails a test. -/
def scan (p : List Char → Bool) : List Char → Cut
  | [] => ⟨[], []⟩
  | c :: cs => if p (c :: cs) then (scan p cs).push [c] else ⟨[], c :: cs⟩

theorem length_span_rest_le (p : Char → Bool) (cs : List Char) :
    (span p cs).rest.length ≤ cs.length :=
  (List.dropWhile_sublist p).length_le

theorem front_append_scan (p : List Char → Bool) (cs : List Char) :
    (scan p cs).front ++ (scan p cs).rest = cs := by
  induction cs with
  | nil => rfl
  | cons c cs ih =>
    rw [scan]
    split
    · simpa [push] using ih
    · rfl

theorem length_scan_rest_le (p : List Char → Bool) (cs : List Char) :
    (scan p cs).rest.length ≤ cs.length := by
  have h := congrArg List.length (front_append_scan p cs)
  simp only [List.length_append] at h
  omega

theorem length_scan_rest_lt {p : List Char → Bool} {cs : List Char} (h : (scan p cs).front ≠ []) :
    (scan p cs).rest.length < cs.length := by
  have := congrArg List.length (front_append_scan p cs)
  have := List.length_pos_iff.2 h
  simp only [List.length_append] at *
  omega

end Cut

/-! ## Character classes -/

/-- The characters of variable names. -/
def isNameChar (c : Char) : Bool :=
  c.isAlphanum || ['_', '-', '.', '+', '/', '~'].contains c

/-- The characters that begin a name or an expansion in one. -/
def startsName (c : Char) : Bool :=
  isNameChar c || c == '$'

/-- The characters of task names, in which overrides and expansions stand unparsed. -/
def isTaskNameChar (c : Char) : Bool :=
  isNameChar c || ['$', '{', '}', ':'].contains c

/-- The characters of the name of a python definition. -/
def isDefinitionNameChar (c : Char) : Bool :=
  c.isAlphanum || c == '_'

/-- The characters of the name of a variable flag. -/
def isFlagChar (c : Char) : Bool :=
  c.isAlphanum || ['_', '-', '+', '.', '@', '/'].contains c

/-- The blanks between the words of a header line. -/
def isInlineBlank (c : Char) : Bool :=
  [' ', '\t', '\r'].contains c

/-- The blanks between the words of a statement. -/
def isSpacingChar (c : Char) : Bool :=
  [' ', '\t', '\r', '\n'].contains c

/-- The characters that end a word. -/
def endsWord (c : Char) : Bool :=
  [' ', '\t', '\n', '\x0c', '\r'].contains c

/-! ## Spacing and words -/

/-- Whether the text begins with a backslash that joins the next line, or that ends the text. -/
def continues : List Char → Bool
  | '\\' :: rest =>
    match rest with
    | [] => true
    | '\n' :: _ => true
    | ['\r'] => true
    | '\r' :: '\n' :: _ => true
    | _ => false
  | _ => false

/-- Whether the text begins with spacing. -/
def startsSpacing (cs : List Char) : Bool :=
  cs.head?.any isSpacingChar || continues cs

/-- Whether the text begins with a character of a word. -/
def startsWord (cs : List Char) : Bool :=
  !(cs.head?.any endsWord || continues cs)

/-- Cuts after the blanks, line ends and continuations at the beginning. -/
def spacing (cs : List Char) : Cut :=
  Cut.scan startsSpacing cs

/-- Cuts after the word at the beginning. -/
def word (cs : List Char) : Cut :=
  Cut.scan startsWord cs

/-! ## Brace groups and names -/

/-- Cuts before the brace that closes the `depth` groups opened inside and the group itself. There
is none if the text ends first or a character of the class `stop` comes first. -/
def closeBrace (stop : Char → Bool) : (depth : Nat) → List Char → Option Cut
  | _, [] => none
  | depth, c :: cs =>
    if stop c then none
    else if c = '}' ∧ depth = 0 then some ⟨[], c :: cs⟩
    else
      let depth := if c = '{' then depth + 1 else if c = '}' then depth - 1 else depth
      (closeBrace stop depth cs).map (Cut.push [c])

/-- A brace group that stands after its `$`: its inside, and the text after its closing brace. -/
def braceGroup (stop : Char → Bool) : List Char → Option Cut
  | '{' :: cs => (closeBrace stop 0 cs).map fun c => ⟨c.front, c.rest.tail⟩
  | _ => none

theorem front_append_closeBrace {stop : Char → Bool} {depth : Nat} {cs : List Char} {r : Cut}
    (h : closeBrace stop depth cs = some r) : cs = r.front ++ r.rest ∧ r.rest.head? = some '}' := by
  induction cs generalizing depth r with
  | nil => simp [closeBrace] at h
  | cons c cs ih =>
    rw [closeBrace] at h
    split at h
    · cases h
    split at h
    · next hc => cases h; simp [hc.1]
    · obtain ⟨s, hs, rfl⟩ := Option.map_eq_some_iff.1 h
      simpa [Cut.push] using ih hs

theorem eq_of_braceGroup {stop : Char → Bool} {cs : List Char} {r : Cut}
    (h : braceGroup stop cs = some r) : cs = '{' :: r.front ++ '}' :: r.rest := by
  unfold braceGroup at h
  split at h
  · obtain ⟨s, hs, rfl⟩ := Option.map_eq_some_iff.1 h
    obtain ⟨rfl, hr⟩ := front_append_closeBrace hs
    cases hrest : s.rest with
    | nil => simp [hrest] at hr
    | cons d ds => simp_all
  · cases h

theorem length_braceGroup_rest {stop : Char → Bool} {cs : List Char} {r : Cut}
    (h : braceGroup stop cs = some r) : r.rest.length < cs.length := by
  rw [eq_of_braceGroup h]
  simp
  omega

/-- Whether a character of a name begins an operator instead. -/
def beginsOperator (c : Char) (rest : List Char) : Bool :=
  (c == '.' || c == '+') && rest.head? == some '='

/-- Cuts after the name at the beginning: name characters and brace groups, up to an override. -/
def baseName (cs : List Char) : Cut :=
  match cs with
  | [] => ⟨[], []⟩
  | c :: rest =>
    if beginsOperator c rest then ⟨[], c :: rest⟩
    else if isNameChar c then (baseName rest).push [c]
    else if c = '$' then
      match h : braceGroup (fun _ => false) rest with
      | some g =>
        have := length_braceGroup_rest h
        (baseName g.rest).push ('$' :: '{' :: g.front ++ ['}'])
      | none => ⟨[], c :: rest⟩
    else ⟨[], c :: rest⟩
termination_by cs.length

theorem front_append_baseName (cs : List Char) :
    (baseName cs).front ++ (baseName cs).rest = cs := by
  fun_induction baseName cs with
  | case1 => rfl
  | case2 => rfl
  | case3 c rest _ _ ih => simpa [Cut.push] using ih
  | case4 rest g h _ _ _ ih => simp [Cut.push, ih, eq_of_braceGroup h]
  | case5 => rfl
  | case6 => rfl

theorem length_baseName_rest_le (cs : List Char) : (baseName cs).rest.length ≤ cs.length := by
  have h := congrArg List.length (front_append_baseName cs)
  simp only [List.length_append] at h
  omega

/-- Whether the text begins with an override: a colon before a name. -/
def startsOverride : List Char → Bool
  | ':' :: c :: _ => startsName c
  | _ => false

/-- The names of the overrides at the beginning, and the text after them. A name can be empty. -/
def overrides (cs : List Char) : List (List Char) × List Char :=
  match cs with
  | [] => ([], [])
  | c :: rest =>
    if startsOverride (c :: rest) then
      have := length_baseName_rest_le rest
      let others := overrides (baseName rest).rest
      ((baseName rest).front :: others.1, others.2)
    else ([], c :: rest)
termination_by cs.length

/-- Cuts after the name at the beginning, overrides included. -/
def fullName (cs : List Char) : Cut :=
  let base := baseName cs
  let ovs := overrides base.rest
  ⟨base.front ++ ovs.1.flatMap (':' :: ·), ovs.2⟩

/-! ## Keywords and operators -/

/-- What follows a literal text. -/
def literal? (s : String) (cs : List Char) : Option (List Char) :=
  if s.toList.isPrefixOf cs then some (cs.drop s.toList.length) else none

/-- What follows a keyword: the word must not go on with a character of a name. -/
def keyword? (s : String) (cs : List Char) : Option (List Char) :=
  (literal? s cs).filter fun rest => !rest.head?.any isNameChar

/-- The assignment operators, each before those it begins with. -/
def operators : List String :=
  ["??=", "?=", ":=", "+=", "=+", ".=", "=.", "="]

/-- Cuts after the operator at the beginning, the longest one that fits. -/
def operator? (cs : List Char) : Option Cut :=
  operators.findSome? fun op => (literal? op cs).map fun rest => ⟨op.toList, rest⟩

theorem length_keyword?_rest {s : String} {cs rest : List Char} (h : keyword? s cs = some rest) :
    rest.length + s.toList.length = cs.length := by
  unfold keyword? literal? at h
  split at h
  · next hp =>
    obtain ⟨hr, _⟩ := Option.filter_eq_some_iff.1 h
    cases hr
    have := (List.isPrefixOf_iff_prefix.1 hp).length_le
    simp
    omega
  · simp at h

end Recipe.Grammar
