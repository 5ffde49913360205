import Mathlib.Data.List.Chain
import Mathlib.Data.List.Infix
import Recipe.Proofs.Grammar.LineEnding.Statement

/-!
# Written assignments

An assignment as it is written: a name with overrides and a flag, an operator, and a quoted value, with
blanks between them (`Assignment`). Names are made of name characters and of brace groups, values of
plain text, escapes and brace groups. What is written is read back: each reader takes the text of its
part, up to where the next part begins, and gives the part (`assignment?_text`).
-/

namespace Recipe.Written

open Grammar

/-! ## Names -/

/-- Whether the braces of a text belong to each other, `depth` of them being open before it. -/
def balanced : (depth : Nat) → List Char → Bool
  | depth, [] => depth == 0
  | depth, c :: cs =>
    if c = '{' then balanced (depth + 1) cs
    else if c = '}' then decide (0 < depth) && balanced (depth - 1) cs
    else balanced depth cs

/-- The text of a brace group after its dollar sign. -/
def braced (inside : List Char) : List Char :=
  '$' :: '{' :: (inside ++ ['}'])

/-- A part of a name. -/
inductive NamePart where
  | char (c : Char)
  | group (inside : List Char)
deriving DecidableEq, Repr

namespace NamePart

/-- The text of a part. -/
def text : NamePart → List Char
  | char c => [c]
  | group inside => braced inside

/-- A character is one of names, and a group is closed where its text ends, on the same line. -/
def Ok : NamePart → Prop
  | char c => isNameChar c = true
  | group inside => balanced 0 inside = true ∧ '\n' ∉ inside

instance : (p : NamePart) → Decidable p.Ok
  | char c => inferInstanceAs (Decidable (isNameChar c = true))
  | group inside => inferInstanceAs (Decidable (balanced 0 inside = true ∧ '\n' ∉ inside))

end NamePart

/-- The name of a variable or of an override. -/
structure Name where
  parts : List NamePart
  ne_nil : parts ≠ []
  ok : ∀ p ∈ parts, p.Ok

/-- The text of a name. -/
def Name.text (n : Name) : List Char :=
  n.parts.flatMap NamePart.text

theorem closeBrace_cons {stop : Char → Bool} {c : Char} {depth : Nat} (hs : stop c = false)
    (hc : ¬(c = '}' ∧ depth = 0)) (cs : List Char) :
    closeBrace stop depth (c :: cs)
      = (closeBrace stop (if c = '{' then depth + 1 else if c = '}' then depth - 1 else depth)
          cs).map (Cut.push [c]) := by
  rw [closeBrace, hs, if_neg (by simp), if_neg hc]

/-- A text that closes `depth` groups more than it opens is passed over. -/
theorem closeBrace_append {stop : Char → Bool} {depth : Nat} {inside : List Char}
    (h : balanced depth inside = true) (hs : ∀ c ∈ inside, stop c = false) (k : Nat)
    (rest : List Char) :
    closeBrace stop (k + depth) (inside ++ rest) = (closeBrace stop k rest).map (Cut.push inside) := by
  induction inside generalizing depth with
  | nil =>
    obtain rfl : depth = 0 := by simpa [balanced] using h
    have hpush : Cut.push [] = id := rfl
    rw [hpush, Option.map_id, id, Nat.add_zero, List.nil_append]
  | cons c inside ih =>
    have hc := hs c List.mem_cons_self
    have hinside : ∀ d ∈ inside, stop d = false := fun d hd => hs d (List.mem_cons_of_mem c hd)
    have hpush : ∀ o : Option Cut, (o.map (Cut.push inside)).map (Cut.push [c])
        = o.map (Cut.push (c :: inside)) := by
      intro o
      cases o <;> rfl
    rw [balanced] at h
    rw [List.cons_append]
    by_cases hopen : c = '{'
    · rw [if_pos hopen] at h
      rw [closeBrace_cons hc (by simp [hopen]), if_pos hopen, Nat.add_assoc, ih h hinside, hpush]
    rw [if_neg hopen] at h
    by_cases hclose : c = '}'
    · rw [if_pos hclose, Bool.and_eq_true, decide_eq_true_eq] at h
      rw [closeBrace_cons hc (by omega), if_neg hopen, if_pos hclose, Nat.add_sub_assoc h.1,
        ih h.2 hinside, hpush]
    · rw [if_neg hclose] at h
      rw [closeBrace_cons hc (fun hh => hclose hh.1), if_neg hopen, if_neg hclose, ih h hinside,
        hpush]

/-- A group is read up to its closing brace. -/
theorem braceGroup_braced (stop : Char → Bool) {inside : List Char} (h : balanced 0 inside = true)
    (hs : ∀ c ∈ inside, stop c = false) (hstop : stop '}' = false) (rest : List Char) :
    braceGroup stop ('{' :: (inside ++ '}' :: rest)) = some ⟨inside, rest⟩ := by
  have hclose : closeBrace stop 0 ('}' :: rest) = some ⟨[], '}' :: rest⟩ := by
    rw [closeBrace, hstop, if_neg (by simp), if_pos ⟨rfl, rfl⟩]
  have h := closeBrace_append h hs 0 ('}' :: rest)
  rw [hclose] at h
  rw [braceGroup, h]
  simp [Cut.push]

/-- Whether a name ends before the text: no character follows that goes on with it, nor one that makes
an operator of its last character. -/
def endsName (rest : List Char) : Bool :=
  rest.head?.all fun c => !startsName c && c != '='

theorem baseName_of_endsName {rest : List Char} (h : endsName rest = true) :
    baseName rest = ⟨[], rest⟩ := by
  cases rest with
  | nil => rw [baseName]
  | cons c rest =>
    simp only [endsName, startsName, List.head?_cons, Option.all_some, Bool.and_eq_true,
      Bool.not_eq_true', Bool.or_eq_false_iff, beq_eq_false_iff_ne] at h
    exact baseName_of_stops h.1.1 fun hc => absurd hc h.1.2

theorem head?_parts_ne {ps : List NamePart} (hp : ∀ p ∈ ps, p.Ok) {rest : List Char}
    (h : endsName rest = true) : (ps.flatMap NamePart.text ++ rest).head? ≠ some '=' := by
  cases ps with
  | nil =>
    cases rest with
    | nil => simp
    | cons c rest =>
      simp only [endsName, List.head?_cons, Option.all_some, Bool.and_eq_true, bne_iff_ne] at h
      simpa using h.2
  | cons p ps =>
    cases p with
    | char c =>
      have hc : isNameChar c = true := hp _ List.mem_cons_self
      rw [List.flatMap_cons, NamePart.text]
      simp only [List.cons_append, List.head?_cons, ne_eq, Option.some.injEq]
      rintro rfl
      exact absurd hc (by decide)
    | group inside => simp [NamePart.text, braced]

theorem baseName_parts {ps : List NamePart} (hp : ∀ p ∈ ps, p.Ok) {rest : List Char}
    (h : endsName rest = true) :
    baseName (ps.flatMap NamePart.text ++ rest) = ⟨ps.flatMap NamePart.text, rest⟩ := by
  induction ps with
  | nil => exact baseName_of_endsName h
  | cons p ps ih =>
    obtain ⟨hp, hps⟩ := List.forall_mem_cons.1 hp
    cases p with
    | char c =>
      have hb : beginsOperator c (ps.flatMap NamePart.text ++ rest) = false := by
        rw [beginsOperator, beq_eq_false_iff_ne.2 (head?_parts_ne hps h), Bool.and_false]
      have hn : isNameChar c = true := hp
      rw [List.flatMap_cons, NamePart.text, List.append_assoc, List.singleton_append, baseName,
        if_neg (by simp [hb]), if_pos hn, ih hps]
      rfl
    | group inside =>
      have hg := braceGroup_braced (fun _ => false) hp.1 (fun _ _ => rfl) rfl
        (ps.flatMap NamePart.text ++ rest)
      have htext : NamePart.text (.group inside) ++ ps.flatMap NamePart.text ++ rest
          = '$' :: '{' :: (inside ++ '}' :: (ps.flatMap NamePart.text ++ rest)) := by
        simp [NamePart.text, braced]
      rw [List.flatMap_cons, htext, baseName_of_braceGroup hg, ih hps]
      simp [Cut.push, NamePart.text, braced]

/-- A name is read up to where it ends. -/
theorem baseName_text (n : Name) {rest : List Char} (h : endsName rest = true) :
    baseName (n.text ++ rest) = ⟨n.text, rest⟩ :=
  baseName_parts n.ok h

theorem Name.exists_cons (n : Name) : ∃ c cs, n.text = c :: cs ∧ startsName c = true := by
  obtain ⟨p, ps, hp⟩ := List.exists_cons_of_ne_nil n.ne_nil
  have hok := n.ok p (hp ▸ List.mem_cons_self)
  rw [Name.text, hp, List.flatMap_cons]
  cases p with
  | char c =>
    have hc : isNameChar c = true := hok
    exact ⟨c, _, rfl, by simp [startsName, hc]⟩
  | group inside => exact ⟨'$', _, rfl, rfl⟩

theorem NamePart.Ok.not_mem {p : NamePart} (h : p.Ok) : '\n' ∉ p.text := by
  cases p with
  | char c =>
    rintro hc
    obtain rfl := List.mem_singleton.1 hc
    exact absurd h (by decide)
  | group inside => simp [NamePart.text, braced, h.2]

theorem Name.not_mem_text (n : Name) : '\n' ∉ n.text := by
  intro h
  obtain ⟨p, hp, hc⟩ := List.mem_flatMap.1 h
  exact (n.ok p hp).not_mem hc

/-! ## What is assigned to -/

/-- The text of overrides, each after its colon. -/
def overridesText (ns : List Name) : List Char :=
  ns.flatMap fun n => ':' :: n.text

/-- The text of a flag in brackets, if there is one. -/
def flagText : Option (List Char) → List Char
  | some f => '[' :: (f ++ [']'])
  | none => []

/-- The pieces of a flag, if there is one. -/
def flagPieces : Option (List Char) → List Piece
  | some f =>
    [.group .variableFlag (Piece.mark '[' :: Piece.tokens .identifier f ++ [Piece.mark ']'])]
  | none => []

theorem startsOverride_of_head?_ne {rest : List Char} (h : rest.head? ≠ some ':') :
    startsOverride rest = false := by
  unfold startsOverride
  split
  · exact absurd rfl h
  · rfl

theorem overrides_of_not_startsOverride {rest : List Char} (h : startsOverride rest = false) :
    overrides rest = ([], rest) := by
  cases rest with
  | nil => rw [overrides]
  | cons c rest => rw [overrides, if_neg (by simp [h])]

theorem endsName_overridesText (ns : List Name) {rest : List Char} (h : endsName rest = true) :
    endsName (overridesText ns ++ rest) = true := by
  cases ns with
  | nil => exact h
  | cons n ns => rfl

/-- Overrides are read one by one up to where the last of them ends. -/
theorem overrides_text (ns : List Name) {rest : List Char} (h : endsName rest = true)
    (ho : startsOverride rest = false) :
    overrides (overridesText ns ++ rest) = (ns.map Name.text, rest) := by
  induction ns with
  | nil => exact overrides_of_not_startsOverride ho
  | cons n ns ih =>
    obtain ⟨c, cs, htext, hc⟩ := n.exists_cons
    have hstarts : startsOverride (':' :: (n.text ++ (overridesText ns ++ rest))) = true := by
      rw [htext]
      exact hc
    have hcons : overridesText (n :: ns) ++ rest = ':' :: (n.text ++ (overridesText ns ++ rest)) := by
      simp [overridesText]
    rw [hcons, overrides, if_pos hstarts]
    dsimp only
    rw [baseName_text n (endsName_overridesText ns h), ih, List.map_cons]

theorem optionalFlag_text {flag : Option (List Char)} (hf : ∀ f ∈ flag, f.all isFlagChar = true)
    {rest : List Char} (h : rest.head? ≠ some '[') :
    optionalFlag (flagText flag ++ rest) = some ⟨flagPieces flag, rest⟩ := by
  cases flag with
  | none => exact if_neg h
  | some f =>
    have hbracket : isFlagChar ']' = false := by decide
    have hspan : Cut.span isFlagChar (f ++ ']' :: rest) = ⟨f, ']' :: rest⟩ :=
      span_of_all (hf f rfl) hbracket
    have htext : flagText (some f) ++ rest = '[' :: (f ++ ']' :: rest) := by simp [flagText]
    rw [htext, optionalFlag, if_pos List.head?_cons, flag?_bracket, hspan]
    rfl

/-! ## Blanks and operators -/

theorem startsSpacing_cons {c : Char} (hs : isSpacingChar c = false) (hb : c ≠ '\\')
    (cs : List Char) : startsSpacing (c :: cs) = false := by
  rw [startsSpacing, List.head?_cons, Option.any_some, hs, continues_of_ne hb, Bool.or_false]

theorem spacing_of_not_startsSpacing {rest : List Char} (h : startsSpacing rest = false) :
    spacing rest = ⟨[], rest⟩ := by
  cases rest with
  | nil => rfl
  | cons c rest => exact if_neg (by simp [h])

/-- Blanks are skipped up to where the next word begins. -/
theorem spacing_append {blanks rest : List Char} (hb : blanks.all isInlineBlank = true)
    (h : startsSpacing rest = false) : spacing (blanks ++ rest) = ⟨blanks, rest⟩ := by
  induction blanks with
  | nil => exact spacing_of_not_startsSpacing h
  | cons c blanks ih =>
    rw [List.all_cons, Bool.and_eq_true] at hb
    have hc : startsSpacing (c :: (blanks ++ rest)) = true := by
      have hsub : [' ', '\t', '\r'] ⊆ [' ', '\t', '\r', '\n'] := by decide
      have hchar : isSpacingChar c = true :=
        List.contains_iff_mem.2 (hsub (List.contains_iff_mem.1 hb.1))
      simp [startsSpacing, hchar]
    have ih := ih hb.2
    rw [spacing] at ih
    rw [List.cons_append, spacing, Cut.scan, if_pos hc, ih]
    rfl

theorem literal?_eq_none {s : String} {a b : Char} (hs : s.toList = [a, b]) {rest : List Char}
    (h : rest.head? ≠ some b) : literal? s (a :: rest) = none := by
  refine if_neg fun hp => ?_
  obtain ⟨t, ht⟩ := List.isPrefixOf_iff_prefix.1 hp
  rw [hs] at ht
  cases ht
  exact h rfl

/-- Of the operators only the equals sign is the beginning of others. -/
theorem operator?_equals {rest : List Char} (h : rest.head? ≠ some '+' ∧ rest.head? ≠ some '.') :
    operator? ('=' :: rest) = some ⟨['='], rest⟩ := by
  have hlonger : ∀ s ∈ ["??=", "?=", ":=", "+=", "=+", ".=", "=."],
      (literal? s ('=' :: rest)).map (fun r => (⟨s.toList, r⟩ : Cut)) = none := by
    intro s hs
    simp only [List.mem_cons, List.not_mem_nil, or_false] at hs
    rcases hs with rfl | rfl | rfl | rfl | rfl | rfl | rfl
    · rfl
    · rfl
    · rfl
    · rfl
    · rw [literal?_eq_none rfl h.1, Option.map_none]
    · rfl
    · rw [literal?_eq_none rfl h.2, Option.map_none]
  have hsplit : operators = ["??=", "?=", ":=", "+=", "=+", ".=", "=."] ++ ["="] := rfl
  rw [operator?, hsplit, List.findSome?_append, List.findSome?_eq_none_iff.2 hlonger]
  rfl

/-- An operator is read where it is not the beginning of a longer one. -/
theorem operator?_append {op : String} (h : op ∈ operators) {rest : List Char}
    (hr : rest.head? ≠ some '+' ∧ rest.head? ≠ some '.') :
    operator? (op.toList ++ rest) = some ⟨op.toList, rest⟩ := by
  simp only [operators, List.mem_cons, List.not_mem_nil, or_false] at h
  rcases h with rfl | rfl | rfl | rfl | rfl | rfl | rfl | rfl
  -- Only the last one is found after others that could fit.
  iterate 7 rfl
  exact operator?_equals hr

/-- A colon before a name is no operator. -/
theorem operator?_colon {c : Char} (h : c ≠ '=') (rest : List Char) :
    operator? (':' :: c :: rest) = none := by
  have hcolon : literal? ":=" (':' :: c :: rest) = none :=
    literal?_eq_none rfl (show (c :: rest).head? ≠ some '=' by simpa using h)
  refine List.findSome?_eq_none_iff.2 fun s hs => ?_
  simp only [operators, List.mem_cons, List.not_mem_nil, or_false] at hs
  rcases hs with rfl | rfl | rfl | rfl | rfl | rfl | rfl | rfl
  · rfl
  · rfl
  · rw [hcolon, Option.map_none]
  · rfl
  · rfl
  · rfl
  · rfl
  · rfl

theorem startsSpacing_operator {op : String} (h : op ∈ operators) (rest : List Char) :
    startsSpacing (op.toList ++ rest) = false := by
  simp only [operators, List.mem_cons, List.not_mem_nil, or_false] at h
  rcases h with rfl | rfl | rfl | rfl | rfl | rfl | rfl | rfl <;> rfl

/-! ## Quoted values -/

theorem eq_of_isQuote {c : Char} (h : isQuote c = true) : c = '"' ∨ c = '\'' := by
  simpa [isQuote] using h

/-- A part of a quoted value. -/
inductive ValuePart where
  | plain (text : List Char)
  | escape (c : Char)
  | group (inside : List Char)
deriving DecidableEq, Repr

namespace ValuePart

/-- The text of a part. -/
def text : ValuePart → List Char
  | plain t => t
  | escape c => ['\\', c]
  | group inside => braced inside

/-- Whether the part is plain text. -/
def isPlain : ValuePart → Bool
  | plain _ => true
  | _ => false

/-- Plain text does not end the value or begin an escape or a group, and a group is closed where its
text ends, before the value ends. All of it stands on one line. -/
def Ok (quote : Char) : ValuePart → Prop
  | plain t => t ≠ [] ∧ quote ∉ t ∧ '\\' ∉ t ∧ '\n' ∉ t ∧ ¬['$', '{'] <:+: t
  | escape c => c ≠ '\n'
  | group inside => balanced 0 inside = true ∧ quote ∉ inside ∧ '\n' ∉ inside

instance (quote : Char) : (p : ValuePart) → Decidable (p.Ok quote)
  | plain t => inferInstanceAs
      (Decidable (t ≠ [] ∧ quote ∉ t ∧ '\\' ∉ t ∧ '\n' ∉ t ∧ ¬['$', '{'] <:+: t))
  | escape c => inferInstanceAs (Decidable (c ≠ '\n'))
  | group inside => inferInstanceAs
      (Decidable (balanced 0 inside = true ∧ quote ∉ inside ∧ '\n' ∉ inside))

end ValuePart

theorem ValuePart.Ok.not_mem {quote : Char} {p : ValuePart} (h : p.Ok quote) : '\n' ∉ p.text := by
  cases p with
  | plain t => exact h.2.2.2.1
  | escape c =>
    have hc : c ≠ '\n' := h
    simp [ValuePart.text, Ne.symm hc]
  | group inside => simp [ValuePart.text, braced, h.2.2]

/-- Text in front of segments, joined with the text that follows it. -/
def joinText (cs : List Char) : List Segment → List Segment
  | .plain t :: ss => .plain (cs ++ t) :: ss
  | ss => .plain cs :: ss

/-- The segments of a value: its groups, and all the text between two of them as one. -/
def segments : List ValuePart → List Segment
  | [] => []
  | .plain t :: ps => joinText t (segments ps)
  | .escape c :: ps => joinText ['\\', c] (segments ps)
  | .group inside :: ps => .expansion inside :: segments ps

theorem addPlain_eq (cs : List Char) (ss : List Segment) (rest : List Char) :
    Value.addPlain cs ⟨ss, rest⟩ = ⟨joinText cs ss, rest⟩ := by
  match ss with
  | [] => rfl
  | .plain t :: ss => rfl
  | .expansion e :: ss => rfl

/-- Plain text is read character by character and kept as one. -/
theorem read?_plainText {quote : Char} {t : List Char} (ht : t ≠ []) (hq : quote ∉ t)
    (hb : '\\' ∉ t) (hd : ¬['$', '{'] <:+: t) {rest : List Char} (hr : rest.head? ≠ some '{') :
    Value.read? quote (t ++ rest) = (Value.read? quote rest).map (Value.addPlain t) := by
  induction t with
  | nil => exact absurd rfl ht
  | cons c t ih =>
    rw [List.mem_cons, not_or] at hq hb
    have hgroup : c = '$' → braceGroup (· == quote) (t ++ rest) = none := by
      rintro rfl
      refine braceGroup_of_head?_ne ?_
      cases t with
      | nil => exact hr
      | cons d t =>
        rintro h
        cases h
        exact hd ⟨[], t, rfl⟩
    rw [List.cons_append, Value.read?_plain (Ne.symm hq.1) (Ne.symm hb.1) hgroup]
    cases t with
    | nil => rfl
    | cons d t =>
      have hd' : ¬['$', '{'] <:+: d :: t := fun h => hd (List.infix_cons h)
      rw [ih (List.cons_ne_nil d t) hq.2 hb.2 hd', Option.map_map]
      congr 1
      funext v
      exact Value.addPlain_addPlain [c] (d :: t) v

theorem head?_valueParts_ne {quote : Char} (hq : quote ≠ '{') {ps : List ValuePart}
    (h : ∀ p ∈ ps.head?, p.isPlain = false) (rest : List Char) :
    (ps.flatMap ValuePart.text ++ quote :: rest).head? ≠ some '{' := by
  cases ps with
  | nil => simpa using hq
  | cons p ps =>
    cases p with
    | plain t => exact absurd (h _ rfl) (by simp [ValuePart.isPlain])
    | escape c => simp [ValuePart.text]
    | group inside => simp [ValuePart.text, braced]

/-- A value is read up to its closing quote. -/
theorem read?_valueParts {quote : Char} (hquote : isQuote quote = true) {ps : List ValuePart}
    (hp : ∀ p ∈ ps, p.Ok quote)
    (ha : ps.IsChain fun p q => p.isPlain = true → q.isPlain = false) (rest : List Char) :
    Value.read? quote (ps.flatMap ValuePart.text ++ quote :: rest) = some ⟨segments ps, rest⟩ := by
  have hne : quote ≠ '{' ∧ '\\' ≠ quote ∧ '$' ≠ quote ∧ quote ≠ '}' := by
    rcases eq_of_isQuote hquote with rfl | rfl <;> decide
  induction ps with
  | nil => exact Value.read?_quote quote rest
  | cons p ps ih =>
    have hps := ih (fun q hq => hp q (List.mem_cons_of_mem p hq)) ha.tail
    have hok := hp p List.mem_cons_self
    rw [List.flatMap_cons, List.append_assoc]
    cases p with
    | plain t =>
      obtain ⟨ht, hq, hb, -, hd⟩ := hok
      have hnext : ∀ q ∈ ps.head?, q.isPlain = false :=
        fun q hq => (List.isChain_cons.1 ha).1 q hq rfl
      rw [ValuePart.text, read?_plainText ht hq hb hd (head?_valueParts_ne hne.1 hnext rest), hps,
        Option.map_some, addPlain_eq]
      rfl
    | escape c =>
      rw [ValuePart.text, List.cons_append, List.cons_append, List.nil_append,
        Value.read?_escape hne.2.1, hps, Option.map_some, addPlain_eq]
      rfl
    | group inside =>
      obtain ⟨hbal, hq, -⟩ := hok
      have hstop : ∀ c ∈ inside, (c == quote) = false := by
        rintro c hc
        exact beq_eq_false_iff_ne.2 fun h => hq (h ▸ hc)
      have hg := braceGroup_braced (· == quote) hbal hstop
        (beq_eq_false_iff_ne.2 hne.2.2.2.symm) (ps.flatMap ValuePart.text ++ quote :: rest)
      have htext : ValuePart.text (.group inside) ++ (ps.flatMap ValuePart.text ++ quote :: rest)
          = '$' :: '{' :: (inside ++ '}' :: (ps.flatMap ValuePart.text ++ quote :: rest)) := by
        simp [ValuePart.text, braced]
      rw [htext, Value.read?_expansion hne.2.2.1 hg, hps]
      rfl

/-! ## Assignments -/

/-- An assignment as it is written on one line. -/
structure Assignment where
  name : Name
  overrides : List Name
  flag : Option (List Char)
  gap : List Char
  operator : String
  space : List Char
  quote : Char
  value : List ValuePart
  flag_ok : ∀ f ∈ flag, f.all isFlagChar = true
  gap_ne_nil : gap ≠ []
  gap_ok : gap.all isInlineBlank = true
  operator_mem : operator ∈ operators
  space_ok : space.all isInlineBlank = true
  quote_ok : isQuote quote = true
  value_ok : ∀ p ∈ value, p.Ok quote
  /-- Plain text goes as far as it can. -/
  value_apart : value.IsChain fun p q => p.isPlain = true → q.isPlain = false

namespace Assignment

/-- The value between its quotes. -/
def quoted (a : Assignment) : List Char :=
  a.quote :: (a.value.flatMap ValuePart.text ++ [a.quote])

/-- What follows the name, the overrides and the flag. -/
def tail (a : Assignment) : List Char :=
  a.gap ++ (a.operator.toList ++ (a.space ++ a.quoted))

/-- What follows the name. -/
def afterName (a : Assignment) : List Char :=
  overridesText a.overrides ++ (flagText a.flag ++ a.tail)

/-- The text of an assignment. -/
def text (a : Assignment) : List Char :=
  a.name.text ++ a.afterName

/-- The piece that an assignment is read as. -/
def piece (a : Assignment) : Piece :=
  .group .variableAssignment
    (.token .identifier a.name.text :: a.overrides.map (fun o => overridePiece o.text)
      ++ flagPieces a.flag
      ++ [.gap a.gap, .token .operator a.operator.toList, .gap a.space,
        Value.piece a.quote ⟨segments a.value, []⟩])

theorem exists_tail (a : Assignment) :
    ∃ c cs, a.tail = c :: cs ∧ (c = ' ' ∨ c = '\t' ∨ c = '\r') := by
  obtain ⟨c, cs, hgap⟩ := List.exists_cons_of_ne_nil a.gap_ne_nil
  have hc := a.gap_ok
  rw [hgap, List.all_cons, Bool.and_eq_true] at hc
  refine ⟨c, _, by rw [tail, hgap, List.cons_append], ?_⟩
  simpa [isInlineBlank] using hc.1

theorem endsName_flagText (a : Assignment) :
    endsName (flagText a.flag ++ a.tail) = true ∧
      startsOverride (flagText a.flag ++ a.tail) = false := by
  cases a.flag with
  | some f => exact ⟨rfl, startsOverride_of_head?_ne (by simp [flagText])⟩
  | none =>
    obtain ⟨c, cs, htail, hc⟩ := a.exists_tail
    rw [flagText, List.nil_append, htail]
    rcases hc with rfl | rfl | rfl
    · exact ⟨rfl, rfl⟩
    · exact ⟨rfl, rfl⟩
    · exact ⟨rfl, rfl⟩

/-- What is assigned to is read up to the blanks before the operator. -/
theorem target?_text (a : Assignment) :
    target? a.text = some ⟨.token .identifier a.name.text
      :: a.overrides.map (fun o => overridePiece o.text) ++ flagPieces a.flag, a.tail⟩ := by
  obtain ⟨hends, ho⟩ := a.endsName_flagText
  have hbase : baseName a.text = ⟨a.name.text, a.afterName⟩ :=
    baseName_text a.name (endsName_overridesText a.overrides hends)
  have hovs : Grammar.overrides a.afterName
      = (a.overrides.map Name.text, flagText a.flag ++ a.tail) :=
    overrides_text a.overrides hends ho
  have hbracket : a.tail.head? ≠ some '[' := by
    obtain ⟨c, cs, htail, hc⟩ := a.exists_tail
    rw [htail]
    rintro h
    cases h
    simp at hc
  obtain ⟨c, cs, hname, -⟩ := a.name.exists_cons
  rw [target?, hbase]
  dsimp only
  rw [if_neg (by simp [hname]), hovs, optionalFlag_text a.flag_ok hbracket, Option.map_some,
    List.map_map]
  rfl

theorem startsSpacing_quoted (a : Assignment) : startsSpacing a.quoted = false := by
  rw [quoted]
  rcases eq_of_isQuote a.quote_ok with hq | hq
  · rw [hq]
    exact startsSpacing_cons (by decide) (by decide) _
  · rw [hq]
    exact startsSpacing_cons (by decide) (by decide) _

theorem head?_space_quoted (a : Assignment) {c : Char} (h : (a.space ++ a.quoted).head? = some c) :
    isInlineBlank c = true ∨ isQuote c = true := by
  cases hs : a.space with
  | nil =>
    rw [hs, List.nil_append, quoted, List.head?_cons, Option.some.injEq] at h
    exact .inr (h ▸ a.quote_ok)
  | cons d ds =>
    have hd := a.space_ok
    rw [hs, List.all_cons, Bool.and_eq_true] at hd
    rw [hs, List.cons_append, List.head?_cons, Option.some.injEq] at h
    exact .inl (h ▸ hd.1)

theorem assigned_quoted (a : Assignment) (before : List Piece) :
    assigned before ⟨a.operator.toList, a.space ++ a.quoted⟩
      = ⟨.group .variableAssignment (before ++ [.token .operator a.operator.toList, .gap a.space]
          ++ [Value.piece a.quote ⟨segments a.value, []⟩]), []⟩ := by
  have hvalue := read?_valueParts a.quote_ok a.value_ok a.value_apart []
  rw [assigned, spacing_append a.space_ok a.startsSpacing_quoted]
  dsimp only [quoted]
  rw [if_pos a.quote_ok, hvalue]
  rfl

theorem spacing_tail (a : Assignment) :
    spacing a.tail = ⟨a.gap, a.operator.toList ++ (a.space ++ a.quoted)⟩ :=
  spacing_append a.gap_ok (startsSpacing_operator a.operator_mem _)

theorem operator?_operator (a : Assignment) :
    operator? (a.operator.toList ++ (a.space ++ a.quoted))
      = some ⟨a.operator.toList, a.space ++ a.quoted⟩ := by
  refine operator?_append a.operator_mem ⟨fun h => ?_, fun h => ?_⟩
  · exact absurd (a.head?_space_quoted h) (by decide)
  · exact absurd (a.head?_space_quoted h) (by decide)

/-- Reading the text of a written assignment gives its piece and leaves nothing. -/
theorem assignment?_text (a : Assignment) : assignment? a.text = some ⟨a.piece, []⟩ := by
  rw [assignment?, a.target?_text, Option.bind_some]
  dsimp only
  rw [a.spacing_tail, a.operator?_operator, Option.map_some, a.assigned_quoted, piece]
  simp only [List.append_assoc, List.cons_append, List.nil_append]

/-- If an assignment has neither overrides nor a flag, an operator stands after its name and the
spacing. -/
theorem operator?_afterName (a : Assignment) (ho : a.overrides = []) (hf : a.flag = none) :
    (operator? (spacing a.afterName).rest).isSome = true := by
  have hafter : a.afterName = a.tail := by
    rw [afterName, ho, hf]
    rfl
  rw [hafter, a.spacing_tail, a.operator?_operator, Option.isSome_some]

/-- If an assignment has an override or a flag, no operator stands after its name and the
spacing. -/
theorem operator?_afterName_eq_none (a : Assignment) (h : ¬(a.overrides = [] ∧ a.flag = none)) :
    operator? (spacing a.afterName).rest = none := by
  rw [afterName]
  cases ho : a.overrides with
  | cons o os =>
    obtain ⟨c, cs, htext, hc⟩ := o.exists_cons
    have hne : c ≠ '=' := by
      rintro rfl
      exact absurd hc (by decide)
    rw [overridesText, List.flatMap_cons, htext, List.cons_append, List.cons_append,
      List.cons_append, List.cons_append,
      spacing_of_not_startsSpacing (startsSpacing_cons (by decide) (by decide) _)]
    exact operator?_colon hne _
  | nil =>
    cases hf : a.flag with
    | none => exact absurd ⟨ho, hf⟩ h
    | some f =>
      show operator? (spacing ('[' :: _)).rest = none
      rw [spacing_of_not_startsSpacing (startsSpacing_cons (by decide) (by decide) _)]
      rfl

/-! ### The text as a line -/

theorem afterName_endsName (a : Assignment) : endsName a.afterName = true :=
  endsName_overridesText a.overrides a.endsName_flagText.1

theorem quoted_suffix (a : Assignment) : a.quoted <:+ a.text := by
  refine ⟨a.name.text ++ (overridesText a.overrides ++ (flagText a.flag ++ (a.gap
    ++ (a.operator.toList ++ a.space)))), ?_⟩
  simp only [text, afterName, tail, List.append_assoc]

theorem not_mem_quoted (a : Assignment) : '\n' ∉ a.quoted := by
  have hquote : '\n' ≠ a.quote := by
    rintro h
    exact absurd (h ▸ a.quote_ok) (by decide)
  have hvalue : '\n' ∉ a.value.flatMap ValuePart.text := by
    intro h
    obtain ⟨p, hp, hc⟩ := List.mem_flatMap.1 h
    exact (a.value_ok p hp).not_mem hc
  simp [quoted, hquote, hvalue]

/-- An assignment is written on one line. -/
theorem not_mem_text (a : Assignment) : '\n' ∉ a.text := by
  have hblank : ∀ {cs : List Char}, cs.all isInlineBlank = true → '\n' ∉ cs :=
    fun h hm => absurd (List.all_eq_true.1 h _ hm) (by decide)
  have hoperator : ∀ op ∈ operators, '\n' ∉ op.toList := by decide
  have hflag : '\n' ∉ flagText a.flag := by
    have hok := a.flag_ok
    cases hf : a.flag with
    | none => simp [flagText]
    | some f =>
      rw [hf] at hok
      have hmem : '\n' ∉ f := fun hm =>
        absurd (List.all_eq_true.1 (hok f rfl) _ hm) (by decide)
      simp [flagText, hmem]
  have hoverrides : '\n' ∉ overridesText a.overrides := by
    intro h
    obtain ⟨o, -, hc⟩ := List.mem_flatMap.1 h
    rcases List.mem_cons.1 hc with hc | hc
    · exact absurd hc (by decide)
    · exact o.not_mem_text hc
  simp only [text, afterName, tail, List.mem_append, not_or]
  exact ⟨a.name.not_mem_text, hoverrides, hflag, hblank a.gap_ok,
    hoperator a.operator a.operator_mem, hblank a.space_ok, a.not_mem_quoted⟩

end Assignment

end Recipe.Written
