import Recipe.Proofs.Grammar.Task
import Recipe.Proofs.Grammar.Written

/-!
# Line continuations in statements

Spacing skips a backslash only if the line ends right after it (`continues`). Whether such a backslash
is skipped depends on what is read where it stands: `Scans P ps cs rest` says that the pieces `ps` are
scanned from the front of `cs`, that every backslash in their gaps is one that `continues` tells, and
that a token in which such a backslash is left is one that `P` allows or stands in a string. Each reader
of a statement scans its text, and for a whole statement few tokens are allowed (`Keeps`): a name with the
backslash inside a brace group, an error that begins before it, and the path of a directive that takes all
that follows (`wraps_read`).
-/

namespace Recipe.Grammar

open Text (isBlank)
open Written (balanced)

theorem append_eq_append_cons {t u a b : List Char} {c : Char} (h : t ++ u = a ++ c :: b) :
    (∃ d, t = a ++ c :: d ∧ b = d ++ u) ∨ ∃ d, a = t ++ d ∧ u = d ++ c :: b := by
  rcases List.append_eq_append_iff.1 h with ⟨d, ha, hu⟩ | ⟨d, ht, hb⟩
  · exact .inr ⟨d, ha, hu⟩
  · cases d with
    | nil => exact .inr ⟨[], by rw [ht, List.append_nil, List.append_nil], hb.symm⟩
    | cons e d =>
      cases hb
      exact .inl ⟨d, ht, rfl⟩

theorem ne_append_backslash {t : List Char} (h : '\\' ∉ t) (a b : List Char) : t ≠ a ++ '\\' :: b := by
  rintro rfl
  exact h (List.mem_append_right a List.mem_cons_self)

/-! ## Brace groups -/

/-- A backslash between the two texts stands inside a brace group. -/
def InGroup (a b : List Char) : Prop :=
  ∃ front u v back, a = front ++ '$' :: '{' :: u ∧ b = v ++ '}' :: back ∧
    balanced 0 (u ++ '\\' :: v) = true

theorem InGroup.append {a b : List Char} (h : InGroup a b) (p q : List Char) :
    InGroup (p ++ a) (b ++ q) := by
  obtain ⟨front, u, v, back, rfl, rfl, hbalanced⟩ := h
  exact ⟨p ++ front, u, v, back ++ q, by simp, by simp, hbalanced⟩

/-- Every backslash of a text stands inside a brace group. -/
def Braced (cs : List Char) : Prop :=
  ∀ a b, cs = a ++ '\\' :: b → InGroup a b

theorem braced_of_not_mem {cs : List Char} (h : '\\' ∉ cs) : Braced cs :=
  fun a b heq => absurd heq (ne_append_backslash h a b)

theorem Braced.append {cs ds : List Char} (hc : Braced cs) (hd : Braced ds) : Braced (cs ++ ds) := by
  intro a b h
  rcases append_eq_append_cons h with ⟨d, hcs, rfl⟩ | ⟨d, rfl, hds⟩
  · exact (hc a d hcs).append [] ds
  · have hgroup := (hd d b hds).append cs []
    rwa [List.append_nil] at hgroup

theorem balanced_of_closeBrace {stop : Char → Bool} {depth : Nat} {cs : List Char} {r : Cut}
    (h : closeBrace stop depth cs = some r) : balanced depth r.front = true := by
  induction cs generalizing depth r with
  | nil => cases h
  | cons c cs ih =>
    rw [closeBrace] at h
    split at h
    · cases h
    split at h
    · rename_i hc
      cases h
      rw [hc.2]
      rfl
    · rename_i hc
      obtain ⟨s, hs, rfl⟩ := Option.map_eq_some_iff.1 h
      have hinside := ih hs
      rw [Cut.push, List.singleton_append, balanced]
      split at hinside
      · rename_i hopen
        rwa [if_pos hopen]
      rename_i hopen
      rw [if_neg hopen]
      split at hinside
      · rename_i hclose
        have hdepth : 0 < depth := Nat.pos_of_ne_zero fun h0 => hc ⟨hclose, h0⟩
        rw [if_pos hclose, hinside, decide_eq_true hdepth]
        rfl
      · rename_i hclose
        rwa [if_neg hclose]

theorem braced_braceGroup {stop : Char → Bool} {cs : List Char} {g : Cut}
    (h : braceGroup stop cs = some g) : Braced ('$' :: '{' :: g.front ++ ['}']) := by
  have hbalanced : balanced 0 g.front = true := by
    unfold braceGroup at h
    split at h
    · obtain ⟨r, hr, rfl⟩ := Option.map_eq_some_iff.1 h
      have hinside : balanced 0 r.front = true := balanced_of_closeBrace hr
      exact hinside
    · cases h
  intro a b heq
  have heq : ['$', '{'] ++ g.front ++ ['}'] = a ++ '\\' :: b := heq
  rcases append_eq_append_cons heq with ⟨d, hd, rfl⟩ | ⟨d, -, hd⟩
  · rcases append_eq_append_cons hd with ⟨e, he, -⟩ | ⟨u, rfl, hu⟩
    · exact absurd he (ne_append_backslash (by decide) a e)
    · exact ⟨[], u, d, [], rfl, rfl, hu ▸ hbalanced⟩
  · exact absurd hd (ne_append_backslash (by decide) d b)

theorem ne_backslash_of_isNameChar {c : Char} (h : isNameChar c = true) : c ≠ '\\' := by
  rintro rfl
  exact absurd h (by decide)

/-- Backslashes in names stand inside brace groups. -/
theorem braced_baseName (cs : List Char) : Braced (baseName cs).front := by
  fun_induction baseName cs with
  | case1 => exact braced_of_not_mem List.not_mem_nil
  | case2 => exact braced_of_not_mem List.not_mem_nil
  | case3 c rest _ hc ih =>
    refine Braced.append (braced_of_not_mem ?_) ih
    exact fun hmem => ne_backslash_of_isNameChar hc (List.mem_singleton.1 hmem).symm
  | case4 rest g hg _ _ _ ih => exact (braced_braceGroup hg).append ih
  | case5 => exact braced_of_not_mem List.not_mem_nil
  | case6 => exact braced_of_not_mem List.not_mem_nil

theorem braced_of_mem_overrides (cs : List Char) {name : List Char} (h : name ∈ (overrides cs).1) :
    Braced name := by
  fun_induction overrides cs with
  | case1 => cases h
  | case2 c rest _ _ others ih =>
    rcases List.mem_cons.1 h with rfl | h
    · exact braced_baseName rest
    · exact ih h
  | case3 => cases h

theorem braced_flatMap {names : List (List Char)} (h : ∀ n ∈ names, Braced n) :
    Braced (names.flatMap (':' :: ·)) := by
  induction names with
  | nil => exact braced_of_not_mem List.not_mem_nil
  | cons n names ih =>
    obtain ⟨hn, hnames⟩ := List.forall_mem_cons.1 h
    have hcolon : Braced [':'] := braced_of_not_mem (by decide)
    exact (hcolon.append hn).append (ih hnames)

theorem braced_fullName (cs : List Char) : Braced (fullName cs).front :=
  (braced_baseName cs).append (braced_flatMap fun _ hn => braced_of_mem_overrides _ hn)

/-! ## Scanning -/

/-- A gap may be skipped, and each of its backslashes continues its line. -/
structure Spaces (rest g : List Char) : Prop where
  skips : Skips rest g
  of_backslash : ∀ a b, g = a ++ '\\' :: b → continues ('\\' :: (b ++ rest)) = true

/-- The pieces are scanned from the front of the first text, and the second text is what is left.
A token outside strings that has a backslash which continues its line, between `a` and `b`, is one that
`P` allows. -/
inductive Scans :
    (P : Kind → List Char → List Char → Prop) → List Piece → List Char → List Char → Prop where
  | nil {P : Kind → List Char → List Char → Prop} (cs : List Char) : Scans P [] cs cs
  | token {P : Kind → List Char → List Char → Prop} {k : Kind} {t : List Char} {ps : List Piece}
      {cs rest : List Char} :
    (∀ a b, t = a ++ '\\' :: b → continues ('\\' :: (b ++ cs)) = true → P k a b) →
    Scans P ps cs rest → Scans P (.token k t :: ps) (t ++ cs) rest
  | gap {P : Kind → List Char → List Char → Prop} {g : List Char} {ps : List Piece}
      {cs rest : List Char} :
    Spaces cs g → Scans P ps cs rest → Scans P (.gap g :: ps) (g ++ cs) rest
  | string {P : Kind → List Char → List Char → Prop} {inside ps : List Piece}
      {cs mid rest : List Char} :
    Scans (fun _ _ _ => True) inside cs mid → Scans P ps mid rest →
    Scans P (.group .string inside :: ps) cs rest
  | group {P : Kind → List Char → List Char → Prop} {k : Kind} {inside ps : List Piece}
      {cs mid rest : List Char} :
    Scans P inside cs mid → Scans P ps mid rest → Scans P (.group k inside :: ps) cs rest

namespace Scans

variable {P : Kind → List Char → List Char → Prop}

theorem append {ps qs : List Piece} {cs mid rest : List Char} (hp : Scans P ps cs mid)
    (hq : Scans P qs mid rest) : Scans P (ps ++ qs) cs rest := by
  induction hp with
  | nil => exact hq
  | token ht _ ih => exact .token ht (ih hq)
  | gap hs _ ih => exact .gap hs (ih hq)
  | string hi _ _ ih => exact .string hi (ih hq)
  | group hi _ _ ih => exact .group hi (ih hq)

theorem reads {ps : List Piece} {cs rest : List Char} (h : Scans P ps cs rest) : Reads ps cs rest := by
  induction h with
  | nil cs => exact .nil cs
  | token _ _ ih => exact .token ih
  | gap hs _ ih => exact .gap hs.skips ih
  | string _ _ ihi ih => exact .group ihi ih
  | group _ _ ihi ih => exact .group ihi ih

theorem exists_of_append {ps qs : List Piece} {cs rest : List Char} (h : Scans P (ps ++ qs) cs rest) :
    ∃ mid, Scans P ps cs mid ∧ Scans P qs mid rest := by
  induction ps generalizing cs with
  | nil => exact ⟨cs, .nil cs, h⟩
  | cons p ps ih =>
    cases h with
    | token ht h =>
      obtain ⟨mid, hp, hq⟩ := ih h
      exact ⟨mid, .token ht hp, hq⟩
    | gap hs h =>
      obtain ⟨mid, hp, hq⟩ := ih h
      exact ⟨mid, .gap hs hp, hq⟩
    | string hi h =>
      obtain ⟨mid, hp, hq⟩ := ih h
      exact ⟨mid, .string hi hp, hq⟩
    | group hi h =>
      obtain ⟨mid, hp, hq⟩ := ih h
      exact ⟨mid, .group hi hp, hq⟩

theorem single_token {k : Kind} {t rest : List Char}
    (h : ∀ a b, t = a ++ '\\' :: b → continues ('\\' :: (b ++ rest)) = true → P k a b) :
    Scans P [.token k t] (t ++ rest) rest :=
  .token h (.nil rest)

theorem plain_token (k : Kind) {t : List Char} (h : '\\' ∉ t) (rest : List Char) :
    Scans P [.token k t] (t ++ rest) rest :=
  single_token fun a b heq _ => absurd heq (ne_append_backslash h a b)

theorem plain_tokens (k : Kind) {t : List Char} (h : '\\' ∉ t) (rest : List Char) :
    Scans P (Piece.tokens k t) (t ++ rest) rest := by
  unfold Piece.tokens
  split
  · rename_i hnil
    rw [List.isEmpty_iff.1 hnil]
    exact .nil rest
  · exact plain_token k h rest

theorem mark {c : Char} (h : c ≠ '\\') (rest : List Char) : Scans P [Piece.mark c] (c :: rest) rest :=
  plain_token .punctuation (fun hmem => h (List.mem_singleton.1 hmem).symm) rest

theorem single_group {k : Kind} {ps : List Piece} {cs rest : List Char} (h : Scans P ps cs rest) :
    Scans P [.group k ps] cs rest :=
  .group h (.nil rest)

end Scans

/-! ## Spacing and words -/

/-- Every character that a scan passes begins a text that meets the test. -/
theorem of_scan_front {p : List Char → Bool} {cs a b : List Char} {c : Char}
    (h : (Cut.scan p cs).front = a ++ c :: b) : p (c :: (b ++ (Cut.scan p cs).rest)) = true := by
  induction cs generalizing a with
  | nil => simp [Cut.scan] at h
  | cons d cs ih =>
    rw [Cut.scan] at h ⊢
    split at h
    · rename_i hp
      rw [if_pos hp]
      cases a with
      | nil =>
        obtain ⟨rfl, rfl⟩ := List.cons_eq_cons.1 h
        show p (d :: ((Cut.scan p cs).front ++ (Cut.scan p cs).rest)) = true
        rwa [Cut.front_append_scan]
      | cons e a => exact ih (List.cons_eq_cons.1 h).2
    · simp at h

/-- `Cut.scan p` leaves a rest on which the test `p` fails, unless it leaves nothing. -/
theorem of_scan_rest {p : List Char → Bool} {cs : List Char} (h : (Cut.scan p cs).rest ≠ []) :
    p (Cut.scan p cs).rest = false := by
  induction cs with
  | nil => exact absurd rfl h
  | cons c cs ih =>
    rw [Cut.scan] at h ⊢
    split at h
    · rename_i hp
      rw [if_pos hp]
      exact ih h
    · rename_i hp
      rw [if_neg hp]
      simpa using hp

theorem spaces_spacing (cs : List Char) : Spaces (spacing cs).rest (spacing cs).front where
  skips := by
    have hskips : Skips ((spacing cs).rest ++ []) (spacing cs).front := skips_spacing cs rfl
    rwa [List.append_nil] at hskips
  of_backslash := by
    intro a b h
    have hstarts : startsSpacing ('\\' :: (b ++ (spacing cs).rest)) = true := of_scan_front h
    rwa [startsSpacing, List.head?_cons, Option.any_some, show isSpacingChar '\\' = false by decide,
      Bool.false_or] at hstarts

theorem spaces_of_all_isBlank {g : List Char} (rest : List Char) (h : g.all isBlank = true) :
    Spaces rest g where
  skips := skips_of_all_isBlank rest h
  of_backslash := by
    have hmem : '\\' ∉ g := fun hmem => absurd (List.all_eq_true.1 h _ hmem) (by decide)
    exact fun a b heq => absurd heq (ne_append_backslash hmem a b)

theorem Spaces.append {rest g h : List Char} (hg : Spaces (h ++ rest) g) (hh : Spaces rest h) :
    Spaces rest (g ++ h) where
  skips := skips_append.2 ⟨hg.skips, hh.skips⟩
  of_backslash := by
    intro a b heq
    rcases append_eq_append_cons heq with ⟨d, hd, rfl⟩ | ⟨d, rfl, hd⟩
    · rw [List.append_assoc]
      exact hg.of_backslash a d hd
    · exact hh.of_backslash d b hd

theorem scans_spacing {P : Kind → List Char → List Char → Prop} (cs : List Char) :
    Scans P [.gap (spacing cs).front] cs (spacing cs).rest := by
  have h := Scans.gap (P := P) (spaces_spacing cs) (.nil _)
  rwa [front_append_spacing] at h

theorem scans_last_spacing {P : Kind → List Char → List Char → Prop} {cs : List Char}
    (h : (spacing cs).rest = []) : Scans P [.gap (spacing cs).front] cs [] := by
  have hspacing : Scans P [.gap (spacing cs).front] cs (spacing cs).rest := scans_spacing cs
  rwa [h] at hspacing

/-- No word has a backslash that continues its line. -/
theorem scans_word {P : Kind → List Char → List Char → Prop} (k : Kind) (cs : List Char) :
    Scans P [.token k (word cs).front] cs (word cs).rest := by
  have h : Scans P [.token k (word cs).front] ((word cs).front ++ (word cs).rest) (word cs).rest := by
    refine Scans.single_token fun a b heq hcontinues => ?_
    have hstarts : startsWord ('\\' :: (b ++ (word cs).rest)) = true := of_scan_front heq
    rw [startsWord, hcontinues, Bool.or_true] at hstarts
    cases hstarts
  rwa [front_append_word] at h

theorem scans_words {P : Kind → List Char → List Char → Prop} (kindOf : SpacedWord → Kind)
    (cs : List Char) : ∃ rest, (words cs).last = spacing rest ∧
      Scans P ((words cs).words.flatMap fun w => w.pieces (kindOf w)) cs rest := by
  fun_induction words cs with
  | case1 cs => exact ⟨cs, rfl, .nil cs⟩
  | case2 cs gap next h _ others ih =>
    obtain ⟨rest, hlast, hwords⟩ := ih
    refine ⟨rest, hlast, ?_⟩
    exact ((scans_spacing cs).append (scans_word (kindOf ⟨gap.front, next.front⟩) gap.rest)).append hwords

theorem scans_taskPieces {P : Kind → List Char → List Char → Prop} (cs : List Char) :
    ∃ rest, (words cs).last = spacing rest ∧ Scans P (taskPieces (words cs).words) cs rest := by
  rw [words]
  dsimp only
  split
  · exact ⟨cs, rfl, .nil cs⟩
  · obtain ⟨rest, hlast, hwords⟩ := scans_words (P := P) clauseKind (word (spacing cs).rest).rest
    exact ⟨rest, hlast, ((scans_spacing cs).append (scans_word .identifier _)).append hwords⟩

/-! ## Names, flags and values -/

/-- Which tokens of a statement of the kind `top` may have a backslash that continues its line, between
the texts `a` and `b`. -/
inductive Keeps (top : Kind) : Kind → List Char → List Char → Prop where
  /-- A name, inside a brace group. -/
  | name {a b : List Char} : InGroup a b → Keeps top .identifier a b
  /-- An error that begins before the backslash, or that is the whole statement. -/
  | error {a b : List Char} : a ≠ [] ∨ top = .error → Keeps top .error a b
  /-- The path of a directive that takes all that follows. -/
  | path {a b : List Char} : top ∈ [.includeDirective, .requireDirective] → Keeps top .path a b

section Parts

variable {top : Kind}

theorem scans_name {t : List Char} (h : Braced t) (rest : List Char) :
    Scans (Keeps top) [.token .identifier t] (t ++ rest) rest :=
  Scans.single_token fun a b heq _ => .name (h a b heq)

theorem scans_overridePieces {names : List (List Char)} (h : ∀ n ∈ names, Braced n) (rest : List Char) :
    Scans (Keeps top) (names.map overridePiece) (names.flatMap (':' :: ·) ++ rest) rest := by
  induction names with
  | nil => exact .nil rest
  | cons n names ih =>
    obtain ⟨hn, hnames⟩ := List.forall_mem_cons.1 h
    rw [List.flatMap_cons, List.append_assoc]
    refine .group ?_ (ih hnames)
    exact (Scans.mark (by decide) _).append (scans_name hn _)

theorem scans_flag? {cs : List Char} {flag : Parts} (h : flag? cs = some flag) :
    Scans (Keeps top) flag.pieces cs flag.rest := by
  unfold flag? at h
  split at h
  · rename_i cs
    dsimp only at h
    split at h
    · rename_i rest hr
      cases h
      have hcs : cs = (Cut.span isFlagChar cs).front ++ ']' :: rest := by
        rw [← hr, front_append_span]
      have hname : '\\' ∉ (Cut.span isFlagChar cs).front := fun hmem =>
        absurd (List.all_eq_true.1 List.all_takeWhile _ hmem) (by decide)
      have ht := Scans.plain_tokens (P := Keeps top) .identifier hname (']' :: rest)
      rw [← hcs] at ht
      refine Scans.single_group ?_
      exact ((Scans.mark (by decide) _).append ht).append (Scans.mark (by decide) _)
    · cases h
  · cases h

theorem scans_optionalFlag {cs : List Char} {flag : Parts} (h : optionalFlag cs = some flag) :
    Scans (Keeps top) flag.pieces cs flag.rest := by
  unfold optionalFlag at h
  split at h
  · exact scans_flag? h
  · cases h
    exact .nil _

theorem scans_target? {cs : List Char} {target : Parts} (h : target? cs = some target) :
    Scans (Keeps top) target.pieces cs target.rest := by
  unfold target? at h
  dsimp only at h
  split at h
  · cases h
  · obtain ⟨flag, hf, rfl⟩ := Option.map_eq_some_iff.1 h
    have hnames : ∀ n ∈ (overrides (baseName cs).rest).1, Braced n := fun n hn =>
      braced_of_mem_overrides _ hn
    have hn : Scans (Keeps top) _ _ _ := scans_name (braced_baseName cs) (baseName cs).rest
    have ho : Scans (Keeps top) _ _ _ := scans_overridePieces hnames (overrides (baseName cs).rest).2
    rw [front_append_baseName] at hn
    rw [append_overrides] at ho
    exact (hn.append ho).append (scans_optionalFlag hf)

theorem scans_fullName (cs : List Char) :
    Scans (Keeps top) [.token .identifier (fullName cs).front] cs (fullName cs).rest := by
  have h : Scans (Keeps top) _ _ _ := scans_name (braced_fullName cs) (fullName cs).rest
  rwa [front_append_fullName] at h

/-- An error that stands where spacing ends begins before every backslash that continues its line. -/
theorem scans_error {cs : List Char} (h : startsSpacing cs = false) :
    Scans (Keeps top) [.token .error cs] cs [] := by
  have herror : Scans (Keeps top) [.token .error cs] (cs ++ []) [] := by
    refine Scans.single_token fun a b heq hcontinues => .error (.inl ?_)
    rintro rfl
    rw [heq, List.nil_append, startsSpacing, Bool.or_eq_false_iff] at h
    rw [List.append_nil, h.2] at hcontinues
    cases hcontinues
  rwa [List.append_nil] at herror

end Parts

mutual

/-- Whether a piece has no gaps. -/
def gapless : Piece → Bool
  | .token _ _ => true
  | .gap _ => false
  | .group _ ps => gaplessAll ps

/-- Whether pieces have no gaps. -/
def gaplessAll : List Piece → Bool
  | [] => true
  | p :: ps => gapless p && gaplessAll ps

end

theorem gaplessAll_append (ps qs : List Piece) :
    gaplessAll (ps ++ qs) = (gaplessAll ps && gaplessAll qs) := by
  induction ps with
  | nil => rfl
  | cons p ps ih => rw [List.cons_append, gaplessAll, gaplessAll, ih, Bool.and_assoc]

theorem gaplessAll_tokens (k : Kind) (cs : List Char) : gaplessAll (Piece.tokens k cs) = true := by
  unfold Piece.tokens
  split <;> rfl

theorem Reads.scans {ps : List Piece} {cs rest : List Char} (h : Reads ps cs rest)
    (hg : gaplessAll ps = true) : Scans (fun _ _ _ => True) ps cs rest := by
  induction h with
  | nil cs => exact .nil cs
  | token _ ih => exact .token (fun _ _ _ _ => trivial) (ih hg)
  | gap _ _ _ => cases hg
  | group _ _ ihi ih =>
    rw [gaplessAll, gapless, Bool.and_eq_true] at hg
    exact .group (ihi hg.1) (ih hg.2)

theorem gapless_segment (s : Segment) : gapless s.piece = true := by
  cases s with
  | plain cs => rfl
  | expansion inside =>
    show gapless (expansionPiece inside) = true
    unfold expansionPiece
    split
    · rw [gapless, gaplessAll_append, gaplessAll, gaplessAll_tokens]
      rfl
    · rw [gapless, gaplessAll_append, gaplessAll, gaplessAll_tokens]
      rfl

/-- A quoted value is all in one string. -/
theorem scans_valuePiece {P : Kind → List Char → List Char → Prop} {quote : Char} {cs : List Char}
    {v : Value} (h : Value.read? quote cs = some v) : Scans P [v.piece quote] (quote :: cs) v.rest := by
  have hread := reads_valuePiece h []
  rw [List.append_nil, List.append_nil] at hread
  cases hread with
  | group hinside hrest =>
    cases hrest
    have hsegments : gaplessAll (v.segments.map Segment.piece) = true := by
      induction v.segments with
      | nil => rfl
      | cons s ss ih => rw [List.map_cons, gaplessAll, gapless_segment, ih, Bool.and_true]
    refine .string (hinside.scans ?_) (.nil _)
    rw [gaplessAll_append, gaplessAll, hsegments]
    rfl

/-! ## Statements -/

section Statements

variable {top : Kind}

theorem scans_gap {cs : List Char} (h : Spaces [] cs) : Scans (Keeps top) [.gap cs] cs [] := by
  have hgap := Scans.gap (P := Keeps top) h (.nil [])
  rwa [List.append_nil] at hgap

/-- A statement is closed after the spacing that follows its parts. -/
theorem scans_close {kind : Kind} {parts : List Piece} {cs rest : List Char}
    (h : Scans (Keeps top) parts cs rest) :
    Scans (Keeps top) [(Statement.close kind parts (spacing rest)).piece,
      .gap (Statement.close kind parts (spacing rest)).after] cs [] := by
  unfold Statement.close
  split
  · rename_i he
    exact .group h (scans_last_spacing (List.isEmpty_iff.1 he))
  · rename_i he
    have hstops : startsSpacing (spacing rest).rest = false :=
      of_scan_rest fun hnil => he (List.isEmpty_iff.2 hnil)
    have herror : Scans (Keeps top) _ _ _ := (scans_spacing rest).append (scans_error hstops)
    exact .group (h.append herror) (scans_gap (spaces_of_all_isBlank [] rfl))

theorem not_mem_of_operator? {cs : List Char} {op : Cut} (h : operator? cs = some op) :
    '\\' ∉ op.front := by
  have hoperators : ∀ s ∈ operators, '\\' ∉ s.toList := by decide
  obtain ⟨s, hs, hop⟩ := List.exists_of_findSome?_eq_some h
  obtain ⟨rest, -, rfl⟩ := Option.map_eq_some_iff.1 hop
  exact hoperators s hs

theorem scans_assigned {before : List Piece} {cs : List Char} {op : Cut} (hop : '\\' ∉ op.front)
    (h : Scans (Keeps top) before cs (op.front ++ op.rest)) :
    Scans (Keeps top) [(assigned before op).piece, .gap (assigned before op).after] cs [] := by
  -- The pieces up to the value, and what is left after the spacing before it.
  have hfront : Scans (Keeps top) (before ++ [.token .operator op.front, .gap (spacing op.rest).front]) cs
      (spacing op.rest).rest :=
    h.append ((Scans.plain_token .operator hop op.rest).append (scans_spacing op.rest))
  unfold assigned
  dsimp only
  split
  · rename_i hg
    exact .group (h.append (Scans.plain_token .error hop op.rest)) (scans_last_spacing hg)
  · rename_i c rest hg
    rw [hg] at hfront
    split
    · rename_i v hv
      have hvalue : Value.read? c rest = some v := by
        split at hv
        · exact hv
        · cases hv
      exact scans_close (hfront.append (scans_valuePiece hvalue))
    · have hstops : startsSpacing (spacing op.rest).rest = false :=
        of_scan_rest (by rw [← spacing, hg]; exact List.cons_ne_nil _ _)
      rw [hg] at hstops
      exact .group (hfront.append (scans_error hstops)) (scans_gap (spaces_of_all_isBlank [] rfl))

theorem scans_assignment? {cs : List Char} {s : Statement} (h : assignment? cs = some s) :
    Scans (Keeps top) [s.piece, .gap s.after] cs [] := by
  obtain ⟨target, ht, h⟩ := Option.bind_eq_some_iff.1 h
  obtain ⟨op, ho, rfl⟩ := Option.map_eq_some_iff.1 h
  refine scans_assigned (not_mem_of_operator? ho) ?_
  rw [← eq_append_of_operator? ho]
  exact (scans_target? ht).append (scans_spacing target.rest)

end Statements

/-- The statement is scanned from the logical line `cs`, up to the end of the line. -/
def Wraps (s : Statement) (cs : List Char) : Prop :=
  ∃ top, s.piece.kind? = some top ∧ Scans (Keeps top) [s.piece, .gap s.after] cs []

theorem wraps_refused (cs : List Char) : Wraps (.refused cs) cs := by
  refine ⟨.error, rfl, ?_⟩
  have herror : Scans (Keeps .error) [.token .error cs] (cs ++ []) [] :=
    Scans.single_token fun _ _ _ _ => .error (.inr rfl)
  rw [List.append_nil] at herror
  exact herror.append (scans_gap (spaces_of_all_isBlank [] rfl))

theorem wraps_close {kind : Kind} {parts : List Piece} {cs rest : List Char}
    (h : Scans (Keeps kind) parts cs rest) : Wraps (.close kind parts (spacing rest)) cs := by
  refine ⟨kind, ?_, scans_close h⟩
  unfold Statement.close
  split <;> rfl

theorem wraps_readAssignment (cs : List Char) : Wraps (.readAssignment cs) cs := by
  unfold Statement.readAssignment
  cases h : assignment? cs with
  | none => exact wraps_refused cs
  | some s => exact ⟨.variableAssignment, kind?_assignment? h, scans_assignment? h⟩

section Keywords

variable {top : Kind} {w : String} {cs rest : List Char}

/-- A keyword at the front of `cs` is scanned as its token and the gap of the spacing after it, with
tokens that `Keeps` allows. -/
theorem scans_keyword (hw : '\\' ∉ w.toList) (h : keyword? w cs = some rest) :
    Scans (Keeps top) [.token .keyword w.toList, .gap (spacing rest).front] cs (spacing rest).rest := by
  rw [eq_append_of_keyword? h]
  exact (Scans.plain_token .keyword hw rest).append (scans_spacing rest)

theorem wraps_readExport (h : keyword? "export" cs = some rest) : Wraps (.readExport cs rest) cs := by
  have hkeyword : Scans (Keeps .exportStatement) _ _ _ := scans_keyword (by decide) h
  unfold Statement.readExport
  dsimp only
  split
  · exact wraps_refused cs
  split
  · split
    · rename_i s hs
      have hscans : Scans (Keeps .exportStatement) ([s.piece] ++ [.gap s.after]) _ [] :=
        scans_assignment? hs
      obtain ⟨mid, hpiece, hgap⟩ := hscans.exists_of_append
      exact ⟨.exportStatement, rfl, .group (hkeyword.append hpiece) hgap⟩
    · exact wraps_refused cs
  split
  · rename_i he
    -- What follows the name is all spacing.
    have hgap : Scans (Keeps .exportStatement) _ _ _ := scans_last_spacing (List.isEmpty_iff.1 he)
    exact ⟨.exportStatement, rfl, .group (hkeyword.append (scans_fullName _)) hgap⟩
  · exact wraps_refused cs

/-! ## Directives -/

variable {d : Directive}

theorem wraps_ofWords {pieces : List Piece} {tail : List Char} (hw : '\\' ∉ d.word.toList)
    (h : keyword? d.word cs = some rest) (hlast : (words rest).last = spacing tail)
    (hpieces : Scans (Keeps d.kind) pieces rest tail) : Wraps (d.ofWords cs (words rest) pieces) cs := by
  unfold Directive.ofWords
  split
  · exact wraps_refused cs
  · rw [hlast]
    refine wraps_close ?_
    rw [eq_append_of_keyword? h]
    exact (Scans.plain_token .keyword hw rest).append hpieces

theorem wraps_readPath (hw : '\\' ∉ d.word.toList)
    (hkind : d.kind ∈ [.includeDirective, .requireDirective]) (h : keyword? d.word cs = some rest) :
    Wraps (d.readPath cs rest) cs := by
  unfold Directive.readPath
  dsimp only
  split
  · exact wraps_refused cs
  · have hsplit := Text.splitTrim_append (spacing rest).rest
    have hbefore := Text.all_before (spacing rest).rest
    have hafter := Text.all_after (spacing rest).rest
    have hspacing := spaces_spacing rest
    have hrest := front_append_spacing rest
    rw [← hsplit] at hspacing hrest
    generalize Text.splitTrim (spacing rest).rest = t at hbefore hafter hspacing hrest ⊢
    have hgap : Spaces (t.core ++ t.after) ((spacing rest).front ++ t.before) :=
      hspacing.append (spaces_of_all_isBlank _ hbefore)
    have hpath : Scans (Keeps d.kind) [.token .path t.core] (t.core ++ t.after) t.after :=
      Scans.single_token fun _ _ _ _ => .path hkind
    have hscans := (Scans.plain_token .keyword hw _).append (.gap hgap hpath)
    rw [List.append_assoc, hrest, ← eq_append_of_keyword? h] at hscans
    exact ⟨d.kind, rfl, .group hscans (scans_gap (spaces_of_all_isBlank [] hafter))⟩

theorem wraps_readVariableFlag (hw : '\\' ∉ d.word.toList) (h : keyword? d.word cs = some rest) :
    Wraps (d.readVariableFlag cs rest) cs := by
  unfold Directive.readVariableFlag
  dsimp only
  split
  · exact wraps_refused cs
  split
  · rename_i flag hf
    refine wraps_close ?_
    exact ((scans_keyword hw h).append (scans_fullName _)).append (scans_optionalFlag hf)
  · exact wraps_refused cs

theorem wraps_directive (hd : d ∈ Directive.exportFunctions :: Directive.table)
    (h : keyword? d.word cs = some rest) : Wraps (d.read cs rest) cs := by
  have hwords : ∀ d ∈ Directive.exportFunctions :: Directive.table, '\\' ∉ d.word.toList := by decide
  have hpaths : ∀ d ∈ Directive.exportFunctions :: Directive.table, d.arguments = .path →
      d.kind ∈ [.includeDirective, .requireDirective] := by decide
  have hw := hwords d hd
  unfold Directive.read
  split
  · rename_i hpath
    exact wraps_readPath hw (hpaths d hd hpath) h
  · exact wraps_readVariableFlag hw h
  · obtain ⟨tail, hlast, hscans⟩ := scans_words (P := Keeps d.kind) (fun _ => .path) rest
    exact wraps_ofWords hw h hlast hscans
  · obtain ⟨tail, hlast, hscans⟩ := scans_words (P := Keeps d.kind) (fun _ => .identifier) rest
    exact wraps_ofWords hw h hlast hscans
  · obtain ⟨tail, hlast, hscans⟩ := scans_taskPieces (P := Keeps d.kind) rest
    exact wraps_ofWords hw h hlast hscans

end Keywords

/-- Every logical line is scanned as a statement. -/
theorem wraps_read (cs : List Char) : Wraps (.read cs) cs := by
  unfold Statement.read
  split
  · rename_i h
    exact wraps_readExport h
  split
  · rename_i h
    exact wraps_directive List.mem_cons_self h
  split
  · rename_i d rest h
    split
    · exact wraps_readAssignment cs
    · obtain ⟨e, he, hfind⟩ := List.exists_of_findSome?_eq_some h
      obtain ⟨r, -, heq⟩ := Option.map_eq_some_iff.1 hfind
      cases heq
      exact wraps_directive (List.mem_cons_of_mem _ he) (keyword?_of_find? h)
  · exact wraps_readAssignment cs

end Recipe.Grammar
