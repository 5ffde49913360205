import Recipe.Proofs.Scanner.Assignment

/-!
# Header lines by offsets

The header of a task is read in a loop over its keywords, then part by part up to its brace, which must
end the line. The header of a python definition is read from both ends: its keyword and name from the
front, its colon from the back, and the parameters are what is left. On a line without blanks around it
both give what the grammar reads there (`taskHeader?_between`, `definitionHeader?_between`).
-/

namespace Recipe

open Text (bytes isAscii)

namespace Scanner

open Checked (Round loop)
open Piece (nodesAfter nodesAfter_nil nodesAfter_gap nodesAfter_cons_token nodesAfter_append textAll)
open Grammar (Cut)

variable (s : Scanner)

/-! ## Tasks -/

/-- The header of a task: whether it is written in python, the nodes before its brace, and the brace. -/
structure TaskHeader where
  python : Bool
  children : List Node
  brace : Span

/-- Where the reading of the keywords of a task stands. -/
structure InKeywords where
  scanner : Scanner
  children : List Node
  python : Bool

/-- Moves over the blanks of a header line. -/
def skipBlanks : Checked Scanner :=
  s.skipClass Grammar.isInlineBlank

/-- Reads a keyword of a task after the blanks before it. -/
def keywordRound (st : InKeywords) : Checked (Round InKeywords InKeywords) := do
  let s ← st.scanner.skipBlanks
  match ← s.eatKeyword? "python" with
  | some next => .ok (.again ⟨next, st.children ++ [s.token .keyword next], true⟩)
  | none =>
    match ← s.eatKeyword? "fakeroot" with
    | some next => .ok (.again ⟨next, st.children ++ [s.token .keyword next], st.python⟩)
    | none => .ok (.done ⟨s, st.children, st.python⟩)

/-- Reads a given character, and the blanks after it. -/
def mark? (literal : String) : Checked (Option (Node × Scanner)) := do
  match ← s.eat? literal with
  | none => .ok none
  | some s₁ =>
    let s₂ ← s₁.skipBlanks
    .ok (some (s.token .punctuation s₁, s₂))

/-- Reads the brace of a task, which ends the window. -/
def brace? : Checked (Option Span) := do
  match ← s.eat? "\x7b" with
  | none => .ok none
  | some s₁ =>
    let s₂ ← s₁.skipBlanks
    .ok (if s₂.atEnd then some ⟨s.pos, s₁.pos⟩ else none)

/-- Reads the header of a task after its keywords. -/
def afterKeywords (st : InKeywords) : Checked (Option TaskHeader) := do
  let s₁ ← st.scanner.skipClass Grammar.isTaskNameChar
  if st.scanner.pos < s₁.pos || st.python then
    let s₂ ← s₁.skipBlanks
    match ← s₂.mark? "(" with
    | none => .ok none
    | some (opening, s₃) =>
      match ← s₃.mark? ")" with
      | none => .ok none
      | some (closing, s₄) =>
        let brace ← s₄.brace?
        .ok (brace.map fun span =>
          ⟨st.python, st.children ++ st.scanner.tokens .identifier s₁ ++ [opening, closing], span⟩)
  else .ok none

/-- Reads the header of a task from a whole line. -/
def taskHeader? : Checked (Option TaskHeader) := do
  let st ← loop (·.scanner.left) keywordRound ⟨s, [], false⟩
  afterKeywords st

variable {base seen rest post cs : List Char}

theorem skipBlanks_between :
    (between base seen rest post).skipBlanks
      = .ok (between base (seen ++ (Grammar.inlineBlanks rest).front)
          (Grammar.inlineBlanks rest).rest post) :=
  skipClass_between Grammar.asciiClass_isInlineBlank

theorem taskKeyword?_eq (cs : List Char) : Grammar.taskKeyword? cs
    = (((Grammar.keyword? "python" cs).map fun rest => ("python", rest)).or
        ((Grammar.keyword? "fakeroot" cs).map fun rest => ("fakeroot", rest))) := by
  rw [Grammar.taskKeyword?, List.findSome?_cons, List.findSome?_cons, List.findSome?_nil]
  cases Grammar.keyword? "python" cs <;> cases Grammar.keyword? "fakeroot" cs <;> rfl

theorem keywordRound_between {children : List Node} {python : Bool} :
    keywordRound ⟨between base seen rest post, children, python⟩
      = .ok (let gap := Grammar.inlineBlanks rest
          match Grammar.taskKeyword? gap.rest with
          | some (w, rest) => .again ⟨between base (seen ++ gap.front ++ w.toList) rest post,
              children ++ [(Piece.token .keyword w.toList).node (base ++ (seen ++ gap.front))],
              w == "python" || python⟩
          | none => .done ⟨between base (seen ++ gap.front) gap.rest post, children, python⟩) := by
  dsimp only
  rw [keywordRound, skipBlanks_between, Checked.ok_bind, eatKeyword?_between (by decide), Checked.ok_bind,
    taskKeyword?_eq]
  cases hp : Grammar.keyword? "python" (Grammar.inlineBlanks rest).rest with
  | some after =>
    simp only [Option.map_some, token_between (Grammar.eq_append_of_keyword? hp)]
    rfl
  | none =>
    simp only [Option.map_none, eatKeyword?_between (show "fakeroot".toList.all isAscii = true by decide),
      Checked.ok_bind]
    cases hf : Grammar.keyword? "fakeroot" (Grammar.inlineBlanks rest).rest with
    | some after =>
      simp only [Option.map_some, token_between (Grammar.eq_append_of_keyword? hf)]
      rfl
    | none => rfl

theorem loop_keywordRound {children : List Node} {python : Bool} (h : (Grammar.inlineBlanks rest).rest = cs) :
    loop (·.scanner.left) keywordRound ⟨between base seen rest post, children, python⟩
      = .ok (let pre := seen ++ (Grammar.inlineBlanks rest).front
          let ws := Grammar.taskWords cs
          ⟨between base (pre ++ textAll ws.pieces) ws.rest post,
            children ++ nodesAfter (base ++ pre) ws.pieces, ws.python || python⟩) := by
  fun_induction Grammar.taskWords cs generalizing seen rest children python with
  | case1 cs w after hw hlt ih =>
    have hround := @keywordRound_between base seen rest post children python
    have hrest : rest = (Grammar.inlineBlanks rest).front ++ w.toList ++ after := by
      rw [List.append_assoc, ← Grammar.eq_append_of_taskKeyword? hw, ← h]
      exact (Grammar.front_append_span _ rest).symm
    have hne : (Grammar.inlineBlanks rest).front ++ w.toList ≠ [] := by
      intro he
      have hlen := Grammar.length_taskKeyword?_rest hw
      rw [Grammar.eq_append_of_taskKeyword? hw, (List.append_eq_nil_iff.1 he).2] at hlen
      exact Nat.lt_irrefl _ hlen
    simp only [h, hw] at hround
    refine (Checked.loop_again hround ?_).trans ((ih rfl).trans ?_)
    · conv => rhs; dsimp only; rw [hrest]
      exact left_between_lt _ hne
    · simp [Grammar.TaskWords.push, nodesAfter_cons_token, nodesAfter_gap, textAll, Piece.text, Bool.or_assoc,
        Bool.or_left_comm]
  | case2 cs hw =>
    refine Checked.loop_done ?_
    rw [keywordRound_between]
    simp [h, hw, nodesAfter_nil, textAll]

theorem mark?_between {literal : String} {c : Char} (hl : literal.toList = [c]) (hc : isAscii c = true) :
    (between base seen rest post).mark? literal
      = .ok ((Grammar.mark? c rest).map fun m =>
          ((Piece.mark c).node (base ++ seen), between base (seen ++ textAll m.pieces) m.rest post)) := by
  rw [mark?, eat?_between (by rw [hl, List.all_cons, hc]; rfl), Checked.ok_bind]
  cases rest with
  | nil => rw [literal?_nil c hl]; rfl
  | cons d cs =>
    rw [literal?_cons c hl, Grammar.mark?]
    by_cases hd : c = d
    · subst hd
      simp only [if_true, Option.map_some, skipBlanks_between, hl, Checked.ok_bind]
      rw [token_between (show c :: cs = [c] ++ cs from rfl)]
      simp [textAll, Piece.text, Piece.mark]
    · rw [if_neg hd, if_neg hd]
      rfl

theorem nodesAfter_mark? {c : Char} {m : Grammar.Parts} (h : Grammar.mark? c cs = some m) (pre : List Char) :
    nodesAfter pre m.pieces = [(Piece.mark c).node pre] := by
  rw [Grammar.mark?.eq_def] at h
  split at h
  · split at h
    · cases h
      simp [Piece.mark, nodesAfter_cons_token, nodesAfter_gap, nodesAfter_nil]
    · cases h
  · cases h

/-- Blanks that end a text do not reach its beginning if its last character is none. -/
theorem rest_inlineBlanks_eq_nil {cs : List Char} (h : ∀ c, cs.getLast? = some c → Text.isBlank c = false) :
    (Grammar.inlineBlanks cs).rest = [] ↔ cs = [] := by
  refine ⟨fun hr => ?_, fun hcs => by rw [hcs]; rfl⟩
  have hcs := Grammar.front_append_span Grammar.isInlineBlank cs
  have hall : (Grammar.inlineBlanks cs).front.all Grammar.isInlineBlank = true := List.all_takeWhile
  rw [← Grammar.inlineBlanks, hr, List.append_nil] at hcs
  rw [hcs] at hall
  cases hlast : cs.getLast? with
  | none => exact List.getLast?_eq_none_iff.1 hlast
  | some c =>
    have hblank := Grammar.isBlank_of_isInlineBlank (List.all_eq_true.1 hall c (List.mem_of_getLast? hlast))
    rw [h c hlast] at hblank
    cases hblank

/-- The brace of a task ends a line that has no blanks at its end. -/
theorem brace?_between (h : ∀ c, rest.getLast? = some c → Text.isBlank c = false) :
    (between base seen rest post).brace?
      = .ok (if rest = ['{'] then some ⟨bytes base + bytes seen, bytes base + bytes seen + 1⟩ else none) := by
  rw [brace?, eat?_between (by decide), Checked.ok_bind]
  cases rest with
  | nil => rw [literal?_nil '{' rfl]; rfl
  | cons d cs =>
    rw [literal?_cons '{' rfl]
    by_cases hd : '{' = d
    · subst hd
      have hcs : ∀ c, cs.getLast? = some c → Text.isBlank c = false := by
        intro c hc
        exact h c (by rw [List.getLast?_cons, hc]; rfl)
      simp only [if_true, Option.map_some, skipBlanks_between, Checked.ok_bind, atEnd_between, pos_between,
        List.isEmpty_iff, rest_inlineBlanks_eq_nil hcs, List.cons.injEq, true_and]
      rw [Text.bytes_append, ← Nat.add_assoc]
      rfl
    · rw [if_neg hd, if_neg fun he => hd (List.cons.inj he).1.symm]
      rfl

/-- A line without blanks around it. -/
def Solid (cs : List Char) : Prop :=
  (∀ c, cs.head? = some c → Text.isBlank c = false) ∧ ∀ c, cs.getLast? = some c → Text.isBlank c = false

theorem afterKeywords_between {children : List Node} {python : Bool}
    (h : ∀ c, rest.getLast? = some c → Text.isBlank c = false) :
    afterKeywords ⟨between base seen rest post, children, python⟩ = .ok (
      let name := Cut.span Grammar.isTaskNameChar rest
      if name.front.isEmpty && !python then none
      else
        let gap := Grammar.inlineBlanks name.rest
        (Grammar.mark? '(' gap.rest).bind fun opening =>
          (Grammar.mark? ')' opening.rest).bind fun closing =>
            if closing.rest = ['{'] then
              let ps := Piece.tokens .identifier name.front ++ [.gap gap.front] ++ opening.pieces
                ++ closing.pieces
              some ⟨python, children ++ nodesAfter (base ++ seen) ps,
                ⟨bytes base + bytes (seen ++ textAll ps), bytes base + bytes (seen ++ textAll ps) + 1⟩⟩
            else none) := by
  have hname := Grammar.front_append_span Grammar.isTaskNameChar rest
  have hcond : (decide ((between base seen rest post).pos
      < (between base (seen ++ (Cut.span Grammar.isTaskNameChar rest).front)
          (Cut.span Grammar.isTaskNameChar rest).rest post).pos) || python)
        = !((Cut.span Grammar.isTaskNameChar rest).front.isEmpty && !python) := by
    by_cases hf : (Cut.span Grammar.isTaskNameChar rest).front = []
    · rw [decide_eq_false (mt pos_lt_between.1 (not_not_intro hf)), hf]
      cases python <;> rfl
    · rw [decide_eq_true (pos_lt_between.2 hf), List.isEmpty_eq_false_iff.2 hf]
      rfl
  rw [afterKeywords]
  dsimp only
  rw [skipClass_between Grammar.asciiClass_isTaskNameChar, Checked.ok_bind, hcond]
  cases (Cut.span Grammar.isTaskNameChar rest).front.isEmpty && !python with
  | true => rfl
  | false =>
    simp only [Bool.not_false, if_true, skipBlanks_between, Checked.ok_bind,
      mark?_between (show "(".toList = ['('] from rfl) (by decide)]
    cases hopen : Grammar.mark? '('
        (Grammar.inlineBlanks (Cut.span Grammar.isTaskNameChar rest).rest).rest with
    | none => rfl
    | some opening =>
      simp only [Option.map_some, Option.bind_some, Checked.ok_bind,
        mark?_between (show ")".toList = [')'] from rfl) (by decide)]
      cases hclose : Grammar.mark? ')' opening.rest with
      | none => rfl
      | some closing =>
        have hlast : ∀ c, closing.rest.getLast? = some c → Text.isBlank c = false := by
          have hread := ((Grammar.Reads.inlineBlanks (Cut.span Grammar.isTaskNameChar rest).rest []).append
            ((Grammar.reads_mark? hopen []).append (Grammar.reads_mark? hclose []))).eq_append
          rw [List.append_nil, List.append_nil] at hread
          intro c hc
          refine h c ?_
          rw [← hname, hread, ← List.append_assoc, List.getLast?_append, hc]
          rfl
        simp only [Option.map_some, Option.bind_some, Checked.ok_bind, brace?_between hlast]
        split
        · simp [tokens_between hname.symm, nodesAfter_append, nodesAfter_gap, textAll_tokens,
            nodesAfter_mark? hopen, nodesAfter_mark? hclose, textAll, Piece.text, Piece.textAll_append]
        · rfl

/-- The header that the grammar reads after `base`, by offsets. -/
def TaskHeader.after (base : List Char) (t : Grammar.TaskHeader) : TaskHeader where
  python := t.python
  children := nodesAfter base t.front
  brace := ⟨bytes base + bytes (textAll t.front), bytes base + bytes (textAll t.front) + 1⟩

theorem taskHeader?_between (h : Solid cs) :
    (between base [] cs post).taskHeader?
      = .ok ((Grammar.TaskHeader.read? cs).map (TaskHeader.after base)) := by
  have hblanks : Grammar.inlineBlanks cs = ⟨[], cs⟩ := by
    cases cs with
    | nil => rfl
    | cons c cs =>
      have hc : Grammar.isInlineBlank c = false := by
        rw [Bool.eq_false_iff]
        intro hb
        exact Bool.eq_false_iff.1 (h.1 c rfl) (Grammar.isBlank_of_isInlineBlank hb)
      simp [Grammar.inlineBlanks, Cut.span, hc]
  have hlast : ∀ c, (Grammar.taskWords cs).rest.getLast? = some c → Text.isBlank c = false := by
    have hread := (Grammar.reads_taskWords cs []).eq_append
    rw [List.append_nil, List.append_nil] at hread
    intro c hc
    refine h.2 c ?_
    rw [hread, List.getLast?_append, hc]
    rfl
  have hloop := @loop_keywordRound base [] cs post cs [] false (by rw [hblanks])
  simp only [hblanks, List.append_nil, List.nil_append, Bool.or_false] at hloop
  rw [taskHeader?, hloop, Checked.ok_bind, afterKeywords_between hlast, Grammar.TaskHeader.read?]
  dsimp only
  split
  · rfl
  · generalize Grammar.inlineBlanks (Cut.span Grammar.isTaskNameChar (Grammar.taskWords cs).rest).rest = gap
    cases Grammar.mark? '(' gap.rest with
    | none => rfl
    | some opening =>
      simp only [Option.bind_some]
      cases Grammar.mark? ')' opening.rest with
      | none => rfl
      | some closing =>
        simp only [Option.bind_some]
        split
        · simp [TaskHeader.after, nodesAfter_append, Piece.textAll_append]
        · rfl

/-! ## Definitions -/

/-- Reads the parameters of a python definition up to its colon, which is the last byte of the window, given
the scanner before the name and the nodes before that. -/
def parametersTo? (last : Nat) (before : Scanner) (children : List Node) : Checked (Option (List Node)) := do
  match ← Span.trim? s.text ⟨s.pos, last⟩ with
  | none => .ok none
  | some span =>
    .ok (if (Text.utf8 s.text)[span.start]? == some '('.toUInt8 then
        some (children ++ [before.token .identifier s, .leafOf s.text .pythonContent span,
          .leafOf s.text .punctuation ⟨last, s.stop⟩])
      else none)

/-- Reads the colon of a python definition at the end of the window, and the parameters before it. -/
def parameters? (before : Scanner) (children : List Node) : Checked (Option (List Node)) := do
  let last ← Checked.sub s.stop 1
  if (Text.utf8 s.text)[last]? == some ':'.toUInt8 then s.parametersTo? last before children else .ok none

/-- Reads the header of a python definition from a whole line. -/
def definitionHeader? : Checked (Option (List Node)) := do
  match ← s.eatKeyword? "def" with
  | none => .ok none
  | some s₁ =>
    let s₂ ← s₁.skipBlanks
    let s₃ ← s₂.skipClass Grammar.isDefinitionNameChar
    if s₂.pos < s₃.pos then s₃.parameters? s₂ [s.token .keyword s₁] else .ok none

theorem getElem?_stop_between (h : seen ++ rest ≠ []) :
    (Text.utf8 (between base seen rest post).text)[bytes base + bytes (seen ++ rest) - 1]?
      = (Text.utf8 (seen ++ rest)).getLast? := by
  have hlast := Text.getElem?_utf8 base (seen ++ rest) post (Nat.sub_lt (Text.bytes_pos h) Nat.one_pos)
  rw [← Nat.add_sub_assoc (Text.bytes_pos h)] at hlast
  rw [text_between, ← List.append_assoc seen, hlast, List.getLast?_eq_getElem?, Text.length_utf8]

/-- The first byte of `ds` that is not of a blank in front is the first byte of the trimmed text. -/
theorem getElem?_core (pre post : List Char) {ds : List Char} {t : Text.Trimmed} (ht : Text.splitTrim ds = t)
    (h : t.core ≠ []) :
    (Text.utf8 (pre ++ (ds ++ post)))[bytes pre + bytes t.before]? = (Text.utf8 t.core).head? := by
  have hget := Text.getElem?_utf8 (pre ++ t.before) t.core (t.after ++ post) (Text.bytes_pos h)
  have hds : pre ++ (ds ++ post) = pre ++ t.before ++ (t.core ++ (t.after ++ post)) := by
    rw [← Text.splitTrim_append ds, ht]
    simp
  rw [hds, ← Text.bytes_append, List.head?_eq_getElem?]
  exact hget

theorem parametersTo?_between {children : List Node} {name ds : List Char} :
    (between base (seen ++ name) (ds ++ [':']) post).parametersTo? (bytes (base ++ (seen ++ name)) + bytes ds)
        (between base seen (name ++ (ds ++ [':'])) post) children
      = .ok (let t := Text.splitTrim ds
          if t.core.head? = some '(' then
            some (children ++ nodesAfter (base ++ seen) [.token .identifier name, .gap t.before,
              .token .pythonContent t.core, .gap t.after, Piece.mark ':'])
          else none) := by
  have htrim := Span.trim?_append (base ++ (seen ++ name)) ds (':' :: post)
  have htext : (between base (seen ++ name) (ds ++ [':']) post).text
      = base ++ (seen ++ name) ++ (ds ++ ':' :: post) := by
    simp [text_between]
  generalize ht : Text.splitTrim ds = t at htrim
  have hds : ds = t.before ++ (t.core ++ t.after) := by rw [← ht, Text.splitTrim_append]
  rw [parametersTo?, htext, pos_between, ← Text.bytes_append, htrim, Checked.ok_bind]
  dsimp only
  by_cases hcore : t.core = []
  · rw [hcore]
    rfl
  · have hbyte := getElem?_core (base ++ (seen ++ name)) (':' :: post) ht hcore
    have hcontent : Node.leafOf (between base (seen ++ name) (ds ++ [':']) post).text .pythonContent
        ⟨bytes (base ++ (seen ++ name)) + bytes t.before,
          bytes (base ++ (seen ++ name)) + bytes t.before + bytes t.core⟩
        = (Piece.token .pythonContent t.core).node (base ++ (seen ++ (name ++ t.before))) := by
      refine leafOf_between (b := t.after ++ [':']) (by simp [hds]) ?_
      simp only [Text.bytes_append, Nat.add_assoc]
    have hmark : Node.leafOf (between base (seen ++ name) (ds ++ [':']) post).text .punctuation
        ⟨bytes (base ++ (seen ++ name)) + bytes ds, (between base (seen ++ name) (ds ++ [':']) post).stop⟩
        = (Piece.mark ':').node (base ++ (seen ++ (name ++ ds))) := by
      refine leafOf_between (t := [':']) (b := []) (by simp) ?_
      simp only [stop_between, Text.bytes_append, Nat.add_assoc]
    simp only [if_neg (mt List.isEmpty_iff.1 hcore), hbyte, beq_iff_eq,
      Text.head?_utf8_beq (show isAscii '(' = true by decide)]
    rw [← htext, hcontent, hmark, token_between rfl, hds]
    simp [nodesAfter_cons_token, nodesAfter_gap, nodesAfter_nil, Piece.mark]

/-- The window ends with a colon if what follows the name does. -/
theorem getLast?_utf8_name {name : List Char} (hne : name ≠ [])
    (hname : name.all Grammar.isDefinitionNameChar = true) :
    ((Text.utf8 (seen ++ name ++ rest)).getLast? == some ':'.toUInt8) = (rest.getLast? == some ':') := by
  rw [Text.getLast?_utf8_beq (by decide), List.getLast?_append]
  cases rest.getLast? with
  | some c => rfl
  | none =>
    have hlast : name.getLast? ≠ some ':' := by
      intro hl
      have hcolon := List.all_eq_true.1 hname ':' (List.mem_of_getLast? hl)
      exact absurd hcolon (by decide)
    rw [List.getLast?_append, Option.none_or, List.getLast?_eq_some_getLast hne, Option.some_or,
      ← List.getLast?_eq_some_getLast hne]
    exact beq_eq_false_iff_ne.2 hlast

theorem parameters?_between {children : List Node} {name : List Char} (hne : name ≠ [])
    (hname : name.all Grammar.isDefinitionNameChar = true) :
    (between base (seen ++ name) rest post).parameters? (between base seen (name ++ rest) post) children
      = .ok (let t := Text.splitTrim rest.dropLast
          if rest.getLast? = some ':' ∧ t.core.head? = some '(' then
            some (children ++ nodesAfter (base ++ seen) [.token .identifier name, .gap t.before,
              .token .pythonContent t.core, .gap t.after, Piece.mark ':'])
          else none) := by
  have hwindow : seen ++ name ++ rest ≠ [] := by simp [hne]
  have hsub : Checked.sub (between base (seen ++ name) rest post).stop 1
      = .ok (bytes base + bytes (seen ++ name ++ rest) - 1) := by
    have hpos := Text.bytes_pos hwindow
    refine Checked.sub_of_eq_add ?_
    rw [stop_between, Text.bytes_append (seen ++ name)] at *
    omega
  rw [parameters?, hsub, Checked.ok_bind, getElem?_stop_between hwindow, getLast?_utf8_name hne hname]
  dsimp only
  by_cases hr : rest.getLast? = some ':'
  · obtain ⟨ds, rfl⟩ := List.getLast?_eq_some_iff.1 hr
    have hend : bytes base + bytes (seen ++ name ++ (ds ++ [':'])) - 1
        = bytes (base ++ (seen ++ name)) + bytes ds := by
      simp only [Text.bytes_append, show bytes [':'] = 1 from rfl]
      omega
    rw [hr, beq_self_eq_true, if_pos rfl, hend, parametersTo?_between, List.dropLast_concat]
    simp only [true_and]
  · rw [beq_eq_false_iff_ne.2 hr, if_neg Bool.false_ne_true, if_neg fun h => hr h.1]

theorem definitionHeader?_between :
    (between base [] cs post).definitionHeader?
      = .ok ((Grammar.definitionHeader? cs).map (nodesAfter base)) := by
  rw [definitionHeader?, eatKeyword?_between (by decide), Checked.ok_bind, Grammar.definitionHeader?]
  cases hdef : Grammar.keyword? "def" cs with
  | none => rfl
  | some rest =>
    have hcs := Grammar.eq_append_of_keyword? hdef
    simp only [Option.map_some, Option.bind_some, skipBlanks_between, Checked.ok_bind,
      skipClass_between Grammar.asciiClass_isDefinitionNameChar, token_between hcs, List.append_nil]
    have hname := Grammar.front_append_span Grammar.isDefinitionNameChar (Grammar.inlineBlanks rest).rest
    by_cases hfront : (Cut.span Grammar.isDefinitionNameChar (Grammar.inlineBlanks rest).rest).front = []
    · rw [if_neg (mt pos_lt_between.1 (not_not_intro hfront)), hfront]
      rfl
    · have hall : (Cut.span Grammar.isDefinitionNameChar (Grammar.inlineBlanks rest).rest).front.all
          Grammar.isDefinitionNameChar = true := List.all_takeWhile
      have hparameters := @parameters?_between base ([] ++ "def".toList ++ (Grammar.inlineBlanks rest).front)
        (Cut.span Grammar.isDefinitionNameChar (Grammar.inlineBlanks rest).rest).rest post
        [(Piece.token .keyword "def".toList).node base] _ hfront hall
      rw [hname] at hparameters
      rw [if_pos (pos_lt_between.2 hfront), hparameters, List.isEmpty_eq_false_iff.2 hfront]
      simp only [Bool.not_false, Bool.true_and, Bool.and_eq_true, decide_eq_true_eq]
      split
      · simp [nodesAfter_cons_token, nodesAfter_gap]
      · rfl

end Scanner

end Recipe
